import LlmHomeLab.Lib.NearestRank
import LlmHomeLab.Lib.Window
import LlmHomeLab.Observability.Readable

/-! # The rolling window

Old samples are dropped from the front of a queue of each endpoint, when something is recorded for
it and when the metrics are read. With times that never go back, the figures of a snapshot are
those of the samples in the window, whatever was dropped before.
-/

namespace LlmHomeLab

/-! ## Statement -/

/-- Numbers are in order; NaN is not one. -/
structure FloatsOrdered (V : Type) [PyFloat V] : Prop where
  asymm : ∀ a b : V, PyFloat.lt a b = true → PyFloat.lt b a = false
  trans : ∀ a b c : V, PyFloat.isNan a = false → PyFloat.isNan b = false →
    PyFloat.isNan c = false → PyFloat.lt b a = false → PyFloat.lt c b = false →
    PyFloat.lt c a = false

namespace MetricsRegistry

section

variable {V : Type}

/-- The requests that are recorded, with their endpoints. -/
def requestsOf (events : List (MetricsEvent V × Int)) : List (String × Int × V × Int) :=
  events.filterMap fun
    | (.request endpoint statusCode latencyMs, now) => some (endpoint, statusCode, latencyMs, now)
    | _ => none

def outcomesOf (events : List (MetricsEvent V × Int)) : List (Bool × Int) :=
  events.filterMap fun
    | (.failoverOutcome succeeded, now) => some (succeeded, now)
    | _ => none

variable (window now : Int) (events : List (MetricsEvent V × Int))

/-- The requests of all endpoints that are no older than the window. -/
def requestsWithin : List (Int × V × Int) :=
  ((requestsOf events).map Prod.snd).filter fun sample => now - sample.2.2 ≤ window

def outcomesWithin : List (Bool × Int) :=
  (outcomesOf events).filter fun outcome => now - outcome.2 ≤ window

end

/-- `math.ceil(0.95 * n)`, where 0.95 is that fraction and not the float next to it. -/
def exactRank (n : ℕ) : ℕ := ⌈(19 / 20 : ℚ) * n⌉₊

section

variable {V : Type} [PyFloat V]

/-- `_percentile(values, p)`, where `rank n` is `math.ceil(p * n)`. -/
def percentileAt (rank : ℕ → ℕ) (values : List V) : Except NumError V :=
  let ordered := values.mergeSort fun a b => !PyFloat.lt b a
  (ordered[min (rank ordered.length - 1) (ordered.length - 1)]?).elim (.error .keyError) .ok

theorem percentile_eq (values : List V) : percentile values = percentileAt p95Rank values := rfl

/-- The least value that at least 19 of 20 values do not exceed. -/
structure IsP95 (values : List V) (v : V) : Prop where
  mem : v ∈ values
  enough : (19 / 20 : ℚ) * values.length ≤ values.countP fun x => !PyFloat.lt v x
  least : ∀ w ∈ values, (19 / 20 : ℚ) * values.length ≤ values.countP (fun x => !PyFloat.lt w x) →
    PyFloat.lt w v = false

/-- The percentile of these latencies: with the fraction it is the nearest-rank one, whatever the
order the latencies come in and without the index being clamped. The float has the same rank for
fewer than `2 ^ 48` latencies. -/
structure NearestP95 (latencies : List V) (p95LatencyMs : V) : Prop where
  inRange : 1 ≤ exactRank latencies.length ∧ exactRank latencies.length ≤ latencies.length
  exact : ∀ order : List V, order.Perm latencies →
    ∃ v, percentileAt exactRank order = .ok v ∧ IsP95 latencies v
  unique : ∀ v w, IsP95 latencies v → IsP95 latencies w →
    PyFloat.lt v w = false ∧ PyFloat.lt w v = false
  float : latencies.length < 2 ^ 48 → IsP95 latencies p95LatencyMs

/-- The figures of a snapshot that come from the window. -/
structure Figures (V : Type) where
  availability : V
  p95LatencyMs : V
  failoverSuccessRate : Option V

/-- The figures of these samples. -/
structure Figures.Of (figures : Figures V) (requests : List (Int × V × Int))
    (outcomes : List (Bool × Int)) : Prop where
  availability : (if requests.isEmpty then .ok PyFloat.one
    else PyFloat.intDiv (requests.countP fun sample => sample.1 < 500) requests.length) =
      Except.ok figures.availability
  p95LatencyMs_none : requests = [] → figures.p95LatencyMs = PyFloat.zero
  p95LatencyMs : requests ≠ [] → (∀ sample ∈ requests, PyFloat.isNan sample.2.1 = false) →
    NearestP95 (requests.map fun sample => sample.2.1) figures.p95LatencyMs
  failoverSuccessRate : (if outcomes.isEmpty then .ok none
    else some <$> PyFloat.intDiv (outcomes.countP Prod.fst) outcomes.length) =
      Except.ok figures.failoverSuccessRate

end

/-! ## What the queues hold -/

section

variable {V : Type} {window now t : Int} {events : List (MetricsEvent V × Int)}

/-- What `_evict` drops. -/
def old {α : Type} (window : Int) (time : α → Int) (now : Int) (sample : α) : Bool :=
  window < now - time sample

theorem old_mono {α : Type} {time : α → Int} {a : α} (h : now ≤ t)
    (ha : old window time now a = true) : old window time t a = true := by
  simp only [old, decide_eq_true_eq] at *
  omega

theorem not_old {α : Type} {time : α → Int} {a : α} :
    (!old window time now a) = decide (now - time a ≤ window) := by
  simp only [old, ← decide_not, not_lt]

/-- What is recorded of the requests of one endpoint. -/
def requestsAt (endpoint : String) (events : List (MetricsEvent V × Int)) : List (Int × V × Int) :=
  ((requestsOf events).filter fun request => request.1 = endpoint).map Prod.snd

/-- The queue of an endpoint. -/
def queueAt (metrics : MetricsRegistry V) (endpoint : String) : List (Int × V × Int) :=
  (metrics.requests.get? endpoint).getD []

theorem requestsAt_append (endpoint : String) (more : List (MetricsEvent V × Int)) :
    requestsAt endpoint (events ++ more) = requestsAt endpoint events ++ requestsAt endpoint more := by
  simp [requestsAt, requestsOf]

theorem outcomesOf_append (more : List (MetricsEvent V × Int)) :
    outcomesOf (events ++ more) = outcomesOf events ++ outcomesOf more :=
  List.filterMap_append

theorem queueAt_evicted (metrics : MetricsRegistry V) (endpoint : String) :
    (metrics.evicted now).queueAt endpoint =
      evict now metrics.window (·.2.2) (metrics.queueAt endpoint) := by
  simp only [evicted, queueAt, Dict.get?_mapValues]
  cases metrics.requests.get? endpoint <;> rfl

variable [PyFloat V]

/-- What one call does to the queue of an endpoint. -/
theorem queueAt_handle (metrics : MetricsRegistry V) (event : MetricsEvent V × Int)
    (endpoint : String) :
    ((metrics.handle event).queueAt endpoint = metrics.queueAt endpoint ∧
      requestsAt endpoint [event] = []) ∨
    (metrics.handle event).queueAt endpoint = evict event.2 metrics.window (·.2.2)
      (metrics.queueAt endpoint ++ requestsAt endpoint [event]) := by
  obtain ⟨event, at'⟩ := event
  cases event with
  | request endpoint' statusCode latencyMs =>
    by_cases h : endpoint = endpoint'
    · subst h
      right
      simp [handle, recordRequest, queueAt, requestsAt, requestsOf]
    · left
      simp [handle, recordRequest, queueAt, requestsAt, requestsOf, Dict.get?_set, h, Ne.symm h]
  | read =>
    right
    rw [handle, queueAt_evicted]
    exact congrArg _ (List.append_nil _).symm
  | failoverOutcome succeeded => exact Or.inl ⟨rfl, rfl⟩
  | tokenUsage hostId promptTokens completionTokens => exact Or.inl ⟨rfl, rfl⟩
  | hostCompletion hostId latencyMs promptTokens completionTokens => exact Or.inl ⟨rfl, rfl⟩

/-- And to the queue of outcomes. -/
theorem failoverOutcomes_handle (metrics : MetricsRegistry V) (event : MetricsEvent V × Int) :
    ((metrics.handle event).failoverOutcomes = metrics.failoverOutcomes ∧
      outcomesOf [event] = []) ∨
    (metrics.handle event).failoverOutcomes = evict event.2 metrics.window Prod.snd
      (metrics.failoverOutcomes ++ outcomesOf [event]) := by
  obtain ⟨event, at'⟩ := event
  cases event with
  | failoverOutcome succeeded => exact Or.inr rfl
  | read =>
    right
    exact congrArg _ (List.append_nil _).symm
  | request endpoint statusCode latencyMs => exact Or.inl ⟨rfl, rfl⟩
  | tokenUsage hostId promptTokens completionTokens => exact Or.inl ⟨rfl, rfl⟩
  | hostCompletion hostId latencyMs promptTokens completionTokens => exact Or.inl ⟨rfl, rfl⟩

theorem window_handle (metrics : MetricsRegistry V) (event : MetricsEvent V × Int) :
    (metrics.handle event).window = metrics.window := by
  obtain ⟨event, at'⟩ := event
  cases event <;> rfl

/-- Every queue covers what was recorded, for readers from `last` on. -/
structure Covered (window last : Int) (events : List (MetricsEvent V × Int))
    (metrics : MetricsRegistry V) : Prop where
  sameWindow : metrics.window = window
  requests : ∀ endpoint, Window.Covers (old window (·.2.2)) last (requestsAt endpoint events)
    (metrics.queueAt endpoint)
  failoverOutcomes : Window.Covers (old window Prod.snd) last (outcomesOf events)
    metrics.failoverOutcomes

theorem covered_handle {metrics : MetricsRegistry V} {event : MetricsEvent V × Int}
    (h : Covered window event.2 events metrics) :
    Covered window event.2 (events ++ [event]) (metrics.handle event) := by
  have hevict : ∀ {α : Type} {time : α → Int} {recorded kept more : List α},
      Window.Covers (old window time) event.2 recorded kept →
      Window.Covers (old window time) event.2 (recorded ++ more)
        (evict event.2 metrics.window time (kept ++ more)) := by
    intro α time recorded kept more hcovers
    rw [h.sameWindow]
    exact (hcovers.append more).evict fun t a ht ha => old_mono ht ha
  refine ⟨(window_handle metrics event).trans h.sameWindow, fun endpoint => ?_, ?_⟩
  · rw [requestsAt_append]
    rcases queueAt_handle metrics event endpoint with ⟨hsame, hnone⟩ | hqueue
    · rw [hsame, hnone, List.append_nil]
      exact h.requests endpoint
    · rw [hqueue]
      exact hevict (h.requests endpoint)
  · rw [outcomesOf_append]
    rcases failoverOutcomes_handle metrics event with ⟨hsame, hnone⟩ | hqueue
    · rw [hsame, hnone, List.append_nil]
      exact h.failoverOutcomes
    · rw [hqueue]
      exact hevict h.failoverOutcomes

variable (window) in
/-- Nothing is lost for a reader that does not come before the last call. -/
theorem covered_recorded (hsorted : events.Pairwise fun event later => event.2 ≤ later.2)
    (hnow : ∀ event ∈ events, event.2 ≤ now) : Covered window now events (recorded window events) := by
  induction events using List.reverseRecOn generalizing now with
  | nil => exact ⟨rfl, fun endpoint => .nil, .nil⟩
  | append_singleton events event ih =>
    rw [List.pairwise_append] at hsorted
    have hbefore := ih hsorted.1 fun event' hevent' =>
      hsorted.2.2 event' hevent' event (List.mem_singleton_self event)
    have hle : event.2 ≤ now := hnow event (by simp)
    have hafter := covered_handle hbefore
    rw [recorded, List.foldl_append]
    exact ⟨hafter.sameWindow, fun endpoint => (hafter.requests endpoint).later hle,
      hafter.failoverOutcomes.later hle⟩

/-! ## What a snapshot finds -/

omit [PyFloat V] in
theorem pairwise_requestsOf (hsorted : events.Pairwise fun event later => event.2 ≤ later.2) :
    (requestsOf events).Pairwise fun request later => request.2.2.2 ≤ later.2.2.2 := by
  refine List.Pairwise.filterMap _ ?_ hsorted
  rintro ⟨event, at'⟩ ⟨later, at''⟩ hle request hrequest request' hrequest'
  cases event <;> cases hrequest
  cases later <;> cases hrequest'
  exact hle

omit [PyFloat V] in
theorem pairwise_outcomesOf (hsorted : events.Pairwise fun event later => event.2 ≤ later.2) :
    (outcomesOf events).Pairwise fun outcome later => outcome.2 ≤ later.2 := by
  refine List.Pairwise.filterMap _ ?_ hsorted
  rintro ⟨event, at'⟩ ⟨later, at''⟩ hle outcome houtcome outcome' houtcome'
  cases event <;> cases houtcome
  cases later <;> cases houtcome'
  exact hle

omit [PyFloat V] in
/-- A queue that covers what was recorded in order has, after dropping, what is in the window. -/
theorem evict_of_covers {α : Type} {time : α → Int} {all kept : List α}
    (h : Window.Covers (old window time) now all kept)
    (hsorted : all.Pairwise fun a b => time a ≤ time b) :
    evict now window time kept = all.filter fun a => now - time a ≤ window := by
  have hold : all.Pairwise fun a b => old window time now b = true → old window time now a = true := by
    refine hsorted.imp fun hle hb => ?_
    simp only [old, decide_eq_true_eq] at *
    omega
  have heq : evict now window time kept = all.filter (!old window time now ·) :=
    h.dropWhile_eq le_rfl hold
  simpa only [not_old] using heq

variable (window) (hsorted : events.Pairwise fun event later => event.2 ≤ later.2)
  (hnow : ∀ event ∈ events, event.2 ≤ now)

include hsorted hnow

theorem failoverOutcomes_evicted :
    ((recorded window events).evicted now).failoverOutcomes = outcomesWithin window now events := by
  have hcovered := covered_recorded window hsorted hnow
  rw [evicted, hcovered.sameWindow]
  exact evict_of_covers hcovered.failoverOutcomes (pairwise_outcomesOf hsorted)

theorem queueAt_evicted_recorded (endpoint : String) :
    ((recorded window events).evicted now).queueAt endpoint =
      (requestsAt endpoint events).filter fun sample => now - sample.2.2 ≤ window := by
  have hcovered := covered_recorded window hsorted hnow
  rw [queueAt_evicted, hcovered.sameWindow]
  refine evict_of_covers (hcovered.requests endpoint) ?_
  unfold requestsAt
  rw [List.pairwise_map]
  exact (pairwise_requestsOf hsorted).filter _

/-- The requests of all endpoints that are left are those in the window. -/
theorem perm_requestsWithin :
    (((recorded window events).evicted now).requests.values.flatten).Perm
      (requestsWithin window now events) := by
  have hitems : requestsWithin window now events =
      ((requestsOf events).filter fun request => now - request.2.2.2 ≤ window).map Prod.snd := by
    rw [requestsWithin, List.filter_map]
    rfl
  rw [hitems]
  refine Dict.perm_flatten_values fun endpoint => ?_
  have hqueue := queueAt_evicted_recorded window hsorted hnow endpoint
  rw [queueAt] at hqueue
  rw [hqueue, requestsAt, List.filter_map, List.filter_filter, List.filter_filter]
  congr 1
  refine List.filter_congr fun request _ => ?_
  rw [Bool.and_comm]
  rfl

end

/-! ## The percentile -/

section

theorem exactRank_eq (n : ℕ) : exactRank n = (19 * n + 19) / 20 := by
  have hle : ∀ m : ℕ, (19 / 20 : ℚ) * n ≤ m ↔ 19 * n ≤ 20 * m := by
    intro m
    rw [div_mul_eq_mul_div, div_le_iff₀ (by norm_num), mul_comm (m : ℚ)]
    exact_mod_cast Iff.rfl
  refine le_antisymm (Nat.ceil_le.mpr ((hle _).mpr (by omega))) ?_
  have hceil := (hle _).mp (Nat.le_ceil ((19 / 20 : ℚ) * n))
  rw [← exactRank] at hceil
  omega

/-- The float is a little below the fraction, by too little for the rank of so few values. -/
theorem p95Rank_eq {n : ℕ} (h : n < 2 ^ 48) : p95Rank n = exactRank n := by
  have hsize : (8556839292003942 * n).size ≤ 101 := by
    rw [Nat.size_le]
    omega
  obtain ⟨s, hs, hround⟩ : ∃ s ≤ 48, Rounding.roundBits 53 (8556839292003942 * n) =
      Rounding.nearestMultiple s (8556839292003942 * n) := ⟨_, by omega, rfl⟩
  have hlow := Rounding.le_nearestMultiple (s := s) (n := 8556839292003942 * n)
  have hunit : 2 ^ s ≤ 2 ^ 48 := Nat.pow_le_pow_right (by decide) hs
  -- the whole number that is not below the product is a multiple of the unit
  have hhigh : Rounding.nearestMultiple s (8556839292003942 * n) ≤ (19 * n + 19) / 20 * 2 ^ 53 := by
    have hsplit : (19 * n + 19) / 20 * 2 ^ 53 = (19 * n + 19) / 20 * 2 ^ (53 - s) * 2 ^ s := by
      rw [Nat.mul_assoc, ← pow_add, Nat.sub_add_cancel (by omega)]
    rw [hsplit]
    refine Rounding.nearestMultiple_le ?_
    rw [← hsplit]
    omega
  rw [p95Rank, hround, exactRank_eq]
  omega

variable {V : Type} [PyFloat V] {latencies order : List V} {v : V}

theorem ordered_of_numbers (hO : FloatsOrdered V)
    (hnumbers : ∀ x ∈ latencies, PyFloat.isNan x = false) :
    NearestRank.Ordered (fun a b => !PyFloat.lt b a) latencies where
  total a _ b _ := by
    cases hlt : PyFloat.lt b a with
    | false => exact Or.inl rfl
    | true =>
      right
      rw [hO.asymm b a hlt]
      rfl
  trans a ha b hb c hc hab hbc := by
    rw [Bool.not_eq_true'] at *
    exact hO.trans a b c (hnumbers a ha) (hnumbers b hb) (hnumbers c hc) hab hbc

theorem isP95_iff : IsP95 latencies v ↔
    NearestRank.IsRank (fun a b => !PyFloat.lt b a) latencies (exactRank latencies.length) v := by
  have hceil : ∀ m : ℕ, exactRank latencies.length ≤ m ↔ (19 / 20 : ℚ) * latencies.length ≤ m :=
    fun m => Nat.ceil_le
  constructor
  · intro h
    refine ⟨h.mem, (hceil _).mpr h.enough, fun w hw hcount => ?_⟩
    rw [h.least w hw ((hceil _).mp hcount)]
    rfl
  · intro h
    refine ⟨h.mem, (hceil _).mp h.enough, fun w hw hcount => ?_⟩
    simpa using h.least w hw ((hceil _).mpr hcount)

theorem exactRank_inRange {n : ℕ} (h : 0 < n) : 1 ≤ exactRank n ∧ exactRank n ≤ n := by
  rw [exactRank_eq]
  omega

variable (order) in
/-- The value at the rank, where the index is not clamped. -/
theorem percentileAt_eq (rank : ℕ → ℕ) (h1 : 1 ≤ rank order.length)
    (hle : rank order.length ≤ order.length) :
    ∃ v, (order.mergeSort fun a b => !PyFloat.lt b a)[rank order.length - 1]? = some v ∧
      percentileAt rank order = .ok v := by
  have hlength : (order.mergeSort fun a b => !PyFloat.lt b a).length = order.length :=
    List.length_mergeSort order
  have hclamp : min (rank order.length - 1) (order.length - 1) = rank order.length - 1 := by omega
  unfold percentileAt
  simp only [hlength, hclamp]
  rw [List.getElem?_eq_getElem (by omega)]
  exact ⟨_, rfl, rfl⟩

theorem nearestP95_of_percentile (hO : FloatsOrdered V)
    (hnumbers : ∀ x ∈ latencies, PyFloat.isNan x = false) (hne : latencies ≠ [])
    (hperm : order.Perm latencies) {p95LatencyMs : V} (hp95 : percentile order = .ok p95LatencyMs) :
    NearestP95 latencies p95LatencyMs := by
  have hpos : 0 < latencies.length := List.length_pos_iff.mpr hne
  have hordered := ordered_of_numbers hO hnumbers
  obtain ⟨h1, hle⟩ := exactRank_inRange hpos
  have hexact : ∀ order : List V, order.Perm latencies →
      ∃ v, percentileAt exactRank order = .ok v ∧ IsP95 latencies v := by
    intro order hperm
    have hlength := hperm.length_eq
    obtain ⟨v, hv, hok⟩ := percentileAt_eq order exactRank (by rwa [hlength]) (by rwa [hlength])
    rw [hlength] at hv
    have hrank := NearestRank.isRank_mergeSort (hordered.perm hperm) h1 hv
    exact ⟨v, hok, isP95_iff.mpr (hrank.perm hperm.symm)⟩
  refine ⟨⟨h1, hle⟩, hexact, fun v w hv hw => ⟨hw.least v hv.mem hv.enough,
    hv.least w hw.mem hw.enough⟩, fun hfew => ?_⟩
  obtain ⟨v, hok, hv⟩ := hexact order hperm
  have hsame : percentile order = percentileAt exactRank order := by
    have hlength : (order.mergeSort fun a b => !PyFloat.lt b a).length = latencies.length :=
      (List.length_mergeSort order).trans hperm.length_eq
    rw [percentile_eq]
    unfold percentileAt
    simp only [hlength, p95Rank_eq hfew]
  rw [hsame, hok] at hp95
  cases hp95
  exact hv

end

/-! ## The snapshot -/

section

variable {V : Type} [PyFloat V]

/-- The figures are those of the samples that are left. -/
theorem figures_of_summarized (hO : FloatsOrdered V) {metrics : MetricsRegistry V}
    {requests : List (Int × V × Int)} {outcomes : List (Bool × Int)} {figures : Figures V}
    (hrequests : metrics.requests.values.flatten.Perm requests)
    (houtcomes : metrics.failoverOutcomes = outcomes)
    (h : metrics.Summarized figures.availability figures.p95LatencyMs figures.failoverSuccessRate) :
    figures.Of requests outcomes := by
  obtain ⟨havailability, hp95, hfailover⟩ := h
  have hempty := hrequests.isEmpty_eq
  refine ⟨?_, ?_, ?_, ?_⟩
  · rw [← hempty, ← hrequests.countP_eq, ← hrequests.length_eq]
    exact havailability
  · rintro rfl
    rw [hempty] at hp95
    exact (Except.ok.inj hp95).symm
  · intro hne hnumbers
    rw [hempty, if_neg (by simpa using hne)] at hp95
    refine nearestP95_of_percentile hO ?_ (by simpa using hne) (hrequests.map _) hp95
    intro x hx
    obtain ⟨sample, hsample, rfl⟩ := List.mem_map.mp hx
    exact hnumbers sample hsample
  · rw [← houtcomes]
    exact hfailover

/-- Whatever was dropped before, the figures of a snapshot are those of the samples that are no
older than the window, of all endpoints together. -/
theorem window_exact (hV : PyFloat.Divides V) (hO : FloatsOrdered V) (window now : Int)
    (events : List (MetricsEvent V × Int))
    (hsorted : events.Pairwise fun event later => event.2 ≤ later.2)
    (hnow : ∀ event ∈ events, event.2 ≤ now) (reg : HostRegistry) {ε : Type}
    (queue : SchedulingQueue ε) :
    ∃ figures : Figures V,
      figures.Of (requestsWithin window now events) (outcomesWithin window now events) ∧
      (recorded window events).snapshot now reg queue = (do
        let hostSaturation ← hostSaturation (reg.hostRefs.map reg.heap) .empty
        let hostCompletionStats ← (recorded window events).hostCompletionStats
          (recorded window events).hostCompletionsTotal.entries .empty
        return ((recorded window events).evicted now,
          { availability := figures.availability
            p95LatencyMs := figures.p95LatencyMs
            failoverSuccessRate := figures.failoverSuccessRate
            hostSaturation
            queueDepth := queue.depth
            tokenUsageTotal := (recorded window events).tokenUsageTotal
            hostCompletionStats })) := by
  obtain ⟨availability, p95LatencyMs, failoverSuccessRate, -, -, hsummarized⟩ :=
    summarized hV ((recorded window events).evicted now)
  refine ⟨⟨availability, p95LatencyMs, failoverSuccessRate⟩, ?_,
    snapshot_of_summarized hsummarized reg queue⟩
  exact figures_of_summarized hO (perm_requestsWithin window hsorted hnow)
    (failoverOutcomes_evicted window hsorted hnow) hsummarized

end

theorem floatsOrdered_quotient : FloatsOrdered Quotient where
  asymm a b h := by
    simp only [PyFloat.lt, decide_eq_true_eq, decide_eq_false_iff_not, not_lt] at *
    exact h.le
  trans a b c _ _ _ hab hbc := by
    simp only [PyFloat.lt, decide_eq_false_iff_not, not_lt] at *
    exact hab.trans hbc

/-- The first of two requests of different endpoints has grown old. -/
theorem window_exact_two : ∃ figures : Figures Quotient,
    figures.Of [(503, ⟨80⟩, 400000000)] [] := by
  obtain ⟨figures, hfigures, -⟩ := window_exact divides_quotient floatsOrdered_quotient
    300000000 400000000 [(.request "/v1/models" 200 ⟨120⟩, 0), (.read, 100000000),
      (.request "/v1/chat/completions" 503 ⟨80⟩, 400000000)]
    (by decide) (by decide) HostRegistry.empty ({} : SchedulingQueue Unit)
  exact ⟨figures, hfigures⟩

end MetricsRegistry

end LlmHomeLab
