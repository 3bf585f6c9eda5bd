import LlmHomeLab.Observability.Metrics

/-! # When the metrics can be read

`MetricsRegistry.snapshot` and `render_prometheus` divide by the limit of every host and by the
number of completions of every host, and write integers of any size. What is recorded keeps the
numbers of completions positive; nothing keeps a limit from being zero or null.
-/

namespace LlmHomeLab

/-! ## What is recorded -/

/-- The calls that change a metrics registry; reading it drops old samples. -/
inductive MetricsEvent (V : Type) where
  | request (endpoint : String) (statusCode : Int) (latencyMs : V)
  | failoverOutcome (succeeded : Bool)
  | tokenUsage (hostId : String) (promptTokens completionTokens : Int)
  | hostCompletion (hostId : String) (latencyMs : V) (promptTokens completionTokens : Int)
  | read

namespace MetricsRegistry

variable {V : Type}

/-- The registry a snapshot leaves, whether or not it raises. -/
def evicted (metrics : MetricsRegistry V) (now : Int) : MetricsRegistry V :=
  { metrics with
    requests := metrics.requests.mapValues (evict now metrics.window (·.2.2))
    failoverOutcomes := evict now metrics.window Prod.snd metrics.failoverOutcomes }

variable [PyFloat V]

def handle (metrics : MetricsRegistry V) : MetricsEvent V × Int → MetricsRegistry V
  | (.request endpoint statusCode latencyMs, now) =>
    metrics.recordRequest now endpoint statusCode latencyMs
  | (.failoverOutcome succeeded, now) => metrics.recordFailoverOutcome now succeeded
  | (.tokenUsage hostId promptTokens completionTokens, _) =>
    metrics.recordTokenUsage hostId promptTokens completionTokens
  | (.hostCompletion hostId latencyMs promptTokens completionTokens, _) =>
    metrics.recordHostCompletion hostId latencyMs promptTokens completionTokens
  | (.read, now) => metrics.evicted now

/-- A new registry, after these calls at these times. -/
def recorded (window : Int) (events : List (MetricsEvent V × Int)) : MetricsRegistry V :=
  events.foldl handle { window }

/-! ## Statement -/

/-- The snapshot and the text are there, and the two ratios lie between 0 and 1. -/
structure Reads (metrics : MetricsRegistry V) (now : Int) (reg : HostRegistry) {ε : Type}
    (queue : SchedulingQueue ε) : Prop where
  snapshot : ∃ metrics' snapshot, metrics.snapshot now reg queue = .ok (metrics', snapshot) ∧
    PyFloat.InUnit snapshot.availability ∧
    ∀ rate, snapshot.failoverSuccessRate = some rate → PyFloat.InUnit rate
  render : ∃ metrics' text, metrics.renderPrometheus now reg queue = .ok (metrics', text)

end MetricsRegistry

/-- The limit is an integer other than zero, and not dwarfed by the slots in use. -/
def HostInfo.Divisible (info : HostInfo) : Prop :=
  ∃ limit, info.capacity.maxConcurrentRequests = some limit ∧ limit ≠ 0 ∧
    info.inFlight.natAbs < PyFloat.overflow * limit.natAbs

namespace MetricsRegistry

variable {V : Type}

/-- The integers that are kept of each host and written. -/
def intTable (metrics : MetricsRegistry V) : HostInt → Dict String Int
  | .completionsTotal => metrics.hostCompletionsTotal
  | .promptTokensMin => metrics.hostPromptTokensMin
  | .promptTokensMax => metrics.hostPromptTokensMax
  | .completionTokensMin => metrics.hostCompletionTokensMin
  | .completionTokensMax => metrics.hostCompletionTokensMax
  | .tokenUsageTotal => metrics.tokenUsageTotal

/-- The completions of a host and the sums over them, of which the averages are floats. -/
structure Averaged (metrics : MetricsRegistry V) (hostId : String) (count : Int) : Prop where
  completions : count.natAbs < PyFloat.overflow
  promptTokens : ((metrics.hostPromptTokensTotal.get? hostId).getD 0).natAbs <
    PyFloat.overflow * count.natAbs
  completionTokens : ((metrics.hostCompletionTokensTotal.get? hostId).getD 0).natAbs <
    PyFloat.overflow * count.natAbs

/-- Every host has a limit to divide by, the averages are floats, and the integers can be
written. -/
structure Readable (metrics : MetricsRegistry V) (reg : HostRegistry) (depth : Int) : Prop where
  limits : ∀ hostId info, reg.lookup hostId = some info → info.Divisible
  averages : ∀ hostId count, metrics.hostCompletionsTotal.get? hostId = some count →
    metrics.Averaged hostId count
  depth : PyFloat.Short depth
  integers : ∀ k hostId n, (metrics.intTable k).get? hostId = some n → PyFloat.Short n

end MetricsRegistry

/-! ## Every host that is counted has its entries -/

namespace MetricsRegistry

variable {V : Type} {metrics : MetricsRegistry V} {now : Int} {hostId : String}

/-- Every number of completions is positive, and the tables of extremes have the hosts that have
one. -/
structure Counted (metrics : MetricsRegistry V) : Prop where
  positive : ∀ hostId count, metrics.hostCompletionsTotal.get? hostId = some count → 0 < count
  entries : ∀ k, k ≠ .tokenUsageTotal → ∀ hostId,
    (metrics.intTable k).contains hostId = metrics.hostCompletionsTotal.contains hostId

theorem counted_recordHostCompletion [PyFloat V] (h : metrics.Counted) (hostId : String)
    (latencyMs : V) (promptTokens completionTokens : Int) :
    (metrics.recordHostCompletion hostId latencyMs promptTokens completionTokens).Counted := by
  have hset : ∀ (d : Dict String Int) (n : Int) (id : String), (d.set hostId n).contains id =
      (decide (id = hostId) || d.contains id) := by
    intro d n id
    rw [Bool.eq_iff_iff, Dict.contains_set_iff]
    simp
  constructor
  · intro id count hget
    simp only [recordHostCompletion, addTo, Dict.get?_set] at hget
    split at hget
    · cases hget
      cases hold : metrics.hostCompletionsTotal.get? hostId with
      | none => decide
      | some old =>
        have hpos := h.positive hostId old hold
        simp only [Option.getD_some]
        omega
    · exact h.positive id count hget
  · intro k hk id
    have hentry := h.entries k hk id
    cases k with
    | tokenUsageTotal => exact absurd rfl hk
    | completionsTotal => rfl
    | _ =>
      simp only [intTable] at hentry
      simp only [recordHostCompletion, addTo, intTable, hset, hentry]

theorem counted_handle [PyFloat V] (h : metrics.Counted) (event : MetricsEvent V × Int) :
    (metrics.handle event).Counted := by
  obtain ⟨event, now⟩ := event
  cases event with
  | hostCompletion hostId latencyMs promptTokens completionTokens =>
    exact counted_recordHostCompletion h hostId latencyMs promptTokens completionTokens
  | tokenUsage hostId promptTokens completionTokens =>
    refine ⟨h.positive, fun k hk id => ?_⟩
    cases k with
    | tokenUsageTotal => exact absurd rfl hk
    | _ => exact h.entries _ hk id
  | _ => exact ⟨h.positive, h.entries⟩

theorem counted_recorded [PyFloat V] (window : Int) (events : List (MetricsEvent V × Int)) :
    (recorded window events).Counted := by
  induction events using List.reverseRecOn with
  | nil => exact ⟨fun _ _ h => (by cases h), fun k _ _ => by cases k <;> rfl⟩
  | append_singleton events event ih =>
    rw [recorded, List.foldl_append]
    exact counted_handle ih event

/-! ## The parts of a snapshot -/

variable [PyFloat V]

theorem hostSaturation_ok_iff (hosts : List HostInfo) (saturation : Dict String V) :
    (∃ d, hostSaturation hosts saturation = .ok d) ↔ ∀ host ∈ hosts, ∃ limit,
      host.capacity.maxConcurrentRequests = some limit ∧
        ∃ ratio : V, PyFloat.intDiv host.inFlight limit = .ok ratio := by
  induction hosts generalizing saturation with
  | nil => exact iff_of_true ⟨_, rfl⟩ (by simp)
  | cons host rest ih =>
    rw [List.forall_mem_cons, hostSaturation]
    cases hlimit : host.capacity.maxConcurrentRequests with
    | none =>
      refine iff_of_false (fun ⟨_, hok⟩ => by cases hok) ?_
      rintro ⟨⟨limit, hsome, -⟩, -⟩
      cases hsome
    | some limit =>
      have hratio : (∃ limit', some limit = some limit' ∧
          ∃ ratio : V, PyFloat.intDiv host.inFlight limit' = .ok ratio) ↔
          ∃ ratio : V, PyFloat.intDiv host.inFlight limit = .ok ratio := by simp
      rw [hratio]
      exact PyFloat.except_seq_iff fun ratio _ => ih _

/-- What the statistics of one host need, where the host has its entries. -/
theorem completionStats_ok_iff (h : metrics.Counted) {count : Int}
    (hcount : metrics.hostCompletionsTotal.get? hostId = some count) :
    (∃ stats : HostCompletionStats V, metrics.completionStats hostId count = .ok stats) ↔
      (∃ v : V, PyFloat.divInt ((metrics.hostLatencyMsTotal.get? hostId).getD PyFloat.zero)
        count = .ok v) ∧
      (∃ v : V, PyFloat.intDiv ((metrics.hostPromptTokensTotal.get? hostId).getD 0)
        count = .ok v) ∧
      ∃ v : V, PyFloat.intDiv ((metrics.hostCompletionTokensTotal.get? hostId).getD 0)
        count = .ok v := by
  have hcounted : metrics.hostCompletionsTotal.contains hostId = true :=
    (Dict.contains_iff _).mpr ⟨count, hcount⟩
  have hentry : ∀ k, k ≠ .tokenUsageTotal → ∃ n, (metrics.intTable k).get? hostId = some n := by
    intro k hk
    exact (Dict.contains_iff _).mp ((h.entries k hk hostId).trans hcounted)
  obtain ⟨a, ha⟩ := hentry .promptTokensMin (by decide)
  obtain ⟨b, hb⟩ := hentry .promptTokensMax (by decide)
  obtain ⟨c, hc⟩ := hentry .completionTokensMin (by decide)
  obtain ⟨d, hd⟩ := hentry .completionTokensMax (by decide)
  simp only [intTable] at ha hb hc hd
  unfold completionStats
  simp only [ha, hb, hc, hd, Option.elim_some]
  exact PyFloat.except_seq_iff fun _ _ => PyFloat.except_seq_iff fun _ _ =>
    PyFloat.except_last_iff

/-- The integers of the statistics of a host. -/
theorem completionStats_ints {count : Int} {stats : HostCompletionStats V}
    (h : metrics.completionStats hostId count = .ok stats) :
    stats.completionsTotal = count ∧
      metrics.hostPromptTokensMin.get? hostId = some stats.promptTokensMin ∧
      metrics.hostPromptTokensMax.get? hostId = some stats.promptTokensMax ∧
      metrics.hostCompletionTokensMin.get? hostId = some stats.completionTokensMin ∧
      metrics.hostCompletionTokensMax.get? hostId = some stats.completionTokensMax := by
  have hentry : ∀ {d : Dict String Int} {n : Int},
      (d.get? hostId).elim (Except.error NumError.keyError) Except.ok = .ok n →
        d.get? hostId = some n := by
    intro d n hn
    cases hget : d.get? hostId with
    | none => rw [hget] at hn; cases hn
    | some m => rw [hget] at hn; cases hn; rfl
  obtain ⟨v, -, h⟩ := Json.except_bind_ok h
  obtain ⟨w, -, h⟩ := Json.except_bind_ok h
  obtain ⟨a, ha, h⟩ := Json.except_bind_ok h
  obtain ⟨b, hb, h⟩ := Json.except_bind_ok h
  obtain ⟨x, -, h⟩ := Json.except_bind_ok h
  obtain ⟨c, hc, h⟩ := Json.except_bind_ok h
  obtain ⟨d, hd, h⟩ := Json.except_bind_ok h
  cases h
  exact ⟨rfl, hentry ha, hentry hb, hentry hc, hentry hd⟩

theorem hostCompletionStats_ok_iff (counts : List (String × Int))
    (stats : Dict String (HostCompletionStats V)) :
    (∃ d, metrics.hostCompletionStats counts stats = .ok d) ↔
      ∀ kv ∈ counts, ∃ one : HostCompletionStats V, metrics.completionStats kv.1 kv.2 = .ok one := by
  induction counts generalizing stats with
  | nil => exact iff_of_true ⟨_, rfl⟩ (by simp)
  | cons kv rest ih =>
    obtain ⟨hostId, count⟩ := kv
    rw [List.forall_mem_cons, hostCompletionStats]
    exact PyFloat.except_seq_iff fun one _ => ih _

/-- Every host that is counted gets the statistics made of its own entries. -/
theorem hostCompletionStats_get? {counts : List (String × Int)} (hnodup : (counts.map Prod.fst).Nodup)
    {stats d : Dict String (HostCompletionStats V)}
    (h : metrics.hostCompletionStats counts stats = .ok d) (hostId : String) :
    (∀ count, (hostId, count) ∈ counts →
      ∃ one, d.get? hostId = some one ∧ metrics.completionStats hostId count = .ok one) ∧
    (hostId ∉ counts.map Prod.fst → d.get? hostId = stats.get? hostId) := by
  induction counts generalizing stats with
  | nil =>
    cases h
    exact ⟨fun _ hmem => (by cases hmem), fun _ => rfl⟩
  | cons kv rest ih =>
    obtain ⟨first, count⟩ := kv
    rw [List.map_cons, List.nodup_cons] at hnodup
    obtain ⟨one, hone, h⟩ := Json.except_bind_ok h
    have hrest := ih hnodup.2 h
    constructor
    · intro count' hmem
      rcases List.mem_cons.mp hmem with heq | hmem
      · cases heq
        exact ⟨one, by rw [hrest.2 hnodup.1, Dict.get?_set_self], hone⟩
      · exact hrest.1 count' hmem
    · intro hnot
      rw [List.map_cons, List.mem_cons, not_or] at hnot
      rw [hrest.2 hnot.2, Dict.get?_set_of_ne _ hnot.1]

/-- A percentile of values there are is one of them. -/
theorem percentile_ok {values : List V} (h : values ≠ []) : ∃ v, percentile values = .ok v := by
  have hlength : (values.mergeSort fun a b => !PyFloat.lt b a).length = values.length :=
    List.length_mergeSort values
  have hpos := List.length_pos_iff.mpr h
  unfold percentile
  simp only [hlength]
  rw [List.getElem?_eq_getElem (by omega)]
  exact ⟨_, rfl⟩

/-! ## The snapshot -/

section

variable {reg : HostRegistry} {ε : Type} {queue : SchedulingQueue ε}

/-- The three figures of the samples that are left. -/
structure Summarized (metrics : MetricsRegistry V) (availability p95LatencyMs : V)
    (failoverSuccessRate : Option V) : Prop where
  availability : (if metrics.requests.values.flatten.isEmpty then .ok PyFloat.one
    else PyFloat.intDiv (metrics.requests.values.flatten.countP fun sample => sample.1 < 500)
      metrics.requests.values.flatten.length) = Except.ok availability
  p95LatencyMs : (if metrics.requests.values.flatten.isEmpty then .ok PyFloat.zero
    else percentile (metrics.requests.values.flatten.map fun sample => sample.2.1)) =
      Except.ok p95LatencyMs
  failoverSuccessRate : (if metrics.failoverOutcomes.isEmpty then .ok none
    else some <$> PyFloat.intDiv (metrics.failoverOutcomes.countP Prod.fst)
      metrics.failoverOutcomes.length) = Except.ok failoverSuccessRate

/-- Where the figures are there, what may raise are the two tables of hosts. -/
theorem snapshot_of_summarized {availability p95LatencyMs : V} {failoverSuccessRate : Option V}
    (h : (metrics.evicted now).Summarized availability p95LatencyMs failoverSuccessRate)
    (reg : HostRegistry) {ε : Type} (queue : SchedulingQueue ε) :
    metrics.snapshot now reg queue = (do
      let hostSaturation ← hostSaturation (reg.hostRefs.map reg.heap) .empty
      let hostCompletionStats ←
        metrics.hostCompletionStats metrics.hostCompletionsTotal.entries .empty
      return (metrics.evicted now,
        { availability, p95LatencyMs, failoverSuccessRate, hostSaturation
          queueDepth := queue.depth
          tokenUsageTotal := metrics.tokenUsageTotal
          hostCompletionStats })) := by
  obtain ⟨havailability, hp95, hfailover⟩ := h
  unfold snapshot
  by_cases hs : (metrics.evicted now).requests.values.flatten.isEmpty = true <;>
    by_cases ho : (metrics.evicted now).failoverOutcomes.isEmpty = true
  all_goals
    simp only [evicted] at hs ho havailability hp95 hfailover
    simp only [hs, ho, if_true, if_false, Bool.false_eq_true] at havailability hp95 hfailover ⊢
    simp only [havailability, hp95, hfailover, evicted]
    rfl

/-- The ratios and the percentile are always there. -/
theorem summarized (hV : PyFloat.Divides V) (metrics : MetricsRegistry V) :
    ∃ (availability p95LatencyMs : V) (failoverSuccessRate : Option V),
      PyFloat.InUnit availability ∧ (∀ rate, failoverSuccessRate = some rate → PyFloat.InUnit rate) ∧
      metrics.Summarized availability p95LatencyMs failoverSuccessRate := by
  have hpart : ∀ {α : Type} (p : α → Bool) (l : List α), l ≠ [] →
      ∃ v : V, PyFloat.intDiv (l.countP p) l.length = .ok v ∧ PyFloat.InUnit v := by
    intro α p l hne
    have hpos := List.length_pos_iff.mpr hne
    have hle := List.countP_le_length (p := p) (l := l)
    exact hV.inUnit (by omega) (by omega) (by omega)
  let samples := metrics.requests.values.flatten
  let outcomes := metrics.failoverOutcomes
  obtain ⟨availability, havailability, hunit⟩ : ∃ v : V,
      (if samples.isEmpty then .ok PyFloat.one
        else PyFloat.intDiv (samples.countP fun sample => sample.1 < 500) samples.length :
          Except NumError V) = .ok v ∧ PyFloat.InUnit v := by
    split
    · exact ⟨_, rfl, hV.inUnit_one⟩
    · next hne => exact hpart _ samples fun hnil => hne (by rw [hnil]; rfl)
  obtain ⟨p95LatencyMs, hp95⟩ : ∃ v : V,
      (if samples.isEmpty then .ok PyFloat.zero
        else percentile (samples.map fun sample => sample.2.1) : Except NumError V) = .ok v := by
    split
    · exact ⟨_, rfl⟩
    · next hne =>
      refine percentile_ok fun hnil => hne ?_
      rw [List.map_eq_nil_iff.mp hnil]
      rfl
  obtain ⟨failoverSuccessRate, hfailover, hrate⟩ : ∃ rate : Option V,
      (if outcomes.isEmpty then .ok none
        else some <$> PyFloat.intDiv (outcomes.countP Prod.fst) outcomes.length :
          Except NumError (Option V)) = .ok rate ∧ ∀ v, rate = some v → PyFloat.InUnit v := by
    split
    · exact ⟨none, rfl, fun _ h => by cases h⟩
    · next hne =>
      obtain ⟨v, hv, hunit⟩ := hpart Prod.fst outcomes fun hnil => hne (by rw [hnil]; rfl)
      refine ⟨some v, by rw [hv]; rfl, fun w hw => ?_⟩
      cases hw
      exact hunit
  exact ⟨availability, p95LatencyMs, failoverSuccessRate, hunit, hrate,
    ⟨havailability, hp95, hfailover⟩⟩

/-- What may raise are the two tables of hosts. -/
theorem snapshot_eq (hV : PyFloat.Divides V) (metrics : MetricsRegistry V) (now : Int)
    (reg : HostRegistry) {ε : Type} (queue : SchedulingQueue ε) :
    ∃ (availability p95LatencyMs : V) (failoverSuccessRate : Option V),
      PyFloat.InUnit availability ∧ (∀ rate, failoverSuccessRate = some rate → PyFloat.InUnit rate) ∧
      metrics.snapshot now reg queue = (do
        let hostSaturation ← hostSaturation (reg.hostRefs.map reg.heap) .empty
        let hostCompletionStats ←
          metrics.hostCompletionStats metrics.hostCompletionsTotal.entries .empty
        return (metrics.evicted now,
          { availability, p95LatencyMs, failoverSuccessRate, hostSaturation
            queueDepth := queue.depth
            tokenUsageTotal := metrics.tokenUsageTotal
            hostCompletionStats })) := by
  obtain ⟨availability, p95LatencyMs, failoverSuccessRate, hunit, hrate, hsummarized⟩ :=
    summarized hV (metrics.evicted now)
  exact ⟨availability, p95LatencyMs, failoverSuccessRate, hunit, hrate,
    snapshot_of_summarized hsummarized reg queue⟩

variable (reg) in
/-- The limits and the averages are what the two tables need. -/
theorem tables_ok_iff (hV : PyFloat.Divides V) (h : metrics.Counted) :
    ((∃ d : Dict String V, hostSaturation (reg.hostRefs.map reg.heap) .empty = .ok d) ∧
      ∃ d : Dict String (HostCompletionStats V),
        metrics.hostCompletionStats metrics.hostCompletionsTotal.entries .empty = .ok d) ↔
      (∀ hostId info, reg.lookup hostId = some info → info.Divisible) ∧
      ∀ hostId count, metrics.hostCompletionsTotal.get? hostId = some count →
        metrics.Averaged hostId count := by
  have hhosts : ∀ info,
      info ∈ reg.hostRefs.map reg.heap ↔ ∃ hostId, reg.lookup hostId = some info := by
    intro info
    simp only [List.mem_map, HostRegistry.hostRefs, Dict.mem_values, HostRegistry.lookup_eq_some]
    exact ⟨fun ⟨ref, ⟨id, hid⟩, heq⟩ => ⟨id, ref, hid, heq⟩,
      fun ⟨id, ref, hid, heq⟩ => ⟨ref, ⟨id, hid⟩, heq⟩⟩
  have hdivisible : ∀ info : HostInfo, (∃ limit, info.capacity.maxConcurrentRequests = some limit ∧
      ∃ ratio : V, PyFloat.intDiv info.inFlight limit = .ok ratio) ↔ info.Divisible := by
    intro info
    simp only [hV.intDiv_ok_iff, HostInfo.Divisible]
  rw [hostSaturation_ok_iff, hostCompletionStats_ok_iff]
  refine and_congr ?_ ?_
  · simp only [hdivisible, hhosts, forall_exists_index]
    exact forall_comm
  · simp only [Prod.forall, ← Dict.get?_eq_some]
    refine forall_congr' fun hostId => forall_congr' fun count => forall_congr' fun hcount => ?_
    have hne : count ≠ 0 := (h.positive hostId count hcount).ne'
    rw [completionStats_ok_iff h hcount, hV.divInt_ok_iff, hV.intDiv_ok_iff, hV.intDiv_ok_iff]
    exact ⟨fun ⟨hcount, hprompt, hcompletion⟩ => ⟨hcount.2, hprompt.2, hcompletion.2⟩,
      fun ⟨hcount, hprompt, hcompletion⟩ => ⟨⟨hne, hcount⟩, ⟨hne, hprompt⟩, ⟨hne, hcompletion⟩⟩⟩

/-- The integers of a snapshot are those of the registry. -/
theorem hostInts_get? (h : metrics.Counted) {snapshot : SliSnapshot V}
    (htokens : snapshot.tokenUsageTotal = metrics.tokenUsageTotal)
    (hstats : metrics.hostCompletionStats metrics.hostCompletionsTotal.entries .empty =
      .ok snapshot.hostCompletionStats) (k : HostInt) (hostId : String) :
    (snapshot.hostInts k).get? hostId = (metrics.intTable k).get? hostId := by
  obtain ⟨hcounted, hother⟩ :=
    hostCompletionStats_get? metrics.hostCompletionsTotal.nodup hstats hostId
  cases hcount : metrics.hostCompletionsTotal.get? hostId with
  | some count =>
    obtain ⟨one, hget, hone⟩ := hcounted count ((Dict.get?_eq_some _).mp hcount)
    obtain ⟨htotal, ha, hb, hc, hd⟩ := completionStats_ints hone
    cases k <;> simp_all [SliSnapshot.hostInts, intTable, Dict.get?_mapValues]
  | none =>
    have hnot : hostId ∉ metrics.hostCompletionsTotal.entries.map Prod.fst := by
      rw [← Dict.keys, Dict.mem_keys, hcount]
      simp
    have hnone : snapshot.hostCompletionStats.get? hostId = none := hother hnot
    by_cases hk : k = .tokenUsageTotal
    · subst hk
      rw [intTable, ← htokens]
      rfl
    · have hentry := h.entries k hk hostId
      rw [(Dict.contains_eq_false _).mpr hcount, Dict.contains_eq_false] at hentry
      rw [hentry]
      cases k with
      | tokenUsageTotal => exact absurd rfl hk
      | _ => simp [SliSnapshot.hostInts, Dict.get?_mapValues, hnone]

/-- The metrics can be read exactly if every limit can be divided by, the averages are floats and
the integers can be written. -/
theorem reads_iff_of_counted (hV : PyFloat.Divides V) (h : metrics.Counted) :
    metrics.Reads now reg queue ↔ metrics.Readable reg queue.depth := by
  obtain ⟨availability, p95LatencyMs, failoverSuccessRate, hunit, hrate, hsnapshot⟩ :=
    snapshot_eq hV metrics now reg queue
  have htables := tables_ok_iff reg hV h
  have hok : (∃ pair, metrics.snapshot now reg queue = .ok pair) ↔
      (∃ d : Dict String V, hostSaturation (reg.hostRefs.map reg.heap) .empty = .ok d) ∧
        ∃ d : Dict String (HostCompletionStats V),
          metrics.hostCompletionStats metrics.hostCompletionsTotal.entries .empty = .ok d := by
    rw [hsnapshot]
    exact PyFloat.except_seq_iff fun _ _ => PyFloat.except_last_iff
  constructor
  · rintro ⟨⟨metrics', snapshot, hread, -⟩, metrics'', text, hrender⟩
    obtain ⟨hlimits, haverages⟩ := htables.mp (hok.mp ⟨_, hread⟩)
    -- what the snapshot has that was rendered
    rw [hsnapshot] at hread
    obtain ⟨saturation, -, hread'⟩ := Json.except_bind_ok hread
    obtain ⟨stats, hstats, hpure⟩ := Json.except_bind_ok hread'
    cases hpure
    rw [← hsnapshot] at hread
    rw [renderPrometheus, hread, Json.except_ok_bind] at hrender
    obtain ⟨text', htext, -⟩ := Json.except_bind_ok hrender
    obtain ⟨lines, hlines, -⟩ := Json.except_bind_ok htext
    obtain ⟨hdepth, hints⟩ := (SliSnapshot.lines_ok_iff _).mp ⟨lines, hlines⟩
    refine ⟨hlimits, haverages, hdepth, fun k hostId n hget => hints k hostId n ?_⟩
    rw [hostInts_get? h rfl hstats]
    exact hget
  · intro hreadable
    obtain ⟨⟨saturation, hsaturation⟩, stats, hstats⟩ :=
      htables.mpr ⟨hreadable.limits, hreadable.averages⟩
    have hread := hsnapshot
    rw [hsaturation, Json.except_ok_bind, hstats, Json.except_ok_bind] at hread
    obtain ⟨lines, hlines⟩ : ∃ lines, SliSnapshot.lines
        { availability, p95LatencyMs, failoverSuccessRate, hostSaturation := saturation
          queueDepth := queue.depth
          tokenUsageTotal := metrics.tokenUsageTotal
          hostCompletionStats := stats } = .ok lines := by
      refine (SliSnapshot.lines_ok_iff _).mpr ⟨hreadable.depth, fun k hostId n hget => ?_⟩
      rw [hostInts_get? h rfl hstats] at hget
      exact hreadable.integers k hostId n hget
    refine ⟨⟨_, _, hread, hunit, hrate⟩, metrics.evicted now, lines.flatMap (· ++ ['\n']), ?_⟩
    rw [renderPrometheus, hread]
    simp only [pure, Except.pure, Json.except_ok_bind, SliSnapshot.render, hlines]

/-- So it is after any calls, for any hosts and any queue. -/
theorem reads_iff (hV : PyFloat.Divides V) (window : Int) (events : List (MetricsEvent V × Int))
    (now : Int) (reg : HostRegistry) {ε : Type} (queue : SchedulingQueue ε) :
    (recorded window events).Reads now reg queue ↔
      (recorded window events).Readable reg queue.depth :=
  reads_iff_of_counted hV (counted_recorded window events)

end

/-! ## A limit of zero -/

end MetricsRegistry

/-- Quotients that are not rounded. -/
structure Quotient where
  value : ℚ

instance : PyFloat Quotient where
  zero := ⟨0⟩
  one := ⟨1⟩
  add x y := ⟨x.value + y.value⟩
  lt x y := x.value < y.value
  intDiv m n :=
    if n = 0 then .error .zeroDivisionError
    else if m.natAbs < PyFloat.overflow * n.natAbs then .ok ⟨m / n⟩
    else .error .overflowError
  divInt x n :=
    if n = 0 then .error .zeroDivisionError
    else if n.natAbs < PyFloat.overflow then .ok ⟨x.value / n⟩
    else .error .overflowError
  isNan _ := false
  repr x := PyFloat.digits x.value.floor ++ ['.', '0']
  ofText _ := none
  toInt x := .ok x.value.floor

theorem divides_quotient : PyFloat.Divides Quotient where
  intDiv_ok_iff m n := by
    simp only [PyFloat.intDiv]
    split
    · next h => simp [h]
    · split <;> simp_all
  divInt_ok_iff x n := by
    simp only [PyFloat.divInt]
    split
    · next h => simp [h]
    · split <;> simp_all
  isNan_intDiv _ _ _ _ := rfl
  intDiv_mono m n m' n' v w hv hw hle := by
    have hvalue : ∀ {m n : Int} {v : Quotient}, PyFloat.intDiv m n = .ok v → v.value = m / n := by
      intro m n v hv
      simp only [PyFloat.intDiv] at hv
      split at hv
      · cases hv
      · split at hv
        · cases hv
          rfl
        · cases hv
    simp only [PyFloat.lt, decide_eq_false_iff_not, not_lt]
    rw [hvalue hv, hvalue hw]
    exact hle
  intDiv_zero n h := by
    have hn : 0 < n.natAbs := by omega
    have hpos := Nat.mul_pos (PyFloat.lt_overflow (by decide : 0 < 2 ^ 54 - 1)) hn
    simp [PyFloat.intDiv, PyFloat.zero, h.ne', hpos]
  intDiv_self n h := by
    have hn : 0 < n.natAbs := by omega
    have hone := Nat.mul_lt_mul_of_pos_right (PyFloat.lt_overflow (by decide : 1 < 2 ^ 54 - 1)) hn
    rw [Nat.one_mul] at hone
    have hself : (n : ℚ) / n = 1 := div_self (by exact_mod_cast h.ne')
    simp only [PyFloat.intDiv, PyFloat.one, if_neg h.ne', if_pos hone, hself]

namespace MetricsRegistry

/-- A host with two slots has served one completion. -/
theorem reads_iff_one_host :
    (recorded 300000000 [(.request "/v1/chat/completions" 200 ⟨120⟩, 0),
      (.tokenUsage "gpu-1" 5 7, 0), (.hostCompletion "gpu-1" ⟨120⟩ 5 7, 0),
      (.failoverOutcome true, 0)] : MetricsRegistry Quotient).Reads 0
      (HostRegistry.empty.register "gpu-1"
        ⟨some "lmstudio", some 8, some "http://a", none, none, none, none, none⟩ ⟨some 2⟩ 0)
      ({} : SchedulingQueue Unit) := by
  have hsmall : ∀ {m : ℕ}, m < 121 → m < PyFloat.overflow := fun h =>
    PyFloat.lt_overflow (lt_trans h (by decide))
  have hquotient : ∀ {m k : ℕ}, m < 121 → 0 < k → m < PyFloat.overflow * k := fun h hk =>
    lt_of_lt_of_le (hsmall h) (Nat.le_mul_of_pos_right _ hk)
  have hshort : ∀ {n : Int}, n.natAbs < 121 → PyFloat.Short n := fun h =>
    PyFloat.short_of_lt_overflow (hsmall h)
  have hone : ∀ {m n : Int} {hostId : String},
      (Dict.empty.set "gpu-1" m).get? hostId = some n → hostId = "gpu-1" ∧ m = n := by
    intro m n hostId hget
    rw [Dict.get?_set] at hget
    split at hget
    · next hid => exact ⟨hid, Option.some.inj hget⟩
    · cases hget
  refine (reads_iff divides_quotient _ _ _ _ _).mpr ⟨?_, ?_, hshort (by decide), ?_⟩
  · intro hostId info hinfo
    rw [HostRegistry.lookup_register] at hinfo
    split at hinfo
    · cases hinfo
      exact ⟨2, rfl, by decide, hquotient (by decide) (by decide)⟩
    · cases hinfo
  · intro hostId count hcount
    obtain ⟨rfl, rfl⟩ := hone hcount
    exact ⟨hsmall (by decide), hquotient (by decide) (by decide), hquotient (by decide) (by decide)⟩
  · intro k hostId n hget
    cases k
    all_goals
      obtain ⟨-, rfl⟩ := hone hget
      exact hshort (by decide)

/-- A host whose limit is zero is accepted, and no metrics are read. -/
theorem zero_limit_unread :
    ¬ (recorded 300000000 [] : MetricsRegistry Quotient).Reads 0
      (HostRegistry.empty.register "gpu-1"
        ⟨some "lmstudio", some 8, some "http://a", none, none, none, none, none⟩ ⟨some 0⟩ 0)
      ({} : SchedulingQueue Unit) := by
  rintro ⟨⟨metrics', snapshot, hread, -⟩, -⟩
  cases hread

end MetricsRegistry

end LlmHomeLab
