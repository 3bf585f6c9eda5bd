import LlmHomeLab.Lib.Tally
import LlmHomeLab.Observability.Readable

/-! # The completion statistics of a host

`record_host_completion` keeps eight tables, some with a default and some without. Each of them is
a tally over the completions of every host, so they have the same hosts, and the averages a
snapshot makes of them lie between the extremes.
-/

namespace LlmHomeLab

/-- The values of a recorded completion. -/
structure Completion (V : Type) where
  latencyMs : V
  promptTokens : Int
  completionTokens : Int

namespace MetricsRegistry

variable {V : Type}

/-- The completions recorded for a host, in order. -/
def completionsOf (hostId : String) : List (MetricsEvent V × Int) → List (Completion V)
  | [] => []
  | (.hostCompletion id latencyMs promptTokens completionTokens, _) :: events =>
    if hostId = id then ⟨latencyMs, promptTokens, completionTokens⟩ :: completionsOf hostId events
    else completionsOf hostId events
  | _ :: events => completionsOf hostId events

theorem completionsOf_append (hostId : String) (events events' : List (MetricsEvent V × Int)) :
    completionsOf hostId (events ++ events') =
      completionsOf hostId events ++ completionsOf hostId events' := by
  induction events with
  | nil => rfl
  | cons event events ih =>
    obtain ⟨event, now⟩ := event
    cases event with
    | hostCompletion id latencyMs promptTokens completionTokens =>
      simp only [List.cons_append, completionsOf, ih]
      split <;> rfl
    | _ => exact ih

/-! ## Statement -/

/-- The extremes of the values there are, with the sum between them. -/
structure Bounds (values : List Int) (sum low high : Int) : Prop where
  total : sum = values.sum
  low_mem : low ∈ values
  low_le : ∀ n ∈ values, low ≤ n
  high_mem : high ∈ values
  le_high : ∀ n ∈ values, n ≤ high
  low_mul : low * (values.length : Int) ≤ sum
  mul_high : sum ≤ high * (values.length : Int)

/-- The eight entries of a host that has served these completions. -/
structure Consistent [PyFloat V] (metrics : MetricsRegistry V) (hostId : String)
    (served : List (Completion V)) : Prop where
  completionsTotal : metrics.hostCompletionsTotal.get? hostId = some (served.length : Int)
  latencyMsTotal : metrics.hostLatencyMsTotal.get? hostId =
    some ((served.map (·.latencyMs)).foldl PyFloat.add PyFloat.zero)
  promptTokens : ∃ sum low high, metrics.hostPromptTokensTotal.get? hostId = some sum ∧
    metrics.hostPromptTokensMin.get? hostId = some low ∧
    metrics.hostPromptTokensMax.get? hostId = some high ∧
    Bounds (served.map (·.promptTokens)) sum low high
  completionTokens : ∃ sum low high, metrics.hostCompletionTokensTotal.get? hostId = some sum ∧
    metrics.hostCompletionTokensMin.get? hostId = some low ∧
    metrics.hostCompletionTokensMax.get? hostId = some high ∧
    Bounds (served.map (·.completionTokens)) sum low high

/-! ## Every table is a tally -/

/-- The tables after these completions of each host. -/
structure Tallied [PyFloat V] (metrics : MetricsRegistry V)
    (served : String → List (Completion V)) : Prop where
  completionsTotal : Tally.Holds (Tally.plus (fun n _ => n + 1) 0)
    metrics.hostCompletionsTotal served
  latencyMsTotal : Tally.Holds (Tally.plus (fun v c => PyFloat.add v c.latencyMs) PyFloat.zero)
    metrics.hostLatencyMsTotal served
  promptTokensTotal : Tally.Holds (Tally.plus (fun n c => n + c.promptTokens) 0)
    metrics.hostPromptTokensTotal served
  promptTokensMin : Tally.Holds (fun low c => Tally.least low c.promptTokens)
    metrics.hostPromptTokensMin served
  promptTokensMax : Tally.Holds (fun high c => Tally.most high c.promptTokens)
    metrics.hostPromptTokensMax served
  completionTokensTotal : Tally.Holds (Tally.plus (fun n c => n + c.completionTokens) 0)
    metrics.hostCompletionTokensTotal served
  completionTokensMin : Tally.Holds (fun low c => Tally.least low c.completionTokens)
    metrics.hostCompletionTokensMin served
  completionTokensMax : Tally.Holds (fun high c => Tally.most high c.completionTokens)
    metrics.hostCompletionTokensMax served

variable [PyFloat V] {metrics : MetricsRegistry V} {served : String → List (Completion V)}

theorem tallied_recordHostCompletion (h : metrics.Tallied served) (hostId : String)
    (completion : Completion V) :
    (metrics.recordHostCompletion hostId completion.latencyMs completion.promptTokens
      completion.completionTokens).Tallied
      fun id => if id = hostId then served id ++ [completion] else served id where
  completionsTotal := h.completionsTotal.set hostId completion
  latencyMsTotal := h.latencyMsTotal.set hostId completion
  promptTokensTotal := h.promptTokensTotal.set hostId completion
  promptTokensMin := h.promptTokensMin.set hostId completion
  promptTokensMax := h.promptTokensMax.set hostId completion
  completionTokensTotal := h.completionTokensTotal.set hostId completion
  completionTokensMin := h.completionTokensMin.set hostId completion
  completionTokensMax := h.completionTokensMax.set hostId completion

theorem tallied_handle (h : metrics.Tallied served) (event : MetricsEvent V × Int) :
    (metrics.handle event).Tallied fun id => served id ++ completionsOf id [event] := by
  obtain ⟨event, now⟩ := event
  cases event with
  | hostCompletion hostId latencyMs promptTokens completionTokens =>
    have hserved : (fun id => served id ++ completionsOf id
          [(.hostCompletion hostId latencyMs promptTokens completionTokens, now)]) =
        fun id => if id = hostId then served id ++ [⟨latencyMs, promptTokens, completionTokens⟩]
          else served id := by
      funext id
      simp only [completionsOf]
      split <;> simp
    rw [hserved]
    exact tallied_recordHostCompletion h hostId ⟨latencyMs, promptTokens, completionTokens⟩
  | _ =>
    -- the other calls leave the eight tables alone
    simp only [completionsOf, List.append_nil]
    exact ⟨h.1, h.2, h.3, h.4, h.5, h.6, h.7, h.8⟩

theorem tallied_recorded (window : Int) (events : List (MetricsEvent V × Int)) :
    (recorded window events).Tallied fun id => completionsOf id events := by
  induction events using List.reverseRecOn with
  | nil => exact ⟨.empty, .empty, .empty, .empty, .empty, .empty, .empty, .empty⟩
  | append_singleton events event ih =>
    have hstep := tallied_handle ih event
    rw [recorded, List.foldl_append]
    simp only [completionsOf_append]
    exact hstep

/-! ## The entries of a host -/

theorem bounds_of_tally {values : List Int} {sum low high : Int} (hsum : sum = values.sum)
    (hlow : Tally.of Tally.least values = some low)
    (hhigh : Tally.of Tally.most values = some high) : Bounds values sum low high := by
  rw [Tally.of_least] at hlow
  rw [Tally.of_most] at hhigh
  obtain ⟨hlowMem, hlowLe⟩ := List.min?_eq_some_iff.mp hlow
  obtain ⟨hhighMem, hleHigh⟩ := List.max?_eq_some_iff.mp hhigh
  exact {
    total := hsum
    low_mem := hlowMem
    low_le := hlowLe
    high_mem := hhighMem
    le_high := hleHigh
    low_mul := hsum ▸ Tally.least_mul_length_le_sum hlow
    mul_high := hsum ▸ Tally.sum_le_most_mul_length hhigh }

omit [PyFloat V] in
/-- Two tables of extremes and one of sums, of one number of each completion. -/
theorem bounds_of_holds {f : Completion V → Int} {total least most : Dict String Int}
    {hostId : String} (htotal : Tally.Holds (Tally.plus (fun n c => n + f c) 0) total served)
    (hleast : Tally.Holds (fun low c => Tally.least low (f c)) least served)
    (hmost : Tally.Holds (fun high c => Tally.most high (f c)) most served)
    (hserved : served hostId ≠ []) :
    ∃ sum low high, total.get? hostId = some sum ∧ least.get? hostId = some low ∧
      most.get? hostId = some high ∧ Bounds ((served hostId).map f) sum low high := by
  have hne : (served hostId).map f ≠ [] := fun hnil => hserved (List.map_eq_nil_iff.mp hnil)
  have hsum := htotal hostId
  rw [Tally.of_plus hserved, ← List.foldl_map, ← List.sum_eq_foldl] at hsum
  have hlow := hleast hostId
  rw [Tally.of_map f] at hlow
  have hhigh := hmost hostId
  rw [Tally.of_map f] at hhigh
  obtain ⟨low, hlowSome⟩ := Option.isSome_iff_exists.mp (List.isSome_min?_of_ne_nil hne)
  obtain ⟨high, hhighSome⟩ := Option.isSome_iff_exists.mp (List.isSome_max?_of_ne_nil hne)
  rw [← Tally.of_least] at hlowSome
  rw [← Tally.of_most] at hhighSome
  exact ⟨_, low, high, hsum, hlow.trans hlowSome, hhigh.trans hhighSome,
    bounds_of_tally rfl hlowSome hhighSome⟩

theorem consistent_of_tallied (h : metrics.Tallied served) {hostId : String}
    (hserved : served hostId ≠ []) : metrics.Consistent hostId (served hostId) where
  completionsTotal := by
    have hcount : ∀ (l : List (Completion V)) (n : Int),
        l.foldl (fun n _ => n + 1) n = n + l.length := by
      intro l
      induction l with
      | nil => simp
      | cons c l ih => intro n; rw [List.foldl_cons, ih, List.length_cons]; push_cast; ring
    rw [h.completionsTotal hostId, Tally.of_plus hserved, hcount, zero_add]
  latencyMsTotal := by
    rw [h.latencyMsTotal hostId, Tally.of_plus hserved, List.foldl_map]
  promptTokens :=
    bounds_of_holds h.promptTokensTotal h.promptTokensMin h.promptTokensMax hserved
  completionTokens :=
    bounds_of_holds h.completionTokensTotal h.completionTokensMin h.completionTokensMax hserved

/-- A host is counted from its first completion on. -/
theorem served_of_counted (h : metrics.Tallied served) {hostId : String} {total : Int}
    (htotal : metrics.hostCompletionsTotal.get? hostId = some total) : served hostId ≠ [] := by
  intro hnil
  rw [h.completionsTotal hostId, hnil] at htotal
  cases htotal

/-! ## The statistics in a snapshot -/

/-- With its entries there, a host's statistics raise at most for a quotient that is too large. -/
theorem completionStats_raises (hV : PyFloat.OnlyOverflows V) {hostId : String}
    {completions : List (Completion V)} (h : metrics.Consistent hostId completions)
    (hne : completions ≠ []) {e : NumError}
    (he : (metrics.completionStats hostId completions.length :
      Except NumError (HostCompletionStats V)) = .error e) : e = .overflowError := by
  have hpos : (completions.length : Int) ≠ 0 := by
    have hlength := List.length_pos_iff.mpr hne
    omega
  obtain ⟨_, promptLow, promptHigh, -, hpromptLow, hpromptHigh, -⟩ := h.promptTokens
  obtain ⟨_, low, high, -, hlow, hhigh, -⟩ := h.completionTokens
  unfold completionStats at he
  simp only [hpromptLow, hpromptHigh, hlow, hhigh, Option.elim_some, Json.except_ok_bind] at he
  rcases PyFloat.except_bind_error he with he | ⟨_, -, he⟩
  · exact hV.divInt _ _ e hpos he
  rcases PyFloat.except_bind_error he with he | ⟨_, -, he⟩
  · exact hV.intDiv _ _ e hpos he
  rcases PyFloat.except_bind_error he with he | ⟨_, -, he⟩
  · exact hV.intDiv _ _ e hpos he
  cases he

theorem hostCompletionStats_raises {counts : List (String × Int)}
    (h : ∀ kv ∈ counts, ∀ e, (metrics.completionStats kv.1 kv.2 :
      Except NumError (HostCompletionStats V)) = .error e → e = .overflowError)
    {stats : Dict String (HostCompletionStats V)} {e : NumError}
    (he : metrics.hostCompletionStats counts stats = .error e) : e = .overflowError := by
  induction counts generalizing stats with
  | nil => cases he
  | cons kv counts ih =>
    obtain ⟨hostId, total⟩ := kv
    rw [List.forall_mem_cons] at h
    rw [hostCompletionStats] at he
    rcases PyFloat.except_bind_error he with he | ⟨one, -, he⟩
    · exact h.1 e he
    · exact ih h.2 he

/-- After any calls, every host that is counted has its entries in all eight tables, made of the
completions recorded for it; the statistics of a snapshot neither divide by zero nor miss a key. -/
theorem host_statistics_consistent (hV : PyFloat.OnlyOverflows V) (window : Int)
    (events : List (MetricsEvent V × Int)) :
    (∀ hostId total, (recorded window events).hostCompletionsTotal.get? hostId = some total →
      1 ≤ total ∧ total = (completionsOf hostId events).length ∧
        (recorded window events).Consistent hostId (completionsOf hostId events) ∧
        ∀ e, ((recorded window events).completionStats hostId total :
          Except NumError (HostCompletionStats V)) = .error e →
            e ≠ .zeroDivisionError ∧ e ≠ .keyError) ∧
    (∀ hostId, (recorded window events).hostCompletionsTotal.get? hostId = none →
      completionsOf hostId events = []) ∧
    ∀ e, (recorded window events).hostCompletionStats
      (recorded window events).hostCompletionsTotal.entries .empty = .error e →
        e ≠ .zeroDivisionError ∧ e ≠ .keyError := by
  have h := tallied_recorded window events
  have hhost : ∀ hostId total,
      (recorded window events).hostCompletionsTotal.get? hostId = some total →
        completionsOf hostId events ≠ [] ∧ total = (completionsOf hostId events).length ∧
          (recorded window events).Consistent hostId (completionsOf hostId events) := by
    intro hostId total htotal
    have hne := served_of_counted h htotal
    have hconsistent := consistent_of_tallied h hne
    rw [hconsistent.completionsTotal] at htotal
    cases htotal
    exact ⟨hne, rfl, hconsistent⟩
  have hraises : ∀ hostId total,
      (recorded window events).hostCompletionsTotal.get? hostId = some total →
        ∀ e, ((recorded window events).completionStats hostId total :
          Except NumError (HostCompletionStats V)) = .error e → e = .overflowError := by
    intro hostId total htotal e he
    obtain ⟨hne, rfl, hconsistent⟩ := hhost hostId total htotal
    exact completionStats_raises hV hconsistent hne he
  refine ⟨?_, ?_, ?_⟩
  · intro hostId total htotal
    obtain ⟨hne, hlength, hconsistent⟩ := hhost hostId total htotal
    have hpos := List.length_pos_iff.mpr hne
    refine ⟨by omega, hlength, hconsistent, fun e he => ?_⟩
    rw [hraises hostId total htotal e he]
    decide
  · intro hostId hnone
    by_contra hne
    rw [(consistent_of_tallied h hne).completionsTotal] at hnone
    cases hnone
  · intro e he
    have hall := hostCompletionStats_raises (fun kv hkv =>
      hraises kv.1 kv.2 ((Dict.get?_eq_some _).mpr hkv)) he
    rw [hall]
    decide

end MetricsRegistry

theorem onlyOverflows_quotient : PyFloat.OnlyOverflows Quotient where
  intDiv m n e hn he := by
    simp only [PyFloat.intDiv, if_neg hn] at he
    split at he
    · cases he
    · cases he
      rfl
  divInt x n e hn he := by
    simp only [PyFloat.divInt, if_neg hn] at he
    split at he
    · cases he
    · cases he
      rfl

namespace MetricsRegistry

/-- Three completions of two hosts, with a read in between. -/
theorem host_statistics_consistent_three :
    (recorded 300000000 [(.hostCompletion "gpu-1" ⟨120⟩ 5 7, 0),
      (.hostCompletion "gpu-2" ⟨80⟩ 1 2, 1), (.read, 2),
      (.hostCompletion "gpu-1" ⟨60⟩ 9 (-3), 3)] : MetricsRegistry Quotient).Consistent
      "gpu-1" [⟨⟨120⟩, 5, 7⟩, ⟨⟨60⟩, 9, -3⟩] :=
  ((host_statistics_consistent onlyOverflows_quotient 300000000
    [(.hostCompletion "gpu-1" ⟨120⟩ 5 7, 0), (.hostCompletion "gpu-2" ⟨80⟩ 1 2, 1), (.read, 2),
      (.hostCompletion "gpu-1" ⟨60⟩ 9 (-3), 3)]).1 "gpu-1" 2 (by decide)).2.2.1

end MetricsRegistry

end LlmHomeLab
