import LlmHomeLab.Observability.Current

/-! # Independence of the alert rules

The events of one rule in a run of an evaluator that has others too, against the run of an
evaluator that has only this rule. The rules share one table of flags, and its keys are texts
that two rules can both make.
-/

namespace LlmHomeLab

variable {V : Type} [IntCast V]

/-- The values of one rule have different state keys. -/
theorem AlertRule.keyed_nodup (rule : AlertRule V) {snapshot : SliSnapshot V} {metric : String}
    {metricValue : MetricValue V} (h : snapshot.getattr metric = .ok metricValue) :
    ((rule.keyed metricValue).map Prod.fst).Nodup := by
  have hhosts : ∀ {W : Type} (hosts : Dict String W) (values : List (String × Option V)),
      values.map Prod.fst = hosts.keys → ((rule.keyed (.perHost values)).map Prod.fst).Nodup := by
    intro W hosts values hkeys
    have hkeyed : (rule.keyed (.perHost values)).map Prod.fst =
        hosts.keys.map fun host => rule.name ++ ":" ++ host := by
      rw [← hkeys]
      simp [AlertRule.keyed, Function.comp_def]
    rw [hkeyed]
    refine hosts.nodup.map ?_
    intro a b heq
    exact (String.append_right_inj _).mp heq
  unfold SliSnapshot.getattr at h
  split at h <;> cases h
  all_goals
    first
    | exact List.nodup_singleton _
    | exact hhosts _ _ (List.map_map ..)

namespace Evaluation

variable {past : List (Evaluation V)} {i : ℕ}

/-- The evaluation as an evaluator of only its rule makes it. -/
def alone (e : Evaluation V) : Evaluation V := { e with index := 0 }

/-- The evaluations of the rule at a position. -/
def ofRule (i : ℕ) (evals : List (Evaluation V)) : List (Evaluation V) :=
  evals.filter (·.index = i)

section

omit [IntCast V]

theorem ofRule_append (i : ℕ) (evals more : List (Evaluation V)) :
    ofRule i (evals ++ more) = ofRule i evals ++ ofRule i more :=
  List.filter_append ..

theorem ofRule_other {evals : List (Evaluation V)} (h : ∀ e ∈ evals, e.index ≠ i) :
    ofRule i evals = [] := by
  refine List.filter_eq_nil_iff.mpr fun e he => ?_
  simpa using h e he

theorem ofRule_own {evals : List (Evaluation V)} (h : ∀ e ∈ evals, e.index = i) :
    ofRule i evals = evals := by
  refine List.filter_eq_self.mpr fun e he => ?_
  simpa using h e he

end

omit [IntCast V] in
theorem readings_alone {i : ℕ} {rule : AlertRule V} {now : Int} {items : List (String × Option V)}
    {evals : List (Evaluation V)} (h : readings i rule now items = .ok evals) :
    readings 0 rule now items = .ok (evals.map alone) := by
  induction items generalizing evals with
  | nil =>
    cases h
    rfl
  | cons item rest ih =>
    rcases item with ⟨stateKey, value⟩
    cases value with
    | none => cases h
    | some value =>
      rcases Json.except_bind_ok h with ⟨more, hmore, h⟩
      cases h
      simp [readings, ih hmore, alone, Except.bind, bind, pure, Except.pure]

theorem blocks_index [LT V] [DecidableLT V] {snapshot : SliSnapshot V} {now : Int} {k : ℕ}
    {rules : List (AlertRule V)} {bs : List (List (Evaluation V))}
    (h : blocks snapshot now k rules = .ok bs) : ∀ e ∈ bs.flatten, k ≤ e.index := by
  induction rules generalizing k bs with
  | nil =>
    cases h
    simp
  | cons rule rest ih =>
    rcases Json.except_bind_ok h with ⟨metricValue, hmetric, h⟩
    rcases Json.except_bind_ok h with ⟨evals, hevals, h⟩
    rcases Json.except_bind_ok h with ⟨more, hmore, h⟩
    cases h
    intro e he
    rw [List.flatten_cons, List.mem_append] at he
    rcases he with he | he
    · rw [((readings_ok hevals).2 e he).1]
    · have hlate := ih hmore e he
      omega

/-- The evaluations of a call, around those of one rule. -/
theorem blocks_split [LT V] [DecidableLT V] {snapshot : SliSnapshot V} {now : Int} {k : ℕ}
    {front back : List (AlertRule V)} {rule : AlertRule V} {bs : List (List (Evaluation V))}
    (h : blocks snapshot now k (front ++ rule :: back) = .ok bs) :
    ∃ before own after, bs = before ++ own :: after ∧ before.length = front.length ∧
      (∀ e ∈ before.flatten, e.index ≠ k + front.length) ∧
      (∀ e ∈ own, e.index = k + front.length) ∧
      (∀ e ∈ after.flatten, e.index ≠ k + front.length) ∧
      (own.map (·.stateKey)).Nodup ∧
      blocks snapshot now 0 [rule] = .ok [own.map alone] := by
  induction front generalizing k bs with
  | nil =>
    rcases Json.except_bind_ok h with ⟨metricValue, hmetric, h⟩
    rcases Json.except_bind_ok h with ⟨own, hown, h⟩
    rcases Json.except_bind_ok h with ⟨after, hafter, h⟩
    cases h
    refine ⟨[], own, after, rfl, rfl, by simp, fun e he => ((readings_ok hown).2 e he).1, ?_, ?_, ?_⟩
    · intro e he
      have hlate := blocks_index hafter e he
      rw [List.length_nil]
      omega
    · have hkeys := AlertRule.keyed_nodup rule hmetric
      rwa [(readings_ok hown).1, List.map_map] at hkeys
    · simp [blocks, hmetric, readings_alone hown, Except.bind, bind, pure, Except.pure]
  | cons first rest ih =>
    rcases Json.except_bind_ok h with ⟨metricValue, hmetric, h⟩
    rcases Json.except_bind_ok h with ⟨evals, hevals, h⟩
    rcases Json.except_bind_ok h with ⟨more, hmore, h⟩
    cases h
    rcases ih hmore with ⟨before, own, after, rfl, hlen, hbefore, hown, hafter, hnodup, halone⟩
    have hshift : k + 1 + rest.length = k + (first :: rest).length := by
      rw [List.length_cons]
      omega
    rw [hshift] at hbefore hown hafter
    refine ⟨evals :: before, own, after, rfl, by rw [List.length_cons, hlen, List.length_cons], ?_,
      hown, hafter, hnodup, halone⟩
    intro e he
    rw [List.flatten_cons, List.mem_append] at he
    rcases he with he | he
    · rw [((readings_ok hevals).2 e he).1, List.length_cons]
      omega
    · exact hbefore e he

/-! ## Verdicts -/

section

omit [IntCast V]

variable [LT V] [DecidableLT V]

theorem lastBreached_append_other {key : String} {evals : List (Evaluation V)}
    (hother : ∀ e ∈ evals, e.stateKey ≠ key) :
    lastBreached key (past ++ evals) = lastBreached key past := by
  induction evals using List.reverseRecOn with
  | nil => rw [List.append_nil]
  | append_singleton evals e ih =>
    rw [← List.append_assoc, lastBreached_snoc, if_neg (hother e (by simp)).symm]
    exact ih fun x hx => hother x (by simp [hx])

theorem lastBreached_alone (key : String) (past : List (Evaluation V)) :
    lastBreached key (past.map alone) = lastBreached key past := by
  induction past using List.reverseRecOn with
  | nil => rfl
  | append_singleton past e ih =>
    rw [List.map_append, List.map_singleton, lastBreached_snoc, lastBreached_snoc, ih]
    rfl

theorem result_alone (past : List (Evaluation V)) (e : Evaluation V) :
    result (past.map alone) e.alone = result past e := by
  have hlast : lastBreached e.alone.stateKey (past.map alone) = lastBreached e.stateKey past :=
    lastBreached_alone e.stateKey past
  unfold result
  rw [hlast]
  rfl

/-- Where the keys differ, each verdict is compared with the one from before. -/
theorem results_nodup {evals : List (Evaluation V)} (h : (evals.map (·.stateKey)).Nodup) :
    results past evals = evals.map (result past) := by
  induction evals using List.reverseRecOn with
  | nil => rfl
  | append_singleton evals e ih =>
    rw [List.map_append, List.nodup_append] at h
    have hother : ∀ x ∈ evals, x.stateKey ≠ e.stateKey := by
      intro x hx
      exact h.2.2 _ (List.mem_map_of_mem hx) _ (List.mem_singleton_self _)
    rw [results_append, ih h.1, List.map_append, List.map_singleton, results, results, result,
      lastBreached_append_other hother, result]

theorem resultsByRule_split (past : List (Evaluation V)) (before after : List (List (Evaluation V)))
    (own : List (Evaluation V)) :
    (resultsByRule past (before ++ own :: after)).getD before.length [] =
      results (past ++ before.flatten) own := by
  induction before generalizing past with
  | nil => simp [resultsByRule]
  | cons evals rest ih =>
    rw [List.cons_append, resultsByRule, List.length_cons, List.getD_cons_succ, ih,
      List.flatten_cons, List.append_assoc]

/-- Two pasts give the same events for values of different keys where they have the same
verdicts. -/
theorem events_eq_iff {past past' own : List (Evaluation V)} (h : (own.map (·.stateKey)).Nodup) :
    (own.map (result past)).reduceOption = (own.map (result past')).reduceOption ↔
      ∀ e ∈ own, lastBreached e.stateKey past = lastBreached e.stateKey past' := by
  constructor
  · intro heq e he
    -- the events carry the keys, so each belongs to one value
    have hemits : ∀ past : List (Evaluation V), e.event ∈ (own.map (result past)).reduceOption ↔
        e.breached ≠ lastBreached e.stateKey past := by
      intro past
      rw [List.reduceOption_mem_iff, List.mem_map]
      constructor
      · rintro ⟨x, hx, hresult⟩ hsame
        unfold result at hresult
        split at hresult
        · cases hresult
        · next hchange =>
          have hkey : x.stateKey = e.stateKey :=
            congrArg AlertEvent.ruleName (Option.some.inj hresult)
          rw [List.inj_on_of_nodup_map h hx he hkey] at hchange
          exact hchange hsame
      · intro hchange
        exact ⟨e, he, if_neg hchange⟩
    have hboth := (hemits past).symm.trans (heq ▸ hemits past')
    cases e.breached <;> cases hl : lastBreached e.stateKey past <;>
      cases hl' : lastBreached e.stateKey past' <;> simp_all
  · intro hlast
    congr 1
    refine List.map_congr_left fun e he => ?_
    rw [result, result, hlast e he]

/-- Whenever a value of the rule is evaluated, the last verdict under its key is the last one of
the rule itself. -/
def OwnVerdicts (i : ℕ) (past evals : List (Evaluation V)) : Prop :=
  ∀ pre e post, evals = pre ++ e :: post → e.index = i →
    lastBreached e.stateKey (past ++ pre) = lastBreached e.stateKey (ofRule i (past ++ pre))

theorem ownVerdicts_append (past evals more : List (Evaluation V)) :
    OwnVerdicts i past (evals ++ more) ↔
      OwnVerdicts i past evals ∧ OwnVerdicts i (past ++ evals) more := by
  constructor
  · intro h
    constructor
    · rintro pre e post rfl hindex
      exact h pre e (post ++ more) (by simp) hindex
    · rintro pre e post rfl hindex
      rw [List.append_assoc]
      exact h (evals ++ pre) e post (by simp) hindex
  · rintro ⟨hfirst, hmore⟩ pre e post heq hindex
    rcases List.append_eq_append_iff.mp heq with ⟨mid, rfl, hrest⟩ | ⟨mid, rfl, hrest⟩
    · have hlate := hmore mid e post hrest hindex
      rwa [List.append_assoc] at hlate
    · cases mid with
      | nil =>
        rw [List.nil_append] at hrest
        have hlate := hmore [] e post hrest.symm hindex
        rwa [List.append_nil, List.append_nil] at hlate
      | cons x mid =>
        rw [List.cons_append, List.cons.injEq] at hrest
        rcases hrest with ⟨rfl, _⟩
        exact hfirst pre e mid rfl hindex

theorem ownVerdicts_other {evals : List (Evaluation V)} (h : ∀ e ∈ evals, e.index ≠ i) :
    OwnVerdicts i past evals := by
  rintro pre e post rfl hindex
  exact absurd hindex (h e (by simp))

/-- No other rule makes a key of the rule. -/
theorem ownVerdicts_of_keys {evals : List (Evaluation V)}
    (h : ∀ e ∈ evals, e.index = i → ∀ x ∈ evals, x.stateKey = e.stateKey → x.index = i) :
    OwnVerdicts i [] evals := by
  rintro pre e post rfl hindex
  have hkeys : ∀ x ∈ pre, x.stateKey = e.stateKey → x.index = i := by
    intro x hx
    exact h e (by simp) hindex x (by simp [hx])
  rw [List.nil_append]
  clear h
  induction pre using List.reverseRecOn with
  | nil => rfl
  | append_singleton pre x ih =>
    have hpre := ih fun y hy => hkeys y (by simp [hy])
    rw [ofRule_append, lastBreached_snoc, hpre]
    by_cases hkey : e.stateKey = x.stateKey
    · have hown : ofRule i [x] = [x] :=
        ofRule_own fun y hy => List.mem_singleton.mp hy ▸ hkeys x (by simp) hkey.symm
      rw [if_pos hkey, hown, lastBreached_snoc, if_pos hkey]
    · rw [if_neg hkey]
      refine (lastBreached_append_other fun y hy => ?_).symm
      rw [List.mem_singleton.mp (List.mem_of_mem_filter hy)]
      exact Ne.symm hkey

/-- For the values of the rule itself, in one call. -/
theorem ownVerdicts_own {own : List (Evaluation V)} (hindex : ∀ e ∈ own, e.index = i)
    (hnodup : (own.map (·.stateKey)).Nodup) :
    OwnVerdicts i past own ↔
      ∀ e ∈ own, lastBreached e.stateKey past = lastBreached e.stateKey (ofRule i past) := by
  have hbefore : ∀ (pre : List (Evaluation V)) (e : Evaluation V) (post : List (Evaluation V)),
      own = pre ++ e :: post →
      lastBreached e.stateKey (past ++ pre) = lastBreached e.stateKey past ∧
        lastBreached e.stateKey (ofRule i (past ++ pre)) =
          lastBreached e.stateKey (ofRule i past) := by
    rintro pre e post rfl
    have hother : ∀ x ∈ pre, x.stateKey ≠ e.stateKey := by
      intro x hx
      rw [List.map_append, List.nodup_append] at hnodup
      exact hnodup.2.2 _ (List.mem_map_of_mem hx) _ (by simp)
    refine ⟨lastBreached_append_other hother, ?_⟩
    rw [ofRule_append]
    exact lastBreached_append_other fun x hx => hother x (List.mem_of_mem_filter hx)
  constructor
  · intro h e he
    rcases List.append_of_mem he with ⟨pre, post, heq⟩
    rw [← (hbefore pre e post heq).1, ← (hbefore pre e post heq).2]
    exact h pre e post heq (hindex e he)
  · intro h pre e post heq _
    rw [(hbefore pre e post heq).1, (hbefore pre e post heq).2]
    exact h e (by rw [heq]; simp)

end

end Evaluation

namespace AlertEvaluator

open Evaluation

variable [LT V] [DecidableLT V] {past : List (Evaluation V)}

/-- What each call returns of the events of the rule at a position. -/
def eventsOf (i : ℕ) (results : List (List (List (Option (AlertEvent V))))) :
    List (List (AlertEvent V)) :=
  results.map fun byRule => (byRule.getD i []).reduceOption

/-- A run that has evaluations for all its calls does not raise. -/
theorem Tracks.evaluateAll_ok {evaluator : AlertEvaluator V} {calls : List (SliSnapshot V × Int)}
    {evals : List (List (List (Evaluation V)))} (h : Tracks past evaluator)
    (hcalls : ofCalls evaluator.rules calls = .ok evals) :
    ∃ evaluator', evaluator.evaluateAll calls = .ok (evaluator', resultsByCall past evals) := by
  induction calls generalizing evaluator past evals with
  | nil =>
    cases hcalls
    exact ⟨evaluator, rfl⟩
  | cons call rest ih =>
    rcases call with ⟨snapshot, now⟩
    rcases Json.except_bind_ok hcalls with ⟨bs, hblocks, hcalls⟩
    rcases Json.except_bind_ok hcalls with ⟨more, hmore, hcalls⟩
    cases hcalls
    have hrules := h.evaluateRules snapshot now 0 evaluator.rules
    rw [hblocks] at hrules
    rcases hrules with ⟨next, hone, hkept, htracks⟩
    rcases ih htracks (hkept ▸ hmore) with ⟨last, hlast⟩
    refine ⟨last, ?_⟩
    simp [AlertEvaluator.evaluateAll, AlertEvaluator.evaluateByRule, hone, hlast, Except.bind, bind,
      pure, Except.pure, resultsByCall]

/-- One call of the rule alone, and when it has the same events. -/
theorem call_iff (past : List (Evaluation V)) {rules : List (AlertRule V)} {i : ℕ}
    {rule : AlertRule V} {snapshot : SliSnapshot V} {now : Int} {bs : List (List (Evaluation V))}
    (hrule : rules[i]? = some rule) (hblocks : blocks snapshot now 0 rules = .ok bs) :
    ∃ own, blocks snapshot now 0 [rule] = .ok [own.map alone] ∧ ofRule i bs.flatten = own ∧
      (((resultsByRule past bs).getD i []).reduceOption =
          ((resultsByRule ((ofRule i past).map alone) [own.map alone]).getD 0 []).reduceOption ↔
        OwnVerdicts i past bs.flatten) := by
  rcases List.getElem?_eq_some_iff.mp hrule with ⟨hlt, hget⟩
  have hsplit : rules = rules.take i ++ rule :: rules.drop (i + 1) := by
    rw [← hget, List.getElem_cons_drop, List.take_append_drop]
  have hfront : (rules.take i).length = i := by
    rw [List.length_take]
    omega
  rw [hsplit] at hblocks
  rcases blocks_split hblocks with
    ⟨before, own, after, rfl, hlen, hbefore, hown, hafter, hnodup, halone⟩
  rw [hfront] at hlen
  rw [hfront, Nat.zero_add] at hbefore hown hafter
  refine ⟨own, halone, ?_, ?_⟩
  · rw [List.flatten_append, List.flatten_cons, ofRule_append, ofRule_append, ofRule_other hbefore,
      ofRule_other hafter, ofRule_own hown, List.nil_append, List.append_nil]
  · have hshared := resultsByRule_split past before after own
    rw [hlen] at hshared
    have hsolo : (resultsByRule ((ofRule i past).map alone) [own.map alone]).getD 0 [] =
        results ((ofRule i past).map alone) (own.map alone) := rfl
    have hnodup' : ((own.map alone).map (·.stateKey)).Nodup := by
      rwa [List.map_map]
    have hmap : result ((ofRule i past).map alone) ∘ alone = result (ofRule i past) :=
      funext fun e => result_alone (ofRule i past) e
    have hpast : ofRule i (past ++ before.flatten) = ofRule i past := by
      rw [ofRule_append, ofRule_other hbefore, List.append_nil]
    rw [hshared, hsolo, results_nodup hnodup, results_nodup hnodup', List.map_map, hmap, ← hpast,
      events_eq_iff hnodup, ← ownVerdicts_own hown hnodup, List.flatten_append, List.flatten_cons,
      ownVerdicts_append, ownVerdicts_append]
    constructor
    · intro h
      exact ⟨ownVerdicts_other hbefore, h, ownVerdicts_other hafter⟩
    · rintro ⟨_, h, _⟩
      exact h

/-- The run of one rule alone, and when it has the same events. -/
theorem eventsOf_iff (past : List (Evaluation V)) {rules : List (AlertRule V)} {i : ℕ}
    {rule : AlertRule V} {calls : List (SliSnapshot V × Int)}
    {evals : List (List (List (Evaluation V)))}
    (hrule : rules[i]? = some rule) (hcalls : ofCalls rules calls = .ok evals) :
    ∃ own, ofCalls [rule] calls = .ok own ∧
      (eventsOf i (resultsByCall past evals) =
          eventsOf 0 (resultsByCall ((ofRule i past).map alone) own) ↔
        OwnVerdicts i past evals.flatten.flatten) := by
  induction calls generalizing past evals with
  | nil =>
    cases hcalls
    refine ⟨[], rfl, ?_⟩
    constructor
    · intro _ pre e post heq
      simp at heq
    · intro _
      rfl
  | cons call rest ih =>
    rcases call with ⟨snapshot, now⟩
    rcases Json.except_bind_ok hcalls with ⟨bs, hblocks, hcalls⟩
    rcases Json.except_bind_ok hcalls with ⟨more, hmore, hcalls⟩
    cases hcalls
    rcases call_iff past hrule hblocks with ⟨own, halone, hofRule, hfirst⟩
    rcases ih (past ++ bs.flatten) hmore with ⟨ownMore, hownMore, hiff⟩
    refine ⟨[own.map alone] :: ownMore, ?_, ?_⟩
    · simp [ofCalls, halone, hownMore, Except.bind, bind, pure, Except.pure]
    -- the past of the rule alone after this call
    have hpast : (ofRule i past).map alone ++ [own.map alone].flatten =
        (ofRule i (past ++ bs.flatten)).map alone := by
      rw [ofRule_append, hofRule]
      simp
    rw [eventsOf, eventsOf] at hiff
    rw [resultsByCall, resultsByCall, eventsOf, eventsOf, List.map_cons, List.map_cons,
      List.cons.injEq, hfirst, hpast, hiff, List.flatten_cons, List.flatten_append,
      ownVerdicts_append]

/-- A rule has the events it has in an evaluator of its own, if and only if, whenever one of its
values is evaluated, the last verdict under the state key, by whichever rule, is the last one of
the rule itself. -/
theorem independent_iff {rules : List (AlertRule V)} {i : ℕ} {rule : AlertRule V}
    {calls : List (SliSnapshot V × Int)} {evaluator : AlertEvaluator V}
    {results : List (List (List (Option (AlertEvent V))))} (hrule : rules[i]? = some rule)
    (hrun : ({ rules } : AlertEvaluator V).evaluateAll calls = .ok (evaluator, results)) :
    ∃ evals evaluator' own, ofCalls rules calls = .ok evals ∧
      ({ rules := [rule] } : AlertEvaluator V).evaluateAll calls = .ok (evaluator', own) ∧
      (eventsOf i results = eventsOf 0 own ↔
        ∀ pre e post, evals.flatten.flatten = pre ++ e :: post → e.index = i →
          lastBreached e.stateKey pre = lastBreached e.stateKey (ofRule i pre)) := by
  rcases (Tracks.new rules).evaluateAll hrun with ⟨evals, hcalls, rfl, _, _⟩
  rcases eventsOf_iff [] hrule hcalls with ⟨own, hown, hiff⟩
  rcases (Tracks.new [rule]).evaluateAll_ok hown with ⟨evaluator', hrun'⟩
  exact ⟨evals, evaluator', _, hcalls, hrun', hiff⟩

/-- Two rules of different names, in a call in which both alerts fire. -/
theorem independent_iff_named : ∃ evaluator results evaluator' own,
    ({ rules := [saturationRule, latencyRule] } : AlertEvaluator ℚ).evaluateAll
        [({ withSaturation (Dict.empty.set "gpu-1" 1) with p95LatencyMs := 6000 }, 0)] =
      .ok (evaluator, results) ∧
    ({ rules := [latencyRule] } : AlertEvaluator ℚ).evaluateAll
        [({ withSaturation (Dict.empty.set "gpu-1" 1) with p95LatencyMs := 6000 }, 0)] =
      .ok (evaluator', own) ∧
    eventsOf 1 results = eventsOf 0 own := by
  have hrun : ∃ evaluator results,
      ({ rules := [saturationRule, latencyRule] } : AlertEvaluator ℚ).evaluateAll
        [({ withSaturation (Dict.empty.set "gpu-1" 1) with p95LatencyMs := 6000 }, 0)] =
      .ok (evaluator, results) := ⟨_, _, rfl⟩
  rcases hrun with ⟨evaluator, results, hrun⟩
  have hrule : [saturationRule, latencyRule][1]? = some latencyRule := rfl
  rcases independent_iff hrule hrun with ⟨evals, evaluator', own, hcalls, hown, hiff⟩
  refine ⟨evaluator, results, evaluator', own, hrun, hown, hiff.mpr (ownVerdicts_of_keys ?_)⟩
  cases hcalls
  decide

/-- A `slo_burn` rule on the p95 latency and a `threshold` rule on it, of one name. -/
def latencyRules : List (RuleData ℚ) :=
  [⟨some "p95-latency", some "slo_burn", some "p95_latency_ms", some "gt", some 1000, some 3600,
      some "warning", some "docs/runbooks/p95-latency.md"⟩,
    ⟨some "p95-latency", some "threshold", some "p95_latency_ms", some "gt", some 5000, some 300,
      some "critical", some "docs/runbooks/p95-latency.md"⟩]

/-- The file is accepted. The latency breaches the first rule and not the second, which then
returns that the alert of the first is over. -/
theorem dependent_names : ∃ rules rule evaluator results evaluator' own,
    rulesFromFile latencyRules = .ok rules ∧ rules[1]? = some rule ∧
    ({ rules } : AlertEvaluator ℚ).evaluateAll [(withLatency 2000, 0)] = .ok (evaluator, results) ∧
    ({ rules := [rule] } : AlertEvaluator ℚ).evaluateAll [(withLatency 2000, 0)] =
      .ok (evaluator', own) ∧
    eventsOf 1 results ≠ eventsOf 0 own := by
  refine ⟨_, _, _, _, _, _, rfl, rfl, rfl, rfl, ?_⟩
  intro heq
  cases heq

end AlertEvaluator

end LlmHomeLab
