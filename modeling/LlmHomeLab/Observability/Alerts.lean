import LlmHomeLab.Lib.Alternation
import LlmHomeLab.Observability.Models

/-! # Alert evaluation

`observability/alerts.py`. An evaluator goes through its rules, and for a per-host metric
through the hosts of the snapshot, and keeps a flag under a state key for each. What it reports
and what it keeps is read off the sequence of these single evaluations.
-/

namespace LlmHomeLab

variable {V : Type}

/-! ## Model -/

/-- A rule of the parsed rules file, with the texts of its kind and its severity; a missing key
is a `KeyError`. -/
structure RuleData (V : Type) where
  name : Option String
  kind : Option String
  metric : Option String
  comparison : Option String
  thresholdValue : Option V
  windowSeconds : Option Int
  severity : Option String
  runbookUrl : Option String

inductive RuleFileError where
  | keyError
  | unknownKind (kind : String)
  | valueError
deriving DecidableEq, Repr

namespace RuleData

def key {α : Type} (field : Option α) : Except RuleFileError α := field.elim (.error .keyError) .ok

/-- `_VALID_KINDS`. -/
def validKind : String → Option AlertKind
  | "threshold" => some .threshold
  | "slo_burn" => some .sloBurn
  | _ => none

/-- `AlertSeverity(value)`. -/
def validSeverity : String → Option AlertSeverity
  | "critical" => some .critical
  | "warning" => some .warning
  | _ => none

/-- `_rule_from_dict`. -/
def toRule (data : RuleData V) : Except RuleFileError (AlertRule V) := do
  let kindText ← key data.kind
  let kind ← (validKind kindText).elim (.error (.unknownKind kindText)) .ok
  let name ← key data.name
  let metric ← key data.metric
  let comparison ← key data.comparison
  let thresholdValue ← key data.thresholdValue
  let windowSeconds ← key data.windowSeconds
  let severityText ← key data.severity
  let severity ← (validSeverity severityText).elim (.error .valueError) .ok
  let runbookUrl ← key data.runbookUrl
  return ⟨name, kind, metric, comparison, thresholdValue, windowSeconds * 1000000, severity,
    runbookUrl⟩

end RuleData

/-- The rules that `from_file` makes of a parsed file. -/
def rulesFromFile (data : List (RuleData V)) : Except RuleFileError (List (AlertRule V)) :=
  data.mapM RuleData.toRule

/-- A metric is one value or one for each host; a value that is no number has none. -/
inductive MetricValue (V : Type) where
  | scalar (value : Option V)
  | perHost (values : List (String × Option V))

/-- `getattr(snapshot, metric)`. -/
def SliSnapshot.getattr [IntCast V] (snapshot : SliSnapshot V) :
    String → Except PyError (MetricValue V)
  | "availability" => .ok (.scalar (some snapshot.availability))
  | "p95_latency_ms" => .ok (.scalar (some snapshot.p95LatencyMs))
  | "failover_success_rate" => .ok (.scalar snapshot.failoverSuccessRate)
  | "host_saturation" =>
    .ok (.perHost (snapshot.hostSaturation.entries.map fun kv => (kv.1, some kv.2)))
  | "queue_depth" => .ok (.scalar (some (snapshot.queueDepth : V)))
  | "token_usage_total" =>
    .ok (.perHost (snapshot.tokenUsageTotal.entries.map fun kv => (kv.1, some (kv.2 : V))))
  | "host_completion_stats" =>
    .ok (.perHost (snapshot.hostCompletionStats.entries.map fun kv => (kv.1, none)))
  | _ => .error .attributeError

/-- `_breaches`. -/
def breaches [LT V] [DecidableLT V] (rule : AlertRule V) (value : V) : Bool :=
  if rule.comparison = "gt" then rule.thresholdValue < value else value < rule.thresholdValue

structure AlertEvaluator (V : Type) where
  rules : List (AlertRule V)
  firing : Dict String Bool := .empty
  activeEvents : Dict String (AlertEvent V) := .empty

def AlertRule.event (rule : AlertRule V) (stateKey : String) (state : AlertState) (value : V)
    (now : Int) : AlertEvent V :=
  ⟨stateKey, rule.severity, state, value, rule.thresholdValue, rule.runbookUrl, now⟩

/-- The values of a rule's metric, each with its state key. -/
def AlertRule.keyed (rule : AlertRule V) : MetricValue V → List (String × Option V)
  | .scalar value => [(rule.name, value)]
  | .perHost values => values.map fun kv => (rule.name ++ ":" ++ kv.1, kv.2)

namespace AlertEvaluator

section

variable [LT V] [DecidableLT V]

/-- `_evaluate_one`. Comparing with a value that is no number raises, and so does deleting an
active event that is not there. -/
def evaluateOne (evaluator : AlertEvaluator V) (rule : AlertRule V) (stateKey : String)
    (value : Option V) (now : Int) : Except PyError (AlertEvaluator V × Option (AlertEvent V)) :=
  match value with
  | none => .error .typeError
  | some value =>
    let breached := breaches rule value
    let wasFiring := (evaluator.firing.get? stateKey).getD false
    let firing :=
      if evaluator.firing.contains stateKey then evaluator.firing
      else evaluator.firing.set stateKey false
    if breached && !wasFiring then
      let event := rule.event stateKey .firing value now
      .ok ({ evaluator with
        firing := firing.set stateKey true
        activeEvents := evaluator.activeEvents.set stateKey event }, some event)
    else if !breached && wasFiring then
      let event := rule.event stateKey .resolved value now
      if evaluator.activeEvents.contains stateKey then
        .ok ({ evaluator with
          firing := firing.set stateKey false
          activeEvents := evaluator.activeEvents.pop stateKey }, some event)
      else .error .keyError
    else .ok ({ evaluator with firing }, none)

/-- The values of one rule, one after the other, with what each evaluation returns. -/
def evaluateKeys (rule : AlertRule V) (now : Int) (evaluator : AlertEvaluator V) :
    List (String × Option V) → Except PyError (AlertEvaluator V × List (Option (AlertEvent V)))
  | [] => .ok (evaluator, [])
  | (stateKey, value) :: rest => do
    let (evaluator, event) ← evaluator.evaluateOne rule stateKey value now
    let (evaluator, more) ← evaluateKeys rule now evaluator rest
    return (evaluator, event :: more)

variable [IntCast V]

/-- The loop over the rules. -/
def evaluateRules (snapshot : SliSnapshot V) (now : Int) (evaluator : AlertEvaluator V) :
    List (AlertRule V) →
      Except PyError (AlertEvaluator V × List (List (Option (AlertEvent V))))
  | [] => .ok (evaluator, [])
  | rule :: rest => do
    let metricValue ← snapshot.getattr rule.metric
    let (evaluator, results) ← evaluateKeys rule now evaluator (rule.keyed metricValue)
    let (evaluator, more) ← evaluateRules snapshot now evaluator rest
    return (evaluator, results :: more)

/-- `evaluate`, rule by rule. -/
def evaluateByRule (evaluator : AlertEvaluator V) (snapshot : SliSnapshot V) (now : Int) :
    Except PyError (AlertEvaluator V × List (List (Option (AlertEvent V)))) :=
  evaluateRules snapshot now evaluator evaluator.rules

/-- The events are what the single evaluations returned that is not `None`. -/
def evaluate (evaluator : AlertEvaluator V) (snapshot : SliSnapshot V) (now : Int) :
    Except PyError (AlertEvaluator V × List (AlertEvent V)) := do
  let (evaluator, results) ← evaluator.evaluateByRule snapshot now
  return (evaluator, results.flatten.reduceOption)

end

def currentState (evaluator : AlertEvaluator V) : List (AlertEvent V) :=
  evaluator.activeEvents.values

end AlertEvaluator

/-! ## Single evaluations -/

/-- A value of a rule, with the position of the rule and the state key. -/
structure Evaluation (V : Type) where
  index : ℕ
  rule : AlertRule V
  stateKey : String
  value : V
  time : Int

namespace Evaluation

section

variable [LT V] [DecidableLT V] {key : String} {past : List (Evaluation V)} {e : Evaluation V}

def breached (e : Evaluation V) : Bool := breaches e.rule e.value

/-- The event that says what the verdict is. -/
def event (e : Evaluation V) : AlertEvent V :=
  e.rule.event e.stateKey (if e.breached then .firing else .resolved) e.value e.time

/-- The verdict of the last evaluation under a key; before the first one nothing is breached. -/
def lastBreached (key : String) (past : List (Evaluation V)) : Bool :=
  ((past.reverse.find? (·.stateKey = key)).map breached).getD false

@[simp] theorem lastBreached_nil : lastBreached key ([] : List (Evaluation V)) = false := rfl

theorem lastBreached_snoc : lastBreached key (past ++ [e]) =
    if key = e.stateKey then e.breached else lastBreached key past := by
  by_cases h : key = e.stateKey
  · simp [lastBreached, h]
  · simp [lastBreached, h, Ne.symm h]

/-- The last verdict under a key, where the key comes at most once at the end. -/
theorem lastBreached_append {key : String} {past evals : List (Evaluation V)}
    (hnodup : (evals.map (·.stateKey)).Nodup) :
    lastBreached key (past ++ evals) = true ↔
      (∃ e ∈ evals, e.stateKey = key ∧ e.breached = true) ∨
        ((∀ e ∈ evals, e.stateKey ≠ key) ∧ lastBreached key past = true) := by
  induction evals using List.reverseRecOn with
  | nil => simp
  | append_singleton evals e ih =>
    rw [List.map_append, List.nodup_append] at hnodup
    rw [← List.append_assoc, lastBreached_snoc]
    by_cases hkey : key = e.stateKey
    · -- no earlier one has the key
      have hnot : ∀ x ∈ evals, x.stateKey ≠ key := by
        intro x hx heq
        exact hnodup.2.2 _ (List.mem_map_of_mem hx) _ (List.mem_singleton_self _)
          (heq.trans hkey)
      rw [if_pos hkey]
      constructor
      · intro hb
        exact Or.inl ⟨e, by simp, hkey.symm, hb⟩
      · rintro (⟨x, hx, hxkey, hb⟩ | ⟨hnone, _⟩)
        · rcases List.mem_append.mp hx with hx | hx
          · exact absurd hxkey (hnot x hx)
          · rw [List.mem_singleton] at hx
            rwa [hx] at hb
        · exact absurd hkey.symm (hnone e (by simp))
    · rw [if_neg hkey, ih hnodup.1]
      simp only [List.mem_append, List.mem_singleton, or_imp, forall_and, forall_eq,
        exists_eq_left, or_and_right, exists_or]
      have hne : e.stateKey ≠ key := Ne.symm hkey
      simp [hne]

/-- What an evaluation returns: an event where the verdict is not the last one under its key. -/
def result (past : List (Evaluation V)) (e : Evaluation V) : Option (AlertEvent V) :=
  if e.breached = lastBreached e.stateKey past then none else some e.event

/-- What a sequence of evaluations returns. -/
def results (past : List (Evaluation V)) : List (Evaluation V) → List (Option (AlertEvent V))
  | [] => []
  | e :: rest => result past e :: results (past ++ [e]) rest

theorem results_append (past evals more : List (Evaluation V)) :
    results past (evals ++ more) = results past evals ++ results (past ++ evals) more := by
  induction evals generalizing past with
  | nil => simp [results]
  | cons e rest ih => simp [results, ih]

end

end Evaluation

namespace AlertEvaluator

open Evaluation

section

variable [LT V] [DecidableLT V] {evaluator : AlertEvaluator V} {past : List (Evaluation V)}
  {rule : AlertRule V} {now : Int}

/-- Both dictionaries hold the last verdict under every key. -/
structure Tracks (past : List (Evaluation V)) (evaluator : AlertEvaluator V) : Prop where
  firing : ∀ key, (evaluator.firing.get? key).getD false = lastBreached key past
  active : ∀ key, evaluator.activeEvents.contains key = lastBreached key past
  named : ∀ key event, evaluator.activeEvents.get? key = some event → event.ruleName = key

/-- The keys of the alerts listed are those whose last verdict was a breach. -/
theorem Tracks.listed_iff (h : Tracks past evaluator) (key : String) :
    (∃ event ∈ evaluator.currentState, event.ruleName = key) ↔ lastBreached key past = true := by
  rw [← h.active key, Dict.contains_iff]
  constructor
  · rintro ⟨event, hevent, hname⟩
    rcases (Dict.mem_values _).mp hevent with ⟨key', hget⟩
    rw [← hname, h.named key' event hget]
    exact ⟨event, hget⟩
  · rintro ⟨event, hget⟩
    exact ⟨event, (Dict.mem_values _).mpr ⟨key, hget⟩, h.named key event hget⟩

theorem Tracks.new (rules : List (AlertRule V)) : Tracks [] ({ rules } : AlertEvaluator V) where
  firing _ := rfl
  active _ := rfl
  named _ _ h := by simp at h

theorem Tracks.snoc {evaluator' : AlertEvaluator V} {e : Evaluation V}
    (h : Tracks past evaluator)
    (hfiring : ∀ key, (evaluator'.firing.get? key).getD false =
      if key = e.stateKey then e.breached else (evaluator.firing.get? key).getD false)
    (hactive : ∀ key, evaluator'.activeEvents.contains key =
      if key = e.stateKey then e.breached else evaluator.activeEvents.contains key)
    (hnamed : ∀ key event, evaluator'.activeEvents.get? key = some event → event.ruleName = key) :
    Tracks (past ++ [e]) evaluator' where
  firing key := by rw [hfiring, lastBreached_snoc, h.firing]
  active key := by rw [hactive, lastBreached_snoc, h.active]
  named := hnamed

/-- `setdefault` does not change what is read. -/
theorem getD_setdefault (firing : Dict String Bool) (stateKey key : String) :
    ((if firing.contains stateKey then firing else firing.set stateKey false).get? key).getD
      false = (firing.get? key).getD false := by
  split
  · rfl
  · next hnew =>
    have hnone := (Dict.contains_eq_false _).mp (Bool.eq_false_of_not_eq_true hnew)
    rw [Dict.get?_set]
    split
    · next heq =>
      rw [heq, hnone]
      rfl
    · rfl

/-- One evaluation. -/
theorem Tracks.evaluateOne (h : Tracks past evaluator) (rule : AlertRule V) (now : Int) (i : ℕ)
    (stateKey : String) (value : V) :
    ∃ evaluator', evaluator.evaluateOne rule stateKey (some value) now =
        .ok (evaluator', result past ⟨i, rule, stateKey, value, now⟩) ∧
      evaluator'.rules = evaluator.rules ∧
      Tracks (past ++ [⟨i, rule, stateKey, value, now⟩]) evaluator' := by
  have hfiring := h.firing stateKey
  have hactive := h.active stateKey
  have hkept : ∀ {b : Bool}, breaches rule value = b → lastBreached stateKey past = b →
      ∀ key, lastBreached key past =
        if key = stateKey then breaches rule value else lastBreached key past := by
    intro b hb hwas key
    split
    · next heq => rw [heq, hwas, hb]
    · rfl
  have hgetD := getD_setdefault evaluator.firing stateKey
  simp only [AlertEvaluator.evaluateOne, result, Evaluation.breached, hfiring, hactive]
  generalize (if evaluator.firing.contains stateKey then evaluator.firing
    else evaluator.firing.set stateKey false) = firing at hgetD ⊢
  rcases Bool.eq_false_or_eq_true (breaches rule value) with hb | hb <;>
    rcases Bool.eq_false_or_eq_true (lastBreached stateKey past) with hwas | hwas
  · -- it stays breached
    have hsame := hkept hb hwas
    rw [hb] at hsame
    simp only [hb, hwas, Bool.not_true, Bool.and_false, Bool.false_and, Bool.false_eq_true,
      if_false, if_true]
    refine ⟨_, rfl, rfl, h.snoc ?_ ?_ h.named⟩
    · intro key
      rw [hgetD, h.firing, Evaluation.breached, hb]
      exact hsame key
    · intro key
      rw [h.active, Evaluation.breached, hb]
      exact hsame key
  · -- it is breached now
    have hevent : (⟨i, rule, stateKey, value, now⟩ : Evaluation V).event =
        rule.event stateKey .firing value now := by
      simp [Evaluation.event, Evaluation.breached, hb]
    simp only [hb, hwas, Bool.not_false, Bool.and_self, if_true, Bool.true_eq_false, if_false,
      hevent]
    refine ⟨_, rfl, rfl, h.snoc ?_ ?_ ?_⟩
    · intro key
      rw [Dict.get?_set, Evaluation.breached, hb]
      split
      · rfl
      · exact hgetD key
    · intro key
      rw [Bool.eq_iff_iff, Dict.contains_set_iff, Evaluation.breached, hb]
      split <;> simp [*]
    · intro key event hevent
      rw [Dict.get?_set] at hevent
      split at hevent
      · next heq =>
        cases hevent
        exact heq.symm
      · exact h.named key event hevent
  · -- it has recovered, and its event is there to be deleted
    have hevent : (⟨i, rule, stateKey, value, now⟩ : Evaluation V).event =
        rule.event stateKey .resolved value now := by
      simp [Evaluation.event, Evaluation.breached, hb]
    simp only [hb, hwas, Bool.not_true, Bool.not_false, Bool.and_self, if_true,
      Bool.false_eq_true, if_false, hevent]
    refine ⟨_, rfl, rfl, h.snoc ?_ ?_ ?_⟩
    · intro key
      rw [Dict.get?_set, Evaluation.breached, hb]
      split
      · rfl
      · exact hgetD key
    · intro key
      rw [Bool.eq_iff_iff, Dict.contains_pop_iff, Evaluation.breached, hb]
      split <;> simp [*]
    · intro key event hevent
      rw [Dict.get?_pop] at hevent
      split at hevent
      · cases hevent
      · exact h.named key event hevent
  · -- it stays healthy
    have hsame := hkept hb hwas
    rw [hb] at hsame
    simp only [hb, hwas, Bool.not_false, Bool.and_false, Bool.false_and, Bool.false_eq_true,
      if_false, if_true]
    refine ⟨_, rfl, rfl, h.snoc ?_ ?_ h.named⟩
    · intro key
      rw [hgetD, h.firing, Evaluation.breached, hb]
      exact hsame key
    · intro key
      rw [h.active, Evaluation.breached, hb]
      exact hsame key

end

end AlertEvaluator

/-! ## The evaluations of a run -/

namespace Evaluation

/-- The evaluations of one rule's values, unless one of them is no number. -/
def readings (i : ℕ) (rule : AlertRule V) (now : Int) :
    List (String × Option V) → Except PyError (List (Evaluation V))
  | [] => .ok []
  | (_, none) :: _ => .error .typeError
  | (stateKey, some value) :: rest => do
    let more ← readings i rule now rest
    return ⟨i, rule, stateKey, value, now⟩ :: more

theorem readings_error {i : ℕ} {now : Int} {rule : AlertRule V} {items : List (String × Option V)}
    {e : PyError} (h : readings i rule now items = .error e) : e = .typeError := by
  induction items with
  | nil => cases h
  | cons item rest ih =>
    rcases item with ⟨stateKey, value⟩
    cases value with
    | none =>
      cases h
      rfl
    | some value =>
      cases hread : readings i rule now rest with
      | error e' =>
        simp only [readings, hread, Except.bind, bind] at h
        cases h
        exact ih hread
      | ok evals => simp [readings, hread, Except.bind, bind, pure, Except.pure] at h

theorem readings_ok {i : ℕ} {rule : AlertRule V} {now : Int} {items : List (String × Option V)}
    {evals : List (Evaluation V)} (h : readings i rule now items = .ok evals) :
    items = evals.map (fun e => (e.stateKey, some e.value)) ∧
      ∀ e ∈ evals, e.index = i ∧ e.rule = rule ∧ e.time = now := by
  induction items generalizing evals with
  | nil =>
    cases h
    simp
  | cons item rest ih =>
    rcases item with ⟨stateKey, value⟩
    cases value with
    | none => cases h
    | some value =>
      rcases Json.except_bind_ok h with ⟨more, hmore, h⟩
      cases h
      have hrest := ih hmore
      refine ⟨by rw [List.map_cons, ← hrest.1], ?_⟩
      intro e he
      rcases List.mem_cons.mp he with rfl | he
      · exact ⟨rfl, rfl, rfl⟩
      · exact hrest.2 e he

variable [LT V] [DecidableLT V]

/-- What the evaluations return, rule by rule. -/
def resultsByRule (past : List (Evaluation V)) :
    List (List (Evaluation V)) → List (List (Option (AlertEvent V)))
  | [] => []
  | evals :: rest => results past evals :: resultsByRule (past ++ evals) rest

/-- The same for a sequence of calls. -/
def resultsByCall (past : List (Evaluation V)) :
    List (List (List (Evaluation V))) → List (List (List (Option (AlertEvent V))))
  | [] => []
  | blocks :: rest => resultsByRule past blocks :: resultsByCall (past ++ blocks.flatten) rest

theorem flatten_resultsByRule (past : List (Evaluation V)) (blocks : List (List (Evaluation V))) :
    (resultsByRule past blocks).flatten = results past blocks.flatten := by
  induction blocks generalizing past with
  | nil => rfl
  | cons evals rest ih => rw [resultsByRule, List.flatten_cons, ih, List.flatten_cons, results_append]

theorem flatten_resultsByCall (past : List (Evaluation V))
    (calls : List (List (List (Evaluation V)))) :
    (resultsByCall past calls).flatten.flatten = results past calls.flatten.flatten := by
  induction calls generalizing past with
  | nil => rfl
  | cons blocks rest ih =>
    rw [resultsByCall, List.flatten_cons, List.flatten_append, ih, flatten_resultsByRule,
      List.flatten_cons, List.flatten_append, results_append]

variable [IntCast V]

/-- The evaluations of one call, for the rules from position `i` on. -/
def blocks (snapshot : SliSnapshot V) (now : Int) :
    ℕ → List (AlertRule V) → Except PyError (List (List (Evaluation V)))
  | _, [] => .ok []
  | i, rule :: rest => do
    let metricValue ← snapshot.getattr rule.metric
    let evals ← readings i rule now (rule.keyed metricValue)
    let more ← blocks snapshot now (i + 1) rest
    return evals :: more

/-- The evaluations of a sequence of calls. -/
def ofCalls (rules : List (AlertRule V)) :
    List (SliSnapshot V × Int) → Except PyError (List (List (List (Evaluation V))))
  | [] => .ok []
  | (snapshot, now) :: rest => do
    let first ← blocks snapshot now 0 rules
    let more ← ofCalls rules rest
    return first :: more

end Evaluation

namespace AlertEvaluator

open Evaluation

variable [LT V] [DecidableLT V] {evaluator : AlertEvaluator V} {past : List (Evaluation V)}
  {now : Int}

/-- The values of one rule. -/
theorem Tracks.evaluateKeys (h : Tracks past evaluator) (rule : AlertRule V) (now : Int) (i : ℕ)
    (items : List (String × Option V)) :
    match readings i rule now items with
    | .error e => AlertEvaluator.evaluateKeys rule now evaluator items = .error e
    | .ok evals => ∃ evaluator', AlertEvaluator.evaluateKeys rule now evaluator items =
        .ok (evaluator', results past evals) ∧ evaluator'.rules = evaluator.rules ∧
        Tracks (past ++ evals) evaluator' := by
  induction items generalizing evaluator past with
  | nil => exact ⟨evaluator, rfl, rfl, by simpa using h⟩
  | cons item rest ih =>
    rcases item with ⟨stateKey, value⟩
    cases value with
    | none => rfl
    | some value =>
      rcases h.evaluateOne rule now i stateKey value with
        ⟨evaluator', hone, hrules, htracks⟩
      have hrest := ih htracks
      simp only [readings, AlertEvaluator.evaluateKeys, hone]
      cases hread : readings i rule now rest with
      | error e =>
        rw [hread] at hrest
        simp only at hrest
        show Except.bind _ _ = _
        simp [Except.bind, bind, hrest]
      | ok evals =>
        rw [hread] at hrest
        rcases hrest with ⟨evaluator'', hmore, hrules', htracks'⟩
        refine ⟨evaluator'', ?_, hrules'.trans hrules, by simpa using htracks'⟩
        simp [Except.bind, bind, hmore, results, pure, Except.pure]

/-! ## The events of a state key -/

/-- Whether the event under a key says that it fires, for the events of a key in turn. -/
def statesOf (key : String) (results : List (Option (AlertEvent V))) : List Bool :=
  (results.reduceOption.filter (·.ruleName = key)).map (·.state = .firing)

omit [LT V] [DecidableLT V] in
theorem statesOf_append (key : String) (results more : List (Option (AlertEvent V))) :
    statesOf key (results ++ more) = statesOf key results ++ statesOf key more := by
  simp [statesOf, List.reduceOption_append]

/-- The events of a key alternate, and the last one says what the last verdict was. -/
theorem statesOf_results (key : String) (evals : List (Evaluation V)) :
    Alternates true (statesOf key (results [] evals)) ∧
      following true (statesOf key (results [] evals)) = !lastBreached key evals := by
  induction evals using List.reverseRecOn with
  | nil => exact ⟨trivial, rfl⟩
  | append_singleton evals e ih =>
    have hone : results ([] ++ evals) [e] = [result evals e] := by simp [results]
    rw [results_append, hone, statesOf_append, lastBreached_snoc]
    by_cases hkey : key = e.stateKey
    · rw [if_pos hkey]
      by_cases hsame : e.breached = lastBreached e.stateKey evals
      · -- no event
        have hnone : result evals e = none := if_pos hsame
        have hnothing : statesOf key [(none : Option (AlertEvent V))] = [] := rfl
        rw [hnone, hnothing, List.append_nil, hsame, ← hkey]
        exact ih
      · have hsome : result evals e = some e.event := if_neg hsame
        have hstate : statesOf key [some e.event] = [e.breached] := by
          rcases Bool.eq_false_or_eq_true e.breached with hb | hb <;>
            simp [statesOf, List.reduceOption, Evaluation.event, AlertRule.event, hkey, hb]
        have hflip : e.breached = !lastBreached key evals := by
          rw [hkey]
          exact Bool.eq_not_of_ne hsame
        rw [hsome, hstate, Alternates.snoc_iff, Alternates.following_snoc]
        exact ⟨⟨ih.1, hflip.trans ih.2.symm⟩, rfl⟩
    · rw [if_neg hkey]
      have hother : statesOf key [result evals e] = [] := by
        unfold result
        split
        · rfl
        · simp [statesOf, List.reduceOption, Evaluation.event, AlertRule.event, Ne.symm hkey]
      rw [hother, List.append_nil]
      exact ih

/-! ## Whole calls -/

variable [IntCast V]

/-- The rules of one call. -/
theorem Tracks.evaluateRules (h : Tracks past evaluator) (snapshot : SliSnapshot V) (now : Int)
    (i : ℕ) (rules : List (AlertRule V)) :
    match blocks snapshot now i rules with
    | .error e => AlertEvaluator.evaluateRules snapshot now evaluator rules = .error e
    | .ok bs => ∃ evaluator', AlertEvaluator.evaluateRules snapshot now evaluator rules =
        .ok (evaluator', resultsByRule past bs) ∧ evaluator'.rules = evaluator.rules ∧
        Tracks (past ++ bs.flatten) evaluator' := by
  induction rules generalizing evaluator past i with
  | nil => exact ⟨evaluator, rfl, rfl, by simpa using h⟩
  | cons rule rest ih =>
    simp only [blocks, AlertEvaluator.evaluateRules]
    cases hmetric : snapshot.getattr rule.metric with
    | error e => rfl
    | ok metricValue =>
      have hkeys := h.evaluateKeys rule now i (rule.keyed metricValue)
      cases hread : readings i rule now (rule.keyed metricValue) with
      | error e =>
        rw [hread] at hkeys
        simp only at hkeys
        simp [Except.bind, bind, hread, hkeys]
      | ok evals =>
        rw [hread] at hkeys
        rcases hkeys with ⟨evaluator', hone, hrules, htracks⟩
        have hrest := ih htracks (i + 1)
        cases hblocks : blocks snapshot now (i + 1) rest with
        | error e =>
          rw [hblocks] at hrest
          simp only at hrest
          simp [Except.bind, bind, hread, hone, hrest]
        | ok bs =>
          rw [hblocks] at hrest
          rcases hrest with ⟨evaluator'', hmore, hrules', htracks'⟩
          simp only [Except.bind, bind, hread, hone, hmore, pure, Except.pure]
          exact ⟨evaluator'', rfl, hrules'.trans hrules, by simpa using htracks'⟩

theorem Tracks.evaluateByRule {evaluator' : AlertEvaluator V} {snapshot : SliSnapshot V}
    {byRule : List (List (Option (AlertEvent V)))} (h : Tracks past evaluator)
    (heval : evaluator.evaluateByRule snapshot now = .ok (evaluator', byRule)) :
    ∃ bs, blocks snapshot now 0 evaluator.rules = .ok bs ∧ byRule = resultsByRule past bs ∧
      evaluator'.rules = evaluator.rules ∧ Tracks (past ++ bs.flatten) evaluator' := by
  have hrules := h.evaluateRules snapshot now 0 evaluator.rules
  cases hblocks : blocks snapshot now 0 evaluator.rules with
  | error e =>
    -- then the call raises
    rw [hblocks] at hrules
    rw [AlertEvaluator.evaluateByRule, hrules] at heval
    cases heval
  | ok bs =>
    rw [hblocks] at hrules
    rcases hrules with ⟨next, heq, hkept, htracks⟩
    rw [AlertEvaluator.evaluateByRule, heq] at heval
    cases heval
    exact ⟨bs, rfl, rfl, hkept, htracks⟩

/-- A run of `evaluate`, as far as no call raises. -/
def evaluateAll (evaluator : AlertEvaluator V) : List (SliSnapshot V × Int) →
    Except PyError (AlertEvaluator V × List (List (List (Option (AlertEvent V)))))
  | [] => .ok (evaluator, [])
  | (snapshot, now) :: rest => do
    let (evaluator, results) ← evaluator.evaluateByRule snapshot now
    let (evaluator, more) ← evaluateAll evaluator rest
    return (evaluator, results :: more)

/-- A run is its sequence of evaluations. -/
theorem Tracks.evaluateAll {evaluator' : AlertEvaluator V}
    {calls : List (SliSnapshot V × Int)} {results : List (List (List (Option (AlertEvent V))))}
    (h : Tracks past evaluator) (hrun : evaluator.evaluateAll calls = .ok (evaluator', results)) :
    ∃ evals, ofCalls evaluator.rules calls = .ok evals ∧ results = resultsByCall past evals ∧
      evaluator'.rules = evaluator.rules ∧ Tracks (past ++ evals.flatten.flatten) evaluator' := by
  induction calls generalizing evaluator past results with
  | nil =>
    cases hrun
    exact ⟨[], rfl, rfl, rfl, by simpa using h⟩
  | cons call rest ih =>
    rcases call with ⟨snapshot, now⟩
    rcases Json.except_bind_ok hrun with ⟨⟨next, first⟩, hfirst, hrun⟩
    rcases Json.except_bind_ok hrun with ⟨⟨last, more⟩, hmore, hrun⟩
    cases hrun
    rcases h.evaluateByRule hfirst with ⟨bs, hblocks, rfl, hrules, htracks⟩
    rcases ih htracks hmore with ⟨evals, hcalls, rfl, hrules', htracks'⟩
    rw [hrules] at hcalls
    refine ⟨bs :: evals, ?_, rfl, hrules'.trans hrules, by simpa using htracks'⟩
    simp [ofCalls, Except.bind, bind, hblocks, hcalls, pure, Except.pure]

/-- The deletion of an active event never fails. -/
theorem Tracks.no_keyError (h : Tracks past evaluator) (snapshot : SliSnapshot V) (now : Int) :
    evaluator.evaluate snapshot now ≠ .error .keyError := by
  have hblocks : ∀ (rules : List (AlertRule V)) (i : ℕ),
      blocks snapshot now i rules ≠ .error .keyError := by
    intro rules
    induction rules with
    | nil =>
      intro i heq
      cases heq
    | cons rule rest ih =>
      intro i
      simp only [blocks, Except.bind, bind]
      cases hmetric : snapshot.getattr rule.metric with
      | error e =>
        have hattr : e = .attributeError := by
          unfold SliSnapshot.getattr at hmetric
          split at hmetric <;> first | cases hmetric; rfl | cases hmetric
        simp [hattr]
      | ok metricValue =>
        simp only
        cases hread : readings i rule now (rule.keyed metricValue) with
        | error e => simp [readings_error hread]
        | ok evals =>
          simp only
          cases hmore : blocks snapshot now (i + 1) rest with
          | error e =>
            intro heq
            cases heq
            exact ih (i + 1) hmore
          | ok bs =>
            intro heq
            cases heq
  have hrules := h.evaluateRules snapshot now 0 evaluator.rules
  intro hraised
  cases hb : blocks snapshot now 0 evaluator.rules with
  | error e =>
    rw [hb] at hrules
    simp only [evaluate, AlertEvaluator.evaluateByRule, hrules, Except.bind, bind] at hraised
    cases hraised
    exact hblocks _ _ hb
  | ok bs =>
    rw [hb] at hrules
    rcases hrules with ⟨evaluator', heq, _⟩
    simp [evaluate, AlertEvaluator.evaluateByRule, heq, Except.bind, bind, pure,
      Except.pure] at hraised

/-! ## Alternation -/

/-- Over any run of calls: the events of every state key alternate; an evaluation yields an
event exactly where its verdict is not the last one under its key; a key is marked firing
exactly where it has an active event, and these are the keys whose last event says so; and the
deletion of an active event does not fail. -/
theorem alerts_alternate {rules : List (AlertRule V)} {calls : List (SliSnapshot V × Int)}
    {evaluator : AlertEvaluator V} {results : List (List (List (Option (AlertEvent V))))}
    (hrun : ({ rules } : AlertEvaluator V).evaluateAll calls = .ok (evaluator, results)) :
    (∀ key, Alternates true (statesOf key results.flatten.flatten)) ∧
    (∃ evals, ofCalls rules calls = .ok evals ∧
      ∀ pre e post, evals.flatten.flatten = pre ++ e :: post →
        results.flatten.flatten[pre.length]? =
          some (if e.breached = lastBreached e.stateKey pre then none else some e.event)) ∧
    (∀ key, evaluator.firing.get? key = some true ↔
      evaluator.activeEvents.contains key = true) ∧
    (∀ key, (∃ event ∈ evaluator.currentState, event.ruleName = key) ↔
      (statesOf key results.flatten.flatten).getLast? = some true) ∧
    ∀ snapshot now, evaluator.evaluate snapshot now ≠ .error .keyError := by
  rcases (Tracks.new rules).evaluateAll hrun with ⟨evals, hcalls, rfl, _, htracks⟩
  rw [List.nil_append] at htracks
  have hflat := flatten_resultsByCall [] evals
  refine ⟨?_, ⟨evals, hcalls, ?_⟩, ?_, ?_, htracks.no_keyError⟩
  · intro key
    rw [hflat]
    exact (statesOf_results key _).1
  · intro pre e post heq
    have hlen : ∀ (past l : List (Evaluation V)), (Evaluation.results past l).length = l.length := by
      intro past l
      induction l generalizing past with
      | nil => rfl
      | cons x rest ih => simp [Evaluation.results, ih]
    rw [hflat, heq, results_append, List.getElem?_append_right (by rw [hlen]), hlen,
      Nat.sub_self]
    rfl
  · intro key
    rw [htracks.active key, ← htracks.firing key]
    cases evaluator.firing.get? key <;> simp
  · intro key
    have hstates := (statesOf_results key evals.flatten.flatten).2
    rw [htracks.listed_iff key, hflat]
    unfold following at hstates
    cases hlast : (statesOf key (Evaluation.results [] evals.flatten.flatten)).getLast? with
    | none =>
      rw [hlast] at hstates
      simp only at hstates
      rw [eq_comm, Bool.not_eq_true'] at hstates
      simp [hstates]
    | some x =>
      rw [hlast] at hstates
      simp only at hstates
      rw [Option.some.injEq, Bool.not_inj hstates]

/-- An alert on the p95 latency. -/
def latencyRule : AlertRule ℚ :=
  ⟨"p95-latency-threshold", .threshold, "p95_latency_ms", "gt", 5000, 300000000, .warning,
    "docs/runbooks/p95-latency-threshold.md"⟩

def withLatency (p95LatencyMs : ℚ) : SliSnapshot ℚ :=
  { availability := 1, p95LatencyMs, failoverSuccessRate := none }

/-- The latency is too high twice in a row, and then it is not. -/
theorem alerts_alternate_latency :
    ∃ evaluator results, ({ rules := [latencyRule] } : AlertEvaluator ℚ).evaluateAll
        [(withLatency 6000, 0), (withLatency 7000, 30), (withLatency 100, 60)] =
          .ok (evaluator, results) ∧
      Alternates true (statesOf "p95-latency-threshold" results.flatten.flatten) ∧
      (statesOf "p95-latency-threshold" results.flatten.flatten).length = 2 := by
  have hrun : ({ rules := [latencyRule] } : AlertEvaluator ℚ).evaluateAll
      [(withLatency 6000, 0), (withLatency 7000, 30), (withLatency 100, 60)] = .ok (_, _) := rfl
  exact ⟨_, _, hrun, (alerts_alternate hrun).1 _, rfl⟩

end AlertEvaluator

end LlmHomeLab
