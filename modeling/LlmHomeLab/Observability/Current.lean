import LlmHomeLab.Observability.Alerts

/-! # The alerts that fire now

`current_state()` against the last snapshot. A key is only looked at when its value is in the
snapshot, so an alert of a host that has gone goes on firing.
-/

namespace LlmHomeLab

variable {V : Type} [IntCast V]

/-- The values of a rule in a snapshot, each with its state key. -/
def AlertRule.assignments (rule : AlertRule V) (snapshot : SliSnapshot V) :
    List (String × Option V) :=
  match snapshot.getattr rule.metric with
  | .ok metricValue => rule.keyed metricValue
  | .error _ => []

/-- A rule has a value under this key in the snapshot. -/
def PresentIn (rules : List (AlertRule V)) (snapshot : SliSnapshot V) (key : String) : Prop :=
  ∃ rule ∈ rules, ∃ value, (key, value) ∈ rule.assignments snapshot

/-- The value under this key breaches its rule. -/
def BreachedIn [LT V] [DecidableLT V] (rules : List (AlertRule V)) (snapshot : SliSnapshot V)
    (key : String) : Prop :=
  ∃ rule ∈ rules, ∃ value, (key, some value) ∈ rule.assignments snapshot ∧
    breaches rule value = true

/-- No two values of the snapshot share a state key. -/
def DistinctKeys (rules : List (AlertRule V)) (snapshot : SliSnapshot V) : Prop :=
  ((rules.flatMap (·.assignments snapshot)).map Prod.fst).Nodup

namespace Evaluation

/-- The evaluations of a call are those of the values of its snapshot. -/
theorem blocks_ok {snapshot : SliSnapshot V} {now : Int} {i : ℕ} {rules : List (AlertRule V)}
    {bs : List (List (Evaluation V))} (h : blocks snapshot now i rules = .ok bs) :
    (rules.flatMap fun rule => (rule.assignments snapshot).map (Prod.mk rule)) =
      bs.flatten.map fun e => (e.rule, e.stateKey, some e.value) := by
  induction rules generalizing i bs with
  | nil =>
    cases h
    rfl
  | cons rule rest ih =>
    rcases Json.except_bind_ok h with ⟨metricValue, hmetric, h⟩
    rcases Json.except_bind_ok h with ⟨evals, hread, h⟩
    rcases Json.except_bind_ok h with ⟨more, hmore, h⟩
    cases h
    have hassign : rule.assignments snapshot = evals.map fun e => (e.stateKey, some e.value) := by
      rw [AlertRule.assignments, hmetric]
      exact (readings_ok hread).1
    rw [List.flatMap_cons, ih hmore, List.flatten_cons, List.map_append, hassign, List.map_map]
    congr 1
    refine List.map_congr_left fun e he => ?_
    rw [Function.comp_apply, ((readings_ok hread).2 e he).2.1]

end Evaluation

namespace AlertEvaluator

open Evaluation

variable [LT V] [DecidableLT V]

/-- The alerts that fire after a call are exactly the ones breached in its snapshot, if and
only if every alert that fired before has its value in the snapshot. -/
theorem current_iff {rules : List (AlertRule V)} {calls : List (SliSnapshot V × Int)}
    {evaluator evaluator' : AlertEvaluator V}
    {results : List (List (List (Option (AlertEvent V))))} {snapshot : SliSnapshot V} {now : Int}
    {events : List (AlertEvent V)}
    (hrun : ({ rules } : AlertEvaluator V).evaluateAll calls = .ok (evaluator, results))
    (hlast : evaluator.evaluate snapshot now = .ok (evaluator', events))
    (hkeys : DistinctKeys rules snapshot) :
    (∀ key, (∃ event ∈ evaluator'.currentState, event.ruleName = key) ↔
      BreachedIn rules snapshot key) ↔
      ∀ event ∈ evaluator.currentState, PresentIn rules snapshot event.ruleName := by
  rcases (Tracks.new rules).evaluateAll hrun with ⟨evals, _, _, hrules, htracks⟩
  rw [List.nil_append] at htracks
  generalize evals.flatten.flatten = past at htracks
  rcases Json.except_bind_ok hlast with ⟨⟨next, byRule⟩, hone, hpure⟩
  cases hpure
  rcases htracks.evaluateByRule hone with ⟨bs, hblocks, _, _, hnext⟩
  rw [hrules] at hblocks
  have hassign := blocks_ok hblocks
  have hkeysOf : (rules.flatMap (·.assignments snapshot)).map Prod.fst =
      bs.flatten.map (·.stateKey) := by
    have hmap := congrArg (List.map fun p => p.2.1) hassign
    simpa [List.map_flatMap, Function.comp_def] using hmap
  -- the evaluations of the call are the values of the snapshot
  have hmem : ∀ rule key value,
      (rule ∈ rules ∧ (key, value) ∈ rule.assignments snapshot) ↔
        ∃ e ∈ bs.flatten, e.rule = rule ∧ e.stateKey = key ∧ some e.value = value := by
    intro rule key value
    have hiff : (rule, key, value) ∈ rules.flatMap (fun rule =>
        (rule.assignments snapshot).map (Prod.mk rule)) ↔
          (rule, key, value) ∈ bs.flatten.map fun e => (e.rule, e.stateKey, some e.value) := by
      rw [hassign]
    simpa only [List.mem_flatMap, List.mem_map, Prod.mk.injEq, exists_eq_right_right,
      existsAndEq, true_and] using hiff
  have hpresent : ∀ key, PresentIn rules snapshot key ↔ ∃ e ∈ bs.flatten, e.stateKey = key := by
    intro key
    constructor
    · rintro ⟨rule, hrule, value, hvalue⟩
      rcases (hmem rule key value).mp ⟨hrule, hvalue⟩ with ⟨e, he, _, hkey, _⟩
      exact ⟨e, he, hkey⟩
    · rintro ⟨e, he, rfl⟩
      rcases (hmem e.rule e.stateKey (some e.value)).mpr ⟨e, he, rfl, rfl, rfl⟩ with ⟨hrule, hvalue⟩
      exact ⟨e.rule, hrule, some e.value, hvalue⟩
  have hbreached : ∀ key, BreachedIn rules snapshot key ↔
      ∃ e ∈ bs.flatten, e.stateKey = key ∧ e.breached = true := by
    intro key
    constructor
    · rintro ⟨rule, hrule, value, hvalue, hb⟩
      rcases (hmem rule key (some value)).mp ⟨hrule, hvalue⟩ with ⟨e, he, rfl, hkey, hval⟩
      cases hval
      exact ⟨e, he, hkey, hb⟩
    · rintro ⟨e, he, rfl, hb⟩
      rcases (hmem e.rule e.stateKey (some e.value)).mpr ⟨e, he, rfl, rfl, rfl⟩ with ⟨hrule, hvalue⟩
      exact ⟨e.rule, hrule, e.value, hvalue, hb⟩
  have hcurrent : ∀ key, (∃ event ∈ evaluator'.currentState, event.ruleName = key) ↔
      BreachedIn rules snapshot key ∨
        (¬ PresentIn rules snapshot key ∧ lastBreached key past = true) := by
    intro key
    rw [hnext.listed_iff, lastBreached_append (hkeysOf ▸ hkeys), hbreached, hpresent]
    simp only [not_exists, not_and]
  constructor
  · intro hexact event hevent
    by_contra hgone
    -- an alert of a key that is not looked at goes on firing
    have hfired := (htracks.listed_iff event.ruleName).mp ⟨event, hevent, rfl⟩
    have hb := (hexact _).mp ((hcurrent _).mpr (Or.inr ⟨hgone, hfired⟩))
    rcases hb with ⟨rule, hrule, value, hvalue, _⟩
    exact hgone ⟨rule, hrule, some value, hvalue⟩
  · intro hpresence key
    rw [hcurrent]
    constructor
    · rintro (hb | ⟨hgone, hfired⟩)
      · exact hb
      · rcases (htracks.listed_iff key).mpr hfired with ⟨event, hevent, hname⟩
        exact absurd (hname ▸ hpresence event hevent) hgone
    · exact Or.inl

/-- An alert on the load of a host. -/
def saturationRule : AlertRule ℚ :=
  ⟨"host-saturation-threshold", .threshold, "host_saturation", "gt",
    ⟨9, 10, by decide, by decide⟩, 300000000, .critical,
    "docs/runbooks/host-saturation-threshold.md"⟩

def withSaturation (hostSaturation : Dict String ℚ) : SliSnapshot ℚ :=
  { availability := 1, p95LatencyMs := 0, failoverSuccessRate := none, hostSaturation }

/-- A host is full, and then it is not. -/
theorem current_iff_recovered : ∃ evaluator results evaluator' events,
    ({ rules := [saturationRule] } : AlertEvaluator ℚ).evaluateAll
        [(withSaturation (Dict.empty.set "gpu-1" 1), 0)] = .ok (evaluator, results) ∧
      evaluator.evaluate (withSaturation (Dict.empty.set "gpu-1" 0)) 30 =
        .ok (evaluator', events) ∧
      ∀ key, (∃ event ∈ evaluator'.currentState, event.ruleName = key) ↔
        BreachedIn [saturationRule] (withSaturation (Dict.empty.set "gpu-1" 0)) key := by
  have hfull : ∃ evaluator results, ({ rules := [saturationRule] } : AlertEvaluator ℚ).evaluateAll
        [(withSaturation (Dict.empty.set "gpu-1" 1), 0)] = .ok (evaluator, results) ∧
      (∀ event ∈ evaluator.currentState, event.ruleName = "host-saturation-threshold:gpu-1") ∧
      ∃ evaluator' events, evaluator.evaluate (withSaturation (Dict.empty.set "gpu-1" 0)) 30 =
        .ok (evaluator', events) := by
    refine ⟨_, _, rfl, ?_, _, _, rfl⟩
    intro event hevent
    rw [List.mem_singleton.mp hevent]
    rfl
  rcases hfull with ⟨evaluator, results, hrun, hfires, evaluator', events, hlast⟩
  refine ⟨evaluator, results, evaluator', events, hrun, hlast, (current_iff hrun hlast ?_).mpr ?_⟩
  · show [_].Nodup
    exact List.nodup_singleton _
  · intro event hevent
    refine ⟨saturationRule, List.mem_singleton_self _, some 0, ?_⟩
    rw [hfires event hevent]
    exact List.mem_singleton_self _

/-- A full host is deregistered: its alert goes on firing. -/
theorem current_deregistered : ∃ evaluator results evaluator' events,
    ({ rules := [saturationRule] } : AlertEvaluator ℚ).evaluateAll
        [(withSaturation (Dict.empty.set "gpu-1" 1), 0)] = .ok (evaluator, results) ∧
      evaluator.evaluate (withSaturation .empty) 30 = .ok (evaluator', events) ∧
      DistinctKeys [saturationRule] (withSaturation .empty) ∧
      ¬ ∀ key, (∃ event ∈ evaluator'.currentState, event.ruleName = key) ↔
        BreachedIn [saturationRule] (withSaturation .empty) key := by
  have hrun : ({ rules := [saturationRule] } : AlertEvaluator ℚ).evaluateAll
      [(withSaturation (Dict.empty.set "gpu-1" 1), 0)] = .ok (_, _) := rfl
  refine ⟨_, _, _, _, hrun, rfl, List.nodup_nil, ?_⟩
  intro hexact
  have hfires := (hexact "host-saturation-threshold:gpu-1").mp
    ⟨_, List.mem_singleton_self _, rfl⟩
  rcases hfires with ⟨rule, hrule, value, hvalue, _⟩
  rw [List.mem_singleton.mp hrule] at hvalue
  cases hvalue

end AlertEvaluator

end LlmHomeLab
