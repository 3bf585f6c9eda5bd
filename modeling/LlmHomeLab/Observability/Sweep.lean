import LlmHomeLab.Observability.Alerts
import LlmHomeLab.Observability.Readable

/-! # A sweep over all rules

`evaluate` goes through the rules in turn, and the first value it cannot compare ends it. A rule
can name any field of the snapshot, and two of them need not be numbers: the failover rate, of
which there is none without a failover, and the statistics of the hosts.
-/

namespace LlmHomeLab

variable {V : Type}

/-! ## Statement -/

/-- The fields of a snapshot that are a number, or a number for each host. -/
def numericMetrics : List String :=
  ["availability", "p95_latency_ms", "host_saturation", "queue_depth", "token_usage_total"]

/-- All that the rule looks at in the snapshot are numbers. -/
def AlertRule.Compares (rule : AlertRule V) (snapshot : SliSnapshot V) : Prop :=
  rule.metric ∈ numericMetrics ∨
    (rule.metric = "failover_success_rate" ∧ snapshot.failoverSuccessRate ≠ none) ∨
    (rule.metric = "host_completion_stats" ∧ snapshot.hostCompletionStats.entries = [])

namespace AlertEvaluator

section

variable [LT V] [DecidableLT V]

/-- The evaluator as the values of a rule leave it, and whether all of them were compared. -/
def afterKeys (rule : AlertRule V) (now : Int) (evaluator : AlertEvaluator V) :
    List (String × Option V) → AlertEvaluator V × Bool
  | [] => (evaluator, true)
  | (stateKey, value) :: rest =>
    match evaluator.evaluateOne rule stateKey value now with
    | .error _ => (evaluator, false)
    | .ok (evaluator, _) => afterKeys rule now evaluator rest

variable [IntCast V]

/-- The evaluator as a call leaves it, whether or not it raises, and the number of rules it has
come through. -/
def afterRules (snapshot : SliSnapshot V) (now : Int) (evaluator : AlertEvaluator V) :
    List (AlertRule V) → AlertEvaluator V × ℕ
  | [] => (evaluator, 0)
  | rule :: rest =>
    match snapshot.getattr rule.metric with
    | .error _ => (evaluator, 0)
    | .ok metricValue =>
      match afterKeys rule now evaluator (rule.keyed metricValue) with
      | (evaluator, false) => (evaluator, 0)
      | (evaluator, true) =>
        let others := afterRules snapshot now evaluator rest
        (others.1, others.2 + 1)

def sweep (evaluator : AlertEvaluator V) (call : SliSnapshot V × Int) : AlertEvaluator V :=
  (afterRules call.1 call.2 evaluator evaluator.rules).1

/-- A new evaluator after these calls, of which some may have raised. -/
def afterSweeps (rules : List (AlertRule V)) (calls : List (SliSnapshot V × Int)) :
    AlertEvaluator V :=
  calls.foldl sweep { rules }

/-- The call does not raise and comes through every rule. -/
structure Total (evaluator : AlertEvaluator V) (snapshot : SliSnapshot V) (now : Int) : Prop where
  returns : ∃ evaluator' events, evaluator.evaluate snapshot now = .ok (evaluator', events)
  reaches : (afterRules snapshot now evaluator evaluator.rules).2 = evaluator.rules.length

end

end AlertEvaluator

/-! ## The fields of a snapshot -/

theorem AlertRule.compares_iff [IntCast V] (rule : AlertRule V) (snapshot : SliSnapshot V) :
    rule.Compares snapshot ↔ ∃ metricValue, snapshot.getattr rule.metric = .ok metricValue ∧
      ∀ kv ∈ rule.keyed metricValue, kv.2 ≠ none := by
  have hhosts : ∀ {α : Type} (values : List (String × α)) (f : α → V),
      ∀ kv ∈ rule.keyed (.perHost (values.map fun kv => (kv.1, some (f kv.2)))), kv.2 ≠ none := by
    intro α values f kv hkv
    simp only [AlertRule.keyed, List.map_map, List.mem_map] at hkv
    obtain ⟨host, -, rfl⟩ := hkv
    exact Option.some_ne_none _
  unfold AlertRule.Compares SliSnapshot.getattr
  split
  case h_3 hmetric =>
    -- the failover rate
    rw [hmetric]
    simp [numericMetrics, AlertRule.keyed]
  case h_4 hmetric =>
    rw [hmetric]
    exact iff_of_true (Or.inl (by decide)) ⟨_, rfl, hhosts _ id⟩
  case h_6 hmetric =>
    rw [hmetric]
    exact iff_of_true (Or.inl (by decide)) ⟨_, rfl, hhosts _ _⟩
  case h_7 hmetric =>
    -- the statistics: a record for every host
    rw [hmetric]
    simp only [numericMetrics, AlertRule.keyed, Except.ok.injEq, exists_eq_left']
    cases snapshot.hostCompletionStats.entries <;> simp
  case h_8 h₁ h₂ h₃ h₄ h₅ h₆ h₇ =>
    have hnone : ¬ ∃ metricValue : MetricValue V,
        (Except.error PyError.attributeError : Except PyError (MetricValue V)) = .ok metricValue ∧
          ∀ kv ∈ rule.keyed metricValue, kv.2 ≠ none := by
      rintro ⟨_, h, _⟩
      cases h
    refine iff_of_false ?_ hnone
    simp only [numericMetrics, List.mem_cons, List.not_mem_nil]
    tauto
  all_goals
    next hmetric =>
      rw [hmetric]
      exact iff_of_true (Or.inl (by decide)) ⟨_, rfl, by simp [AlertRule.keyed]⟩

namespace AlertEvaluator

open Evaluation

/-! ## One rule -/

section

variable [LT V] [DecidableLT V] {evaluator : AlertEvaluator V} {past : List (Evaluation V)}

theorem Tracks.afterKeys (h : Tracks past evaluator) (rule : AlertRule V) (now : Int)
    (items : List (String × Option V)) :
    ((afterKeys rule now evaluator items).2 = true ↔ ∀ kv ∈ items, kv.2 ≠ none) ∧
      (afterKeys rule now evaluator items).1.rules = evaluator.rules ∧
      ∃ past', Tracks past' (afterKeys rule now evaluator items).1 := by
  induction items generalizing evaluator past with
  | nil => exact ⟨by simp [AlertEvaluator.afterKeys], rfl, past, h⟩
  | cons item rest ih =>
    rcases item with ⟨stateKey, value⟩
    cases value with
    | none =>
      have hraised : AlertEvaluator.afterKeys rule now evaluator ((stateKey, none) :: rest) =
          (evaluator, false) := rfl
      rw [hraised]
      exact ⟨by simp, rfl, past, h⟩
    | some value =>
      obtain ⟨next, hone, hrules, htracks⟩ := h.evaluateOne rule now 0 stateKey value
      obtain ⟨hiff, hrules', htracks'⟩ := ih htracks
      simp only [AlertEvaluator.afterKeys, hone]
      exact ⟨by simpa using hiff, hrules'.trans hrules, htracks'⟩

/-- The values of a rule raise where not all of them were compared. -/
theorem evaluateKeys_cases (evaluator : AlertEvaluator V) (rule : AlertRule V) (now : Int)
    (items : List (String × Option V)) :
    (∃ e, evaluateKeys rule now evaluator items = .error e ∧
        (AlertEvaluator.afterKeys rule now evaluator items).2 = false) ∨
      ∃ evaluator' results, evaluateKeys rule now evaluator items = .ok (evaluator', results) ∧
        AlertEvaluator.afterKeys rule now evaluator items = (evaluator', true) := by
  induction items generalizing evaluator with
  | nil => exact Or.inr ⟨evaluator, [], rfl, rfl⟩
  | cons item rest ih =>
    rcases item with ⟨stateKey, value⟩
    simp only [evaluateKeys, AlertEvaluator.afterKeys]
    cases hone : evaluator.evaluateOne rule stateKey value now with
    | error e => exact Or.inl ⟨e, rfl, rfl⟩
    | ok pair =>
      rcases pair with ⟨next, event⟩
      rcases ih next with ⟨e, heq, hafter⟩ | ⟨evaluator', results, heq, hafter⟩
      · refine Or.inl ⟨e, ?_, hafter⟩
        rw [Json.except_ok_bind]
        simp only [heq]
        rfl
      · refine Or.inr ⟨evaluator', event :: results, ?_, hafter⟩
        rw [Json.except_ok_bind]
        simp only [heq]
        rfl

end

/-! ## All rules -/

variable [LT V] [DecidableLT V] [IntCast V] {evaluator : AlertEvaluator V}
  {past : List (Evaluation V)}

/-- A call comes through every rule exactly where every rule compares numbers. -/
theorem Tracks.afterRules (h : Tracks past evaluator) (snapshot : SliSnapshot V) (now : Int)
    (rules : List (AlertRule V)) :
    ((afterRules snapshot now evaluator rules).2 = rules.length ↔
        ∀ rule ∈ rules, rule.Compares snapshot) ∧
      (afterRules snapshot now evaluator rules).1.rules = evaluator.rules ∧
      ∃ past', Tracks past' (afterRules snapshot now evaluator rules).1 := by
  induction rules generalizing evaluator past with
  | nil => exact ⟨by simp [AlertEvaluator.afterRules], rfl, past, h⟩
  | cons rule rest ih =>
    rw [List.forall_mem_cons, AlertRule.compares_iff, List.length_cons]
    simp only [AlertEvaluator.afterRules]
    cases hmetric : snapshot.getattr rule.metric with
    | error e => exact ⟨by simp, rfl, past, h⟩
    | ok metricValue =>
      obtain ⟨hkeys, hrules, past', htracks⟩ := h.afterKeys rule now (rule.keyed metricValue)
      simp only [Except.ok.injEq, exists_eq_left']
      rcases hafter : AlertEvaluator.afterKeys rule now evaluator (rule.keyed metricValue) with
        ⟨next, compared⟩
      rw [hafter] at hkeys hrules htracks
      cases compared with
      | false =>
        -- the call ends at this rule
        refine ⟨iff_of_false (Nat.succ_ne_zero _).symm ?_, hrules, past', htracks⟩
        rintro ⟨hall, _⟩
        exact absurd (hkeys.mpr hall) (by simp)
      | true =>
        obtain ⟨hiff, hrules', htracks'⟩ := ih htracks
        refine ⟨?_, hrules'.trans hrules, htracks'⟩
        rw [Nat.add_right_cancel_iff, hiff]
        exact ⟨fun hrest => ⟨hkeys.mp rfl, hrest⟩, And.right⟩

/-- The call returns exactly where it comes through every rule. -/
theorem evaluateRules_ok_iff (snapshot : SliSnapshot V) (now : Int) (rules : List (AlertRule V)) :
    (∃ evaluator' results, evaluateRules snapshot now evaluator rules = .ok (evaluator', results)) ↔
      (afterRules snapshot now evaluator rules).2 = rules.length := by
  induction rules generalizing evaluator with
  | nil => exact iff_of_true ⟨evaluator, [], rfl⟩ rfl
  | cons rule rest ih =>
    simp only [evaluateRules, AlertEvaluator.afterRules, List.length_cons]
    cases hmetric : snapshot.getattr rule.metric with
    | error e => simp [bind, Except.bind]
    | ok metricValue =>
      rcases evaluateKeys_cases evaluator rule now (rule.keyed metricValue) with
        ⟨e, heq, hafter⟩ | ⟨next, results, heq, hafter⟩
      · simp only [Json.except_ok_bind, heq]
        rcases hpair : AlertEvaluator.afterKeys rule now evaluator (rule.keyed metricValue) with
          ⟨next, compared⟩
        rw [hpair] at hafter
        simp only at hafter
        subst hafter
        refine iff_of_false ?_ (Nat.succ_ne_zero _).symm
        rintro ⟨_, _, h⟩
        cases h
      · simp only [Json.except_ok_bind, heq, hafter, Nat.add_right_cancel_iff]
        rw [← ih]
        constructor
        · rintro ⟨evaluator', more, h⟩
          obtain ⟨⟨last, others⟩, hothers, -⟩ := Json.except_bind_ok h
          exact ⟨last, others, hothers⟩
        · rintro ⟨evaluator', more, h⟩
          exact ⟨evaluator', results :: more, by rw [h]; rfl⟩

/-- A call that returns leaves what it returns. -/
theorem total_iff_reaches (snapshot : SliSnapshot V) (now : Int) :
    evaluator.Total snapshot now ↔
      (AlertEvaluator.afterRules snapshot now evaluator evaluator.rules).2 =
        evaluator.rules.length := by
  refine ⟨Total.reaches, fun hreaches => ⟨?_, hreaches⟩⟩
  obtain ⟨evaluator', results, h⟩ := evaluateRules_ok_iff snapshot now _ |>.mpr hreaches
  exact ⟨evaluator', _, by rw [evaluate, evaluateByRule, h]; rfl⟩

/-! ## Any evaluator in use -/

theorem tracks_afterSweeps (rules : List (AlertRule V)) (calls : List (SliSnapshot V × Int)) :
    (afterSweeps rules calls).rules = rules ∧ ∃ past, Tracks past (afterSweeps rules calls) := by
  induction calls using List.reverseRecOn with
  | nil => exact ⟨rfl, [], Tracks.new rules⟩
  | append_singleton calls call ih =>
    obtain ⟨hrules, past, htracks⟩ := ih
    have hsnoc : afterSweeps rules (calls ++ [call]) = (afterSweeps rules calls).sweep call := by
      simp [afterSweeps]
    obtain ⟨-, hrules', htracks'⟩ := htracks.afterRules call.1 call.2 (afterSweeps rules calls).rules
    rw [hsnoc]
    exact ⟨hrules'.trans hrules, htracks'⟩

end AlertEvaluator

/-! ## Before the first failover -/

instance : LT Quotient := ⟨fun x y => x.value < y.value⟩

instance : DecidableLT Quotient := fun x y => inferInstanceAs (Decidable (x.value < y.value))

instance : IntCast Quotient := ⟨fun n => ⟨n⟩⟩

namespace AlertEvaluator

/-- An entry of the rules file. -/
private def entry (name metric : String) : RuleData Quotient :=
  ⟨some name, some "threshold", some metric, some "lt", some ⟨1⟩, some 300, some "critical",
    some "docs/runbooks/availability-slo-burn.md"⟩

end AlertEvaluator

end LlmHomeLab
