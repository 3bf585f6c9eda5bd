import LlmHomeLab.Routing.Sticky

/-! # The choice of `select_backend`

Without a sticky session the winner is the candidate with the greatest score among those with the
window, and the least id of them, in whatever order they come. A window that is null is compared
like any other, and the comparison raises.
-/

namespace LlmHomeLab

/-! ## Statement -/

/-- A quarter of the characters of the messages, rounded up. -/
def neededWindow (request : ChatCompletionRequest) : Int :=
  let totalChars : ℕ := (request.messages.map fun message => message.content.length).sum
  ⌈(totalChars : ℚ) / 4⌉

/-- The context window is there and large enough. -/
def RoutingCandidate.hasWindow (c : RoutingCandidate) (needed : Int) : Bool :=
  c.contextWindow.any fun window => needed ≤ window

/-- The sum of the scores of the rules that apply to the task type. -/
def scoreSum (policy : RoutingPolicy) (context : RoutingContext) (c : RoutingCandidate) : ℚ :=
  ((policy.rules.filter (·.appliesTo context.taskType)).map fun rule =>
    (rule.scoreFn c context).getD 0).sum

/-- Every rule that applies to the task type gives the candidate a score. -/
def RoutingPolicy.Scores (policy : RoutingPolicy) (context : RoutingContext)
    (c : RoutingCandidate) : Prop :=
  ∀ rule ∈ policy.rules, rule.appliesTo context.taskType = true → rule.scoreFn c context ≠ none

/-- Two decisions that look the same. -/
structure RoutingDecision.Same (a b : RoutingDecision) : Prop where
  backendId : a.backendId = b.backendId
  scores : ∀ id, a.scores.get? id = b.scores.get? id
  matchedRules : ∀ id, a.matchedRules.get? id = b.matchedRules.get? id

namespace RoutingEngine

/-- The session is not bound, or not to a candidate with the window. -/
def Unbound (router : RoutingEngine) (request : ChatCompletionRequest)
    (candidates : List RoutingCandidate) (sessionId : Option String) : Prop :=
  ∀ sticky, router.stickyBackendFor sessionId = some sticky →
    ∀ c ∈ candidates, c.hasWindow (neededWindow request) = true → c.backend.backendId ≠ sticky

/-- `best` is the argmax of the scores, and the least id where they tie. -/
def IsArgmax (policy : RoutingPolicy) (context : RoutingContext) (eligible : List RoutingCandidate)
    (best : RoutingCandidate) : Prop :=
  best ∈ eligible ∧ ∀ c ∈ eligible, scoreSum policy context c < scoreSum policy context best ∨
    scoreSum policy context c = scoreSum policy context best ∧
      best.backend.backendId ≤ c.backend.backendId

/-- What `select_backend` does with these candidates. -/
structure PicksArgmax (router : RoutingEngine) (request : ChatCompletionRequest)
    (candidates : List RoutingCandidate) (sessionId : Option String) : Prop where
  refused : router.selectBackend request candidates sessionId =
      .error (.noWindow (neededWindow request)) ↔
    ∀ c ∈ candidates, c.hasWindow (neededWindow request) = false
  picked : (∃ c ∈ candidates, c.hasWindow (neededWindow request) = true) →
    ∃ decision router' best,
      router.selectBackend request candidates sessionId = .ok (decision, router') ∧
        IsArgmax router.policy ⟨request.taskType, neededWindow request⟩
          (candidates.filter (·.hasWindow (neededWindow request))) best ∧
        decision.backendId = best.backend.backendId
  permuted : ∀ decision router', router.selectBackend request candidates sessionId =
      .ok (decision, router') → ∀ others, others.Perm candidates →
    ∃ decision', router.selectBackend request others sessionId = .ok (decision', router') ∧
      decision'.Same decision

end RoutingEngine

/-! ## The window -/

/-- `-(-total // 4)` is the ceiling of the quarter. -/
theorem ceil_quarter (total : ℕ) : ⌈(total : ℚ) / 4⌉ = ((total + 3) / 4 : ℕ) := by
  rw [Int.ceil_eq_iff, Int.cast_natCast]
  generalize hquarter : (total + 3) / 4 = quarter
  have hdiv : total ≤ 4 * quarter ∧ 4 * quarter < total + 4 := by omega
  have hlow : (total : ℚ) ≤ 4 * quarter := by exact_mod_cast hdiv.1
  have hhigh : 4 * (quarter : ℚ) < total + 4 := by exact_mod_cast hdiv.2
  constructor <;> linarith

theorem estimateTokenBudget_eq (request : ChatCompletionRequest) :
    estimateTokenBudget request = neededWindow request :=
  (ceil_quarter _).symm

/-- Where every window is an integer, the eligible candidates are those with the window. -/
theorem eligibleFor_eq {needed : Int} {candidates : List RoutingCandidate}
    (h : ∀ c ∈ candidates, c.contextWindow ≠ none) :
    eligibleFor needed candidates = .ok (candidates.filter (·.hasWindow needed)) := by
  induction candidates with
  | nil => rfl
  | cons c rest ih =>
    have hrest := ih fun x hx => h x (List.mem_cons_of_mem _ hx)
    cases hwindow : c.contextWindow with
    | none => exact absurd hwindow (h c List.mem_cons_self)
    | some window =>
      have hhas : c.hasWindow needed = decide (needed ≤ window) := by
        simp [RoutingCandidate.hasWindow, hwindow]
      unfold eligibleFor
      simp only [hwindow, hrest, Json.except_ok_bind, List.filter_cons, hhas, decide_eq_true_eq]
      rfl

/-- A null window raises, wherever it stands. -/
theorem eligibleFor_null {needed : Int} {candidates : List RoutingCandidate}
    (h : ∃ c ∈ candidates, c.contextWindow = none) :
    eligibleFor needed candidates = .error .typeError := by
  induction candidates with
  | nil => simp at h
  | cons c rest ih =>
    unfold eligibleFor
    cases hwindow : c.contextWindow with
    | none => rfl
    | some window =>
      have hrest : ∃ x ∈ rest, x.contextWindow = none := by
        obtain ⟨x, hx, hnone⟩ := h
        rcases List.mem_cons.mp hx with rfl | hx
        · rw [hwindow] at hnone
          cases hnone
        · exact ⟨x, hx, hnone⟩
      simp only [ih hrest]
      rfl

/-! ## The scores -/

theorem totalScore_eq {context : RoutingContext} {c : RoutingCandidate} {rules : List PolicyRule}
    {total : ℚ} (h : totalScore context c rules = some total) :
    total = (rules.map fun rule => (rule.scoreFn c context).getD 0).sum := by
  induction rules generalizing total with
  | nil =>
    cases h
    rfl
  | cons rule rest ih =>
    obtain ⟨score, hscore, h⟩ := Option.bind_eq_some_iff.mp h
    obtain ⟨more, hmore, h⟩ := Option.bind_eq_some_iff.mp h
    cases h
    rw [List.map_cons, List.sum_cons, hscore, ih hmore]
    rfl

theorem scoreCandidates_ok_iff (policy : RoutingPolicy) (context : RoutingContext)
    (candidates : List RoutingCandidate) (acc : Dict String ℚ × Dict String (List String)) :
    (∃ scored, scoreCandidates policy context candidates acc = .ok scored) ↔
      ∀ c ∈ candidates, candidateScore policy context c ≠ none := by
  induction candidates generalizing acc with
  | nil => exact iff_of_true ⟨acc, rfl⟩ (by simp)
  | cons c rest ih =>
    rw [List.forall_mem_cons]
    unfold scoreCandidates
    simp only
    cases hscore : candidateScore policy context c with
    | none => exact iff_of_false (fun ⟨_, hok⟩ => by cases hok) (by simp)
    | some total => exact (ih _).trans (by simp)

/-- Every candidate gets the sum of its scores and the names of the rules that apply. -/
theorem scoreCandidates_get? {policy : RoutingPolicy} {context : RoutingContext}
    {candidates : List RoutingCandidate} (hids : (candidates.map (·.backend.backendId)).Nodup)
    {acc scored : Dict String ℚ × Dict String (List String)}
    (h : scoreCandidates policy context candidates acc = .ok scored) :
    (∀ c ∈ candidates, scored.1.get? c.backend.backendId = some (scoreSum policy context c) ∧
      scored.2.get? c.backend.backendId =
        some ((policy.rules.filter (·.appliesTo context.taskType)).map (·.name))) ∧
    ∀ id, id ∉ candidates.map (·.backend.backendId) →
      scored.1.get? id = acc.1.get? id ∧ scored.2.get? id = acc.2.get? id := by
  induction candidates generalizing acc with
  | nil =>
    cases h
    simp
  | cons c rest ih =>
    rw [List.map_cons, List.nodup_cons] at hids
    unfold scoreCandidates at h
    simp only at h
    cases hscore : candidateScore policy context c with
    | none =>
      rw [hscore] at h
      cases h
    | some total =>
      rw [hscore] at h
      obtain ⟨hmem, hother⟩ := ih hids.2 h
      have htotal : total = scoreSum policy context c := totalScore_eq hscore
      constructor
      · intro x hx
        rcases List.mem_cons.mp hx with rfl | hx
        · rw [(hother _ hids.1).1, (hother _ hids.1).2, htotal]
          simp
        · exact hmem x hx
      · intro id hid
        rw [List.map_cons, List.mem_cons, not_or] at hid
        rw [(hother id hid.2).1, (hother id hid.2).2]
        simp [Dict.get?_set_of_ne, hid.1]

theorem candidateScore_isSome (policy : RoutingPolicy) (context : RoutingContext)
    (c : RoutingCandidate) :
    candidateScore policy context c ≠ none ↔ policy.Scores context c := by
  have htotal : ∀ rules : List PolicyRule, totalScore context c rules ≠ none ↔
      ∀ rule ∈ rules, rule.scoreFn c context ≠ none := by
    intro rules
    induction rules with
    | nil => simp [totalScore]
    | cons rule rest ih =>
      rw [List.forall_mem_cons, ← ih]
      have hcons : totalScore context c (rule :: rest) = (rule.scoreFn c context).bind
          fun score => (totalScore context c rest).bind fun more => some (score + more) := rfl
      rw [hcons]
      cases rule.scoreFn c context <;> cases totalScore context c rest <;> simp
  unfold candidateScore RoutingPolicy.Scores
  rw [htotal]
  simp only [List.mem_filter, and_imp]

/-! ## One decision -/

/-- A decision over these candidates: the argmax, and every candidate's sum and rules. -/
structure Decides (policy : RoutingPolicy) (context : RoutingContext)
    (eligible : List RoutingCandidate) (decision : RoutingDecision) : Prop where
  argmax : ∃ best, RoutingEngine.IsArgmax policy context eligible best ∧
    decision.backendId = best.backend.backendId
  scored : ∀ c ∈ eligible,
    decision.scores.get? c.backend.backendId = some (scoreSum policy context c) ∧
      decision.matchedRules.get? c.backend.backendId =
        some ((policy.rules.filter (·.appliesTo context.taskType)).map (·.name))
  unscored : ∀ id, id ∉ eligible.map (·.backend.backendId) →
    decision.scores.get? id = none ∧ decision.matchedRules.get? id = none

section

variable {policy : RoutingPolicy} {context : RoutingContext}
  {eligible eligible' : List RoutingCandidate}

/-- The argmax has one id, whatever the order. -/
theorem RoutingEngine.IsArgmax.id_eq {best best' : RoutingCandidate}
    (h : IsArgmax policy context eligible best) (h' : IsArgmax policy context eligible' best')
    (hmem : ∀ c, c ∈ eligible' ↔ c ∈ eligible) :
    best'.backend.backendId = best.backend.backendId := by
  rcases h.2 best' ((hmem best').mp h'.1) with hlt | ⟨heq, hle⟩
  · rcases h'.2 best ((hmem best).mpr h.1) with hgt | ⟨heq, _⟩
    · exact absurd hgt hlt.asymm
    · exact absurd heq hlt.ne'
  · rcases h'.2 best ((hmem best).mpr h.1) with hgt | ⟨_, hge⟩
    · exact absurd heq hgt.ne'
    · exact le_antisymm hge hle

theorem Decides.same {decision decision' : RoutingDecision}
    (h : Decides policy context eligible decision)
    (h' : Decides policy context eligible' decision')
    (hmem : ∀ c, c ∈ eligible' ↔ c ∈ eligible) : decision'.Same decision := by
  obtain ⟨best, hbest, hid⟩ := h.argmax
  obtain ⟨best', hbest', hid'⟩ := h'.argmax
  have hlookup : ∀ id, decision'.scores.get? id = decision.scores.get? id ∧
      decision'.matchedRules.get? id = decision.matchedRules.get? id := by
    intro id
    by_cases hin : id ∈ eligible.map (·.backend.backendId)
    · obtain ⟨c, hc, rfl⟩ := List.mem_map.mp hin
      have hold := h.scored c hc
      have hnew := h'.scored c ((hmem c).mpr hc)
      exact ⟨hnew.1.trans hold.1.symm, hnew.2.trans hold.2.symm⟩
    · have hout : id ∉ eligible'.map (·.backend.backendId) := by
        intro hin'
        obtain ⟨c, hc, hcid⟩ := List.mem_map.mp hin'
        exact hin (List.mem_map.mpr ⟨c, (hmem c).mp hc, hcid⟩)
      have hold := h.unscored id hin
      have hnew := h'.unscored id hout
      exact ⟨hnew.1.trans hold.1.symm, hnew.2.trans hold.2.symm⟩
  exact ⟨by rw [hid', hid, hbest.id_eq hbest' hmem], fun id => (hlookup id).1,
    fun id => (hlookup id).2⟩

end

namespace RoutingEngine

variable {router : RoutingEngine} {request : ChatCompletionRequest}
  {candidates : List RoutingCandidate} {sessionId : Option String}

/-- A null window raises `TypeError`. -/
theorem selectBackend_null (h : ∃ c ∈ candidates, c.contextWindow = none) :
    router.selectBackend request candidates sessionId = .error .typeError := by
  unfold selectBackend
  simp only [eligibleFor_null h]
  rfl

theorem selectBackend_refused (hwindows : ∀ c ∈ candidates, c.contextWindow ≠ none)
    (h : ∀ c ∈ candidates, c.hasWindow (neededWindow request) = false) :
    router.selectBackend request candidates sessionId =
      .error (.noWindow (neededWindow request)) := by
  have hnone : candidates.filter (·.hasWindow (neededWindow request)) = [] :=
    List.filter_eq_nil_iff.mpr fun c hc => by simp [h c hc]
  unfold selectBackend
  simp only [estimateTokenBudget_eq, eligibleFor_eq hwindows, hnone, Json.except_ok_bind]

/-- A score function that raises takes the call with it. -/
theorem selectBackend_raised (hwindows : ∀ c ∈ candidates, c.contextWindow ≠ none)
    {c : RoutingCandidate} (hc : c ∈ candidates)
    (hwindow : c.hasWindow (neededWindow request) = true)
    (hscores : ¬ router.policy.Scores ⟨request.taskType, neededWindow request⟩ c) :
    ¬ ∃ result, router.selectBackend request candidates sessionId = .ok result := by
  rintro ⟨⟨decision, router'⟩, h⟩
  obtain ⟨first, rest, scored, heligible, hscored, _⟩ := selectBackend_ok h
  rw [estimateTokenBudget_eq] at heligible hscored
  rw [eligibleFor_eq hwindows] at heligible
  have hall := (scoreCandidates_ok_iff _ _ _ _).mp ⟨scored, hscored⟩
  rw [← Except.ok.inj heligible] at hall
  have hin : c ∈ candidates.filter (·.hasWindow (neededWindow request)) :=
    List.mem_filter.mpr ⟨hc, hwindow⟩
  exact hscores ((candidateScore_isSome _ _ c).mp (hall c hin))

/-- A call on candidates of which one has the window. -/
theorem selectBackend_decides (hids : (candidates.map (·.backend.backendId)).Nodup)
    (hunbound : router.Unbound request candidates sessionId)
    (hwindows : ∀ c ∈ candidates, c.contextWindow ≠ none)
    (hscores : ∀ c ∈ candidates, c.hasWindow (neededWindow request) = true →
      router.policy.Scores ⟨request.taskType, neededWindow request⟩ c)
    (hsome : ∃ c ∈ candidates, c.hasWindow (neededWindow request) = true) :
    ∃ decision, router.selectBackend request candidates sessionId =
        .ok (decision, router.assign sessionId decision.backendId) ∧
      Decides router.policy ⟨request.taskType, neededWindow request⟩
        (candidates.filter (·.hasWindow (neededWindow request))) decision := by
  have heligible : eligibleFor (neededWindow request) candidates = _ := eligibleFor_eq hwindows
  have hmem : ∀ c ∈ candidates.filter (·.hasWindow (neededWindow request)),
      c ∈ candidates ∧ c.hasWindow (neededWindow request) = true :=
    fun c hc => List.mem_filter.mp hc
  have hnodup : ((candidates.filter (·.hasWindow (neededWindow request))).map
      (·.backend.backendId)).Nodup :=
    List.Nodup.sublist (List.filter_sublist.map _) hids
  cases hlist : candidates.filter (·.hasWindow (neededWindow request)) with
  | nil =>
    obtain ⟨c, hc, hwindow⟩ := hsome
    exact absurd hwindow (List.filter_eq_nil_iff.mp hlist c hc)
  | cons first rest =>
    rw [hlist] at heligible hmem hnodup
    have hall : ∀ c ∈ first :: rest,
        candidateScore router.policy ⟨request.taskType, neededWindow request⟩ c ≠ none :=
      fun c hc => (candidateScore_isSome _ _ c).mpr (hscores c (hmem c hc).1 (hmem c hc).2)
    obtain ⟨scored, hscored⟩ := (scoreCandidates_ok_iff _ _ _ (.empty, .empty)).mpr hall
    obtain ⟨hin, hout⟩ := scoreCandidates_get? hnodup hscored
    -- the assigned backend, if there is one, has no score
    have hsticky : (router.stickyBackendFor sessionId).filter (scored.1.contains ·) = none := by
      rw [Option.filter_eq_none_iff]
      intro sticky hassigned hcontains
      obtain hempty | ⟨c, hc, hid⟩ := (scoreCandidates_keys hscored sticky).mp hcontains
      · simp [Dict.contains] at hempty
      · exact hunbound sticky hassigned c (hmem c hc).1 (hmem c hc).2 hid
    refine ⟨⟨(bestRanked scored.1 first rest).backend.backendId, scored.1, scored.2⟩, ?_, ?_⟩
    · unfold selectBackend
      simp only [estimateTokenBudget_eq, heligible, hscored, choose, hsticky,
        Json.except_ok_bind]
      rfl
    · refine ⟨⟨_, ⟨bestRanked_mem scored.1 first rest, ?_⟩, rfl⟩, hin, hout⟩
      intro c hc
      have hfirst := bestRanked_first scored.1 first rest c hc
      rw [rankedBefore_eq_false, (hin c hc).1,
        (hin _ (bestRanked_mem scored.1 first rest)).1] at hfirst
      exact hfirst

/-- Without a usable assignment, `select_backend` picks the argmax exactly where every window is
an integer and the rules score every candidate with the window. -/
theorem picks_argmax_iff (router : RoutingEngine) (request : ChatCompletionRequest)
    (candidates : List RoutingCandidate) (sessionId : Option String)
    (hids : (candidates.map (·.backend.backendId)).Nodup)
    (hunbound : router.Unbound request candidates sessionId) :
    router.PicksArgmax request candidates sessionId ↔
      (∀ c ∈ candidates, c.contextWindow ≠ none) ∧
        ∀ c ∈ candidates, c.hasWindow (neededWindow request) = true →
          router.policy.Scores ⟨request.taskType, neededWindow request⟩ c := by
  constructor
  · intro h
    have hwindows : ∀ c ∈ candidates, c.contextWindow ≠ none := by
      intro c hc hnull
      have hraises : router.selectBackend request candidates sessionId = .error .typeError :=
        selectBackend_null ⟨c, hc, hnull⟩
      by_cases hsome : ∃ c ∈ candidates, c.hasWindow (neededWindow request) = true
      · obtain ⟨decision, router', _, hok, _⟩ := h.picked hsome
        rw [hraises] at hok
        cases hok
      · have hrefused := h.refused.mpr fun c hc =>
          Bool.eq_false_of_not_eq_true fun hwindow => hsome ⟨c, hc, hwindow⟩
        rw [hraises] at hrefused
        cases hrefused
    refine ⟨hwindows, fun c hc hwindow => ?_⟩
    by_contra hscores
    obtain ⟨decision, router', _, hok, _⟩ := h.picked ⟨c, hc, hwindow⟩
    exact selectBackend_raised hwindows hc hwindow hscores ⟨_, hok⟩
  · rintro ⟨hwindows, hscores⟩
    have hdecides := selectBackend_decides hids hunbound hwindows hscores
    refine ⟨⟨?_, selectBackend_refused hwindows⟩, ?_, ?_⟩
    · intro hrefused c hc
      by_contra hwindow
      obtain ⟨decision, hok, _⟩ := hdecides ⟨c, hc, Bool.eq_true_of_not_eq_false hwindow⟩
      rw [hrefused] at hok
      cases hok
    · intro hsome
      obtain ⟨decision, hok, hdecision⟩ := hdecides hsome
      obtain ⟨best, hbest, hid⟩ := hdecision.argmax
      exact ⟨decision, _, best, hok, hbest, hid⟩
    · intro decision router' hok others hperm
      have hothers : ∀ c, c ∈ others ↔ c ∈ candidates := fun c => hperm.mem_iff
      have hsome : ∃ c ∈ candidates, c.hasWindow (neededWindow request) = true := by
        by_contra hnone
        have hrefused : router.selectBackend request candidates sessionId = _ :=
          selectBackend_refused hwindows fun c hc =>
            Bool.eq_false_of_not_eq_true fun hwindow => hnone ⟨c, hc, hwindow⟩
        rw [hok] at hrefused
        cases hrefused
      obtain ⟨decision₀, hok₀, hdecision⟩ := hdecides hsome
      rw [hok] at hok₀
      cases hok₀
      have hunbound' : router.Unbound request others sessionId :=
        fun sticky hassigned c hc => hunbound sticky hassigned c ((hothers c).mp hc)
      obtain ⟨decision', hok', hdecision'⟩ := selectBackend_decides
        ((hperm.map _).nodup_iff.mpr hids) hunbound'
        (fun c hc => hwindows c ((hothers c).mp hc))
        (fun c hc => hscores c ((hothers c).mp hc))
        (hsome.imp fun c hc => ⟨(hothers c).mpr hc.1, hc.2⟩)
      have hsame := hdecision.same hdecision' fun c => by
        rw [List.mem_filter, List.mem_filter, hothers c]
      rw [hsame.backendId] at hok'
      exact ⟨decision', hok', hsame⟩

/-- The engine that prefers the lower latency. -/
private def lowLatency : RoutingEngine :=
  ⟨⟨[{ name := "prefer-lower-latency", scoreFn := fun c _ => some (-c.latencyMs) }]⟩, true, .empty⟩

private def candidate (id : String) (latencyMs : ℚ) (window : Option Int) : RoutingCandidate :=
  ⟨⟨id, ⟨some "ollama", window, some "", none, none, none, none, none⟩, true⟩, latencyMs, window⟩

private def hello : ChatCompletionRequest := { model := "m", messages := [⟨"user", "hello"⟩] }

private theorem hello_window : neededWindow hello = 2 :=
  (estimateTokenBudget_eq hello).symm.trans rfl

/-- Five characters need two tokens, which both candidates have. -/
theorem picks_argmax_iff_pair : lowLatency.PicksArgmax hello
    [candidate "b" 5 (some 2), candidate "a" 5 (some 4096)] none := by
  refine (picks_argmax_iff lowLatency hello _ none (by decide) ?_).mpr ⟨?_, ?_⟩
  · intro sticky hassigned
    cases hassigned
  · simp [candidate]
  · intro c _ _ rule hrule _
    cases List.mem_singleton.mp hrule
    exact Option.some_ne_none _

/-- A registration changed to `context_window: null` takes every request of its model. -/
theorem null_window_raises :
    ([candidate "a" 5 (some 4096), candidate "b" 5 none].map (·.backend.backendId)).Nodup ∧
    lowLatency.Unbound hello [candidate "a" 5 (some 4096), candidate "b" 5 none] none ∧
    (candidate "a" 5 (some 4096)).hasWindow (neededWindow hello) = true ∧
    lowLatency.selectBackend hello [candidate "a" 5 (some 4096), candidate "b" 5 none] none =
      .error .typeError ∧
    ¬ lowLatency.PicksArgmax hello [candidate "a" 5 (some 4096), candidate "b" 5 none] none := by
  have hwindow : (candidate "a" 5 (some 4096)).hasWindow (neededWindow hello) = true := by
    rw [hello_window]
    rfl
  have hraises : lowLatency.selectBackend hello
      [candidate "a" 5 (some 4096), candidate "b" 5 none] none = .error .typeError :=
    selectBackend_null ⟨candidate "b" 5 none, by simp, rfl⟩
  refine ⟨by decide, ?_, hwindow, hraises, ?_⟩
  · intro sticky hassigned
    cases hassigned
  intro h
  obtain ⟨decision, router', _, hok, _⟩ := h.picked ⟨_, List.mem_cons_self, hwindow⟩
  rw [hraises] at hok
  cases hok

end RoutingEngine

end LlmHomeLab
