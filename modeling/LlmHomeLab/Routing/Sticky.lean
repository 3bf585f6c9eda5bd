import LlmHomeLab.Routing.Engine

/-! # Sticky sessions

Runs of `select_backend` on one engine. The assignment of a session is written once, by its
first successful call; later calls read it, and fall back on the best candidate where it is not
eligible.
-/

namespace LlmHomeLab

/-! ## The best candidate -/

section

variable {scores : Dict String ℚ} {a b c : String}

/-- `a` does not come before `b`: its score is less, or the scores tie and `b` is the lesser id. -/
theorem rankedBefore_eq_false :
    rankedBefore scores a b = false ↔
      (scores.get? a).getD 0 < (scores.get? b).getD 0 ∨
        (scores.get? a).getD 0 = (scores.get? b).getD 0 ∧ b ≤ a := by
  simp only [rankedBefore, Bool.or_eq_false_iff, decide_eq_false_iff_not, not_lt,
    Bool.and_eq_false_imp, decide_eq_true_eq]
  constructor
  · rintro ⟨hle, hid⟩
    rcases lt_or_eq_of_le hle with hlt | heq
    · exact Or.inl hlt
    · exact Or.inr ⟨heq, hid heq⟩
  · rintro (hlt | ⟨heq, hid⟩)
    · exact ⟨hlt.le, fun heq => absurd heq hlt.ne⟩
    · exact ⟨heq.le, fun _ => hid⟩

theorem not_rankedBefore_trans (hab : rankedBefore scores a b = false)
    (hbc : rankedBefore scores b c = false) : rankedBefore scores a c = false := by
  rw [rankedBefore_eq_false] at hab hbc ⊢
  rcases hab with hab | ⟨hab, hba⟩
  · rcases hbc with hbc | ⟨hbc, _⟩
    · exact Or.inl (hab.trans hbc)
    · exact Or.inl (hab.trans_eq hbc)
  · rcases hbc with hbc | ⟨hbc, hcb⟩
    · exact Or.inl (hab.trans_lt hbc)
    · exact Or.inr ⟨hab.trans hbc, hcb.trans hba⟩

theorem not_rankedBefore_of_rankedBefore (h : rankedBefore scores a b = true) :
    rankedBefore scores b a = false := by
  rw [rankedBefore_eq_false]
  simp only [rankedBefore, Bool.or_eq_true, decide_eq_true_eq, Bool.and_eq_true] at h
  rcases h with hlt | ⟨heq, hid⟩
  · exact Or.inl hlt
  · exact Or.inr ⟨heq.symm, hid.le⟩

/-- No candidate comes before the best one. -/
theorem bestRanked_first (scores : Dict String ℚ) (best : RoutingCandidate)
    (candidates : List RoutingCandidate) :
    ∀ x ∈ best :: candidates, rankedBefore scores x.backend.backendId
      (bestRanked scores best candidates).backend.backendId = false := by
  induction candidates generalizing best with
  | nil =>
    intro x hx
    rw [List.mem_singleton.mp hx, rankedBefore_eq_false]
    exact Or.inr ⟨rfl, le_refl _⟩
  | cons c rest ih =>
    intro x hx
    unfold bestRanked
    by_cases hc : rankedBefore scores c.backend.backendId best.backend.backendId = true
    · rw [if_pos hc]
      rcases List.mem_cons.mp hx with heq | hx
      · -- the old best comes after the new one
        subst heq
        have hbest := not_rankedBefore_of_rankedBefore hc
        exact not_rankedBefore_trans hbest (ih c c List.mem_cons_self)
      · exact ih c x hx
    · rw [if_neg hc]
      rcases List.mem_cons.mp hx with heq | hx
      · subst heq
        exact ih x x List.mem_cons_self
      · rcases List.mem_cons.mp hx with heq | hx
        · subst heq
          have hcbest := Bool.eq_false_of_not_eq_true hc
          exact not_rankedBefore_trans hcbest (ih best best List.mem_cons_self)
        · exact ih best x (List.mem_cons_of_mem _ hx)

end

/-- `id` is the argmax of the scores over these candidates, the least id of them. -/
def IsWinner (scores : Dict String ℚ) (eligible : List RoutingCandidate) (id : String) : Prop :=
  (∃ c ∈ eligible, c.backend.backendId = id) ∧ ∃ top, scores.get? id = some top ∧
    ∀ c ∈ eligible, ∃ score, scores.get? c.backend.backendId = some score ∧
      (score < top ∨ score = top ∧ id ≤ c.backend.backendId)

namespace RoutingEngine

theorem isWinner_bestRanked {policy : RoutingPolicy} {context : RoutingContext}
    {first : RoutingCandidate} {rest : List RoutingCandidate}
    {scored : Dict String ℚ × Dict String (List String)}
    (h : scoreCandidates policy context (first :: rest) (.empty, .empty) = .ok scored) :
    IsWinner scored.1 (first :: rest) (bestRanked scored.1 first rest).backend.backendId := by
  have hscore : ∀ c ∈ first :: rest, ∃ score, scored.1.get? c.backend.backendId = some score := by
    intro c hc
    rw [← Dict.contains_iff, scoreCandidates_keys h]
    exact Or.inr ⟨c, hc, rfl⟩
  have hmem := bestRanked_mem scored.1 first rest
  rcases hscore _ hmem with ⟨top, htop⟩
  refine ⟨⟨_, hmem, rfl⟩, top, htop, ?_⟩
  intro c hc
  rcases hscore c hc with ⟨score, hs⟩
  have hfirst := bestRanked_first scored.1 first rest c hc
  rw [rankedBefore_eq_false, hs, htop] at hfirst
  exact ⟨score, hs, hfirst⟩

/-! ## One call -/

/-- A call of `select_backend`. -/
structure RoutingCall where
  request : ChatCompletionRequest
  candidates : List RoutingCandidate
  sessionId : Option String := none

variable {router : RoutingEngine} {call : RoutingCall} {calls : List RoutingCall}
  {sessionId : String}

/-- The decision, if the call does not raise, and the engine after it. -/
def answerTo (router : RoutingEngine) (call : RoutingCall) :
    Option RoutingDecision × RoutingEngine :=
  match router.selectBackend call.request call.candidates call.sessionId with
  | .ok (decision, router) => (some decision, router)
  | .error _ => (none, router)

/-- The candidates whose window is large enough for the request. -/
def eligibleOf (call : RoutingCall) : List RoutingCandidate :=
  (eligibleFor (estimateTokenBudget call.request) call.candidates).toOption.getD []

/-- What a successful call has computed: its scores, and the assigned backend where that is
eligible, else the argmax. -/
structure Answers (router : RoutingEngine) (call : RoutingCall) (decision : RoutingDecision) :
    Prop where
  scored : scoreCandidates router.policy
    ⟨call.request.taskType, estimateTokenBudget call.request⟩ (eligibleOf call) (.empty, .empty) =
      .ok (decision.scores, decision.matchedRules)
  assigned : ∀ backendId, router.stickyBackendFor call.sessionId = some backendId →
    (∃ c ∈ eligibleOf call, c.backend.backendId = backendId) → decision.backendId = backendId
  argmax : (∀ backendId, router.stickyBackendFor call.sessionId = some backendId →
    ¬ ∃ c ∈ eligibleOf call, c.backend.backendId = backendId) →
      IsWinner decision.scores (eligibleOf call) decision.backendId

theorem stickyAssignments_assign (h : router.stickySessionsEnabled = true) (id : Option String)
    (backendId : String) :
    (router.assign id backendId).stickyAssignments.get? sessionId =
      if id = some sessionId then
        some ((router.stickyAssignments.get? sessionId).getD backendId)
      else router.stickyAssignments.get? sessionId := by
  unfold assign
  cases id with
  | none => simp
  | some id =>
    simp only [h, Bool.true_and, Option.some.injEq]
    cases hget : router.stickyAssignments.get? id with
    | none =>
      rw [if_pos (by simp [Dict.contains, hget]), Dict.get?_set]
      by_cases hid : id = sessionId
      · subst hid
        simp [hget]
      · rw [if_neg hid, if_neg (Ne.symm hid)]
    | some old =>
      rw [if_neg (by simp [Dict.contains, hget])]
      by_cases hid : id = sessionId
      · subst hid
        simp [hget]
      · rw [if_neg hid]

/-- What a call returns, and what it leaves of the engine. -/
theorem answerTo_cases (h : router.stickySessionsEnabled = true) (call : RoutingCall) :
    router.answerTo call = (none, router) ∨
      ∃ decision router', router.answerTo call = (some decision, router') ∧
        Answers router call decision ∧ router'.policy = router.policy ∧
        router'.stickySessionsEnabled = true ∧ ∀ sessionId,
          router'.stickyAssignments.get? sessionId =
            if call.sessionId = some sessionId then
              some ((router.stickyAssignments.get? sessionId).getD decision.backendId)
            else router.stickyAssignments.get? sessionId := by
  unfold answerTo
  split
  · next decision router' hselect =>
    refine Or.inr ⟨decision, router', rfl, ?_⟩
    rcases selectBackend_ok hselect with ⟨first, rest, scored, heligible, hscored, hchoice⟩
    have heq : eligibleOf call = first :: rest := by
      simp [eligibleOf, heligible, Except.toOption]
    have hcontains : ∀ backendId, scored.1.contains backendId = true ↔
        ∃ c ∈ eligibleOf call, c.backend.backendId = backendId := by
      intro backendId
      rw [scoreCandidates_keys hscored, heq]
      simp [Dict.contains]
    have hwinner := isWinner_bestRanked hscored
    rw [← heq] at hwinner
    have hpair : (scored.1, scored.2) = scored := rfl
    rw [← heq, ← hpair] at hscored
    unfold choose at hchoice
    cases hsticky : (router.stickyBackendFor call.sessionId).filter (scored.1.contains ·) with
    | some sticky =>
      rw [hsticky] at hchoice
      cases hchoice
      rcases Option.filter_eq_some_iff.mp hsticky with ⟨hassigned, hin⟩
      refine ⟨⟨hscored, ?_, ?_⟩, rfl, h, ?_⟩
      · intro backendId hbackend _
        rw [hassigned] at hbackend
        exact Option.some.inj hbackend
      · intro hno
        exact absurd ((hcontains sticky).mp hin) (hno sticky hassigned)
      · intro sessionId
        split
        · next hid =>
          have hget : router.stickyAssignments.get? sessionId = some sticky := by
            simpa [stickyBackendFor, h, hid] using hassigned
          rw [hget]
          rfl
        · rfl
    | none =>
      rw [hsticky] at hchoice
      cases hchoice
      refine ⟨⟨hscored, ?_, fun _ => hwinner⟩, (assign_policy _ _).1,
        (assign_policy _ _).2.trans h, fun sessionId => stickyAssignments_assign h _ _⟩
      intro backendId hbackend hin
      have hfilter := Option.filter_eq_none_iff.mp hsticky backendId hbackend
      exact absurd ((hcontains backendId).mpr hin) hfilter
  · exact Or.inl rfl

/-! ## A run of calls -/

/-- A new engine with sticky sessions. -/
def new (policy : RoutingPolicy) : RoutingEngine := { policy }

/-- The engine after these calls, raising or not. -/
def after (router : RoutingEngine) (calls : List RoutingCall) : RoutingEngine :=
  calls.foldl (fun router call => (router.answerTo call).2) router

/-- What a call returned to a session. -/
def returnedTo (sessionId : String) (router : RoutingEngine) (call : RoutingCall) : List String :=
  if call.sessionId = some sessionId then ((router.answerTo call).1.map (·.backendId)).toList
  else []

/-- The backends that a session's successful calls returned, in this order. -/
def choices (sessionId : String) : RoutingEngine → List RoutingCall → List String
  | _, [] => []
  | router, call :: rest =>
    returnedTo sessionId router call ++ choices sessionId (router.answerTo call).2 rest

theorem after_snoc :
    router.after (calls ++ [call]) = ((router.after calls).answerTo call).2 := by
  simp [after]

theorem choices_snoc : choices sessionId router (calls ++ [call]) =
    choices sessionId router calls ++ returnedTo sessionId (router.after calls) call := by
  induction calls generalizing router with
  | nil => simp [choices, after]
  | cons first rest ih =>
    rw [List.cons_append, choices, ih, choices, List.append_assoc]
    rfl

theorem after_enabled (h : router.stickySessionsEnabled = true) (calls : List RoutingCall) :
    (router.after calls).stickySessionsEnabled = true ∧
      (router.after calls).policy = router.policy := by
  induction calls using List.reverseRecOn with
  | nil => exact ⟨h, rfl⟩
  | append_singleton calls call ih =>
    rw [after_snoc]
    rcases answerTo_cases ih.1 call with heq | ⟨_, router', heq, _, hpolicy, henabled, _⟩
    · rw [heq]
      exact ih
    · rw [heq]
      exact ⟨henabled, hpolicy.trans ih.2⟩

/-- The assignment after one more call. -/
theorem stickyAssignments_answerTo (h : router.stickySessionsEnabled = true) :
    (router.answerTo call).2.stickyAssignments.get? sessionId =
      (router.stickyAssignments.get? sessionId).or (returnedTo sessionId router call).head? := by
  rcases answerTo_cases h call with heq | ⟨decision, router', heq, _, _, _, hget⟩
  · simp [heq, returnedTo]
  · rw [heq, hget sessionId, returnedTo, heq]
    split
    · cases router.stickyAssignments.get? sessionId <;> rfl
    · simp

/-- The assignment of a session is what its first successful call returned. -/
theorem stickyAssignments_after (policy : RoutingPolicy) (calls : List RoutingCall) :
    ((new policy).after calls).stickyAssignments.get? sessionId =
      (choices sessionId (new policy) calls).head? := by
  induction calls using List.reverseRecOn with
  | nil => rfl
  | append_singleton calls call ih =>
    rw [after_snoc, stickyAssignments_answerTo (after_enabled rfl calls).1, ih, choices_snoc,
      List.head?_append]

/-- What a call returns after any run: no exception, then what `Answers` says. -/
theorem answers_after (policy : RoutingPolicy) (calls : List RoutingCall)
    {decision : RoutingDecision}
    (h : (((new policy).after calls).answerTo call).1 = some decision) :
    Answers ((new policy).after calls) call decision := by
  have henabled : ((new policy).after calls).stickySessionsEnabled = true :=
    (after_enabled rfl calls).1
  rcases answerTo_cases henabled call with heq | ⟨decision', router', heq, hanswers, _⟩
  · rw [heq] at h
    cases h
  · rw [heq] at h
    cases h
    exact hanswers

/-- After any run of calls, for any session and any next call: the assignment is the winner of
the session's first successful call and stays so over any further calls; a successful call
returns the assigned backend where that is eligible, and else the argmax; and a call that
raises or is not the session's leaves the assignment alone. -/
theorem sticky_sessions (policy : RoutingPolicy) (calls : List RoutingCall) (call : RoutingCall)
    (sessionId : String) :
    let router := (new policy).after calls
    let assigned := router.stickyAssignments.get? sessionId
    assigned = (choices sessionId (new policy) calls).head? ∧
    (∀ backendId, assigned = some backendId → ∀ more,
      ((new policy).after (calls ++ more)).stickyAssignments.get? sessionId = some backendId) ∧
    (∀ decision, (router.answerTo call).1 = some decision →
      scoreCandidates policy ⟨call.request.taskType, estimateTokenBudget call.request⟩
          (eligibleOf call) (.empty, .empty) = .ok (decision.scores, decision.matchedRules) ∧
      (call.sessionId = some sessionId → ∀ backendId, assigned = some backendId →
        (∃ c ∈ eligibleOf call, c.backend.backendId = backendId) →
          decision.backendId = backendId) ∧
      (call.sessionId = some sessionId → (∀ backendId, assigned = some backendId →
        ¬ ∃ c ∈ eligibleOf call, c.backend.backendId = backendId) →
          IsWinner decision.scores (eligibleOf call) decision.backendId) ∧
      (call.sessionId = none →
        IsWinner decision.scores (eligibleOf call) decision.backendId)) ∧
    ((router.answerTo call).1 = none ∨ call.sessionId ≠ some sessionId →
      (router.answerTo call).2.stickyAssignments.get? sessionId = assigned) := by
  intro router assigned
  have henabled : ((new policy).after calls).stickySessionsEnabled = true :=
    (after_enabled rfl calls).1
  have hfirst : assigned = (choices sessionId (new policy) calls).head? :=
    stickyAssignments_after policy calls
  have hsticky : call.sessionId = some sessionId →
      router.stickyBackendFor call.sessionId = assigned := by
    intro hid
    simp [stickyBackendFor, router, henabled, hid, assigned]
  refine ⟨hfirst, ?_, ?_, ?_⟩
  · intro backendId hassigned more
    induction more using List.reverseRecOn with
    | nil =>
      rw [List.append_nil]
      exact hassigned
    | append_singleton more last ih =>
      rw [← List.append_assoc, after_snoc,
        stickyAssignments_answerTo (after_enabled rfl (calls ++ more)).1, ih]
      rfl
  · intro decision hdecision
    have hanswers := answers_after policy calls hdecision
    have hscored := hanswers.scored
    have hpolicy : ((new policy).after calls).policy = (new policy).policy :=
      (after_enabled rfl calls).2
    rw [hpolicy] at hscored
    refine ⟨hscored, ?_, ?_, ?_⟩
    · intro hid backendId hassigned hin
      exact hanswers.assigned backendId ((hsticky hid).trans hassigned) hin
    · intro hid hno
      refine hanswers.argmax fun backendId hassigned => hno backendId ?_
      rw [← hsticky hid]
      exact hassigned
    · intro hid
      refine hanswers.argmax fun backendId hassigned => ?_
      simp [stickyBackendFor, hid] at hassigned
  · intro hother
    rw [stickyAssignments_answerTo henabled]
    rcases hother with hraised | hid
    · simp [returnedTo, router, assigned, hraised]
    · simp [returnedTo, router, assigned, hid]

end RoutingEngine

end LlmHomeLab
