import LlmHomeLab.Registry.HostRegistry

/-! # Routing

`routing/models.py` and `routing/engine.py`. Scores and latencies are rational numbers.
-/

namespace LlmHomeLab

/-! ## Data -/

structure Message where
  role : String
  content : String
deriving DecidableEq, Repr

/-- The fields of `ChatCompletionRequest` the gateway reads; the generation parameters go to
the backend as they are. -/
structure ChatCompletionRequest where
  model : String
  messages : List Message
  stream : Bool := false
  sessionId : Option String := none
  taskType : Option String := none
deriving DecidableEq, Repr

/-- A backend object: the id it is known by, the capabilities it was built from, and whether
it has a `list_models`. -/
structure Backend where
  backendId : String
  capabilities : HostCapabilities
  hasListModels : Bool

structure RoutingCandidate where
  backend : Backend
  latencyMs : ℚ
  contextWindow : Option Int

structure RoutingContext where
  taskType : Option String
  tokenBudget : Int

/-- `scoreFn` gives none where it raises. -/
structure PolicyRule where
  name : String
  scoreFn : RoutingCandidate → RoutingContext → Option ℚ
  taskType : Option String := none

structure RoutingPolicy where
  rules : List PolicyRule := []

structure RoutingDecision where
  backendId : String
  scores : Dict String ℚ
  matchedRules : Dict String (List String)

/-- What `select_backend` raises: no candidate has the window, a window is null, or a rule's
score function raises. -/
inductive RoutingError where
  | noWindow (tokenBudget : Int)
  | typeError
  | scoreRaised
deriving DecidableEq, Repr

structure RoutingEngine where
  policy : RoutingPolicy
  stickySessionsEnabled : Bool := true
  stickyAssignments : Dict String String := .empty

/-! ## Operations -/

def PolicyRule.appliesTo (rule : PolicyRule) (taskType : Option String) : Bool :=
  rule.taskType.isNone || rule.taskType = taskType

/-- A quarter of the characters, rounded up. -/
def estimateTokenBudget (request : ChatCompletionRequest) : Int :=
  let totalChars := (request.messages.map fun message => message.content.length).sum
  ((totalChars + 3) / 4 : Nat)

/-- The candidates with a large enough context window. -/
def eligibleFor (tokenBudget : Int) :
    List RoutingCandidate → Except RoutingError (List RoutingCandidate)
  | [] => .ok []
  | c :: rest =>
    match c.contextWindow with
    | none => .error .typeError
    | some window => do
      let others ← eligibleFor tokenBudget rest
      return if tokenBudget ≤ window then c :: others else others

/-- The sum of the scores the rules give, unless one of them raises. -/
def totalScore (context : RoutingContext) (c : RoutingCandidate) : List PolicyRule → Option ℚ
  | [] => some 0
  | rule :: rest => do
    let score ← rule.scoreFn c context
    return score + (← totalScore context c rest)

def candidateScore (policy : RoutingPolicy) (context : RoutingContext) (c : RoutingCandidate) :
    Option ℚ :=
  totalScore context c (policy.rules.filter (·.appliesTo context.taskType))

/-- `_score_candidates`. -/
def scoreCandidates (policy : RoutingPolicy) (context : RoutingContext) :
    List RoutingCandidate → Dict String ℚ × Dict String (List String) →
      Except RoutingError (Dict String ℚ × Dict String (List String))
  | [], acc => .ok acc
  | c :: rest, (scores, matchedRules) =>
    let matched := (policy.rules.filter (·.appliesTo context.taskType)).map (·.name)
    match candidateScore policy context c with
    | none => .error .scoreRaised
    | some total =>
      scoreCandidates policy context rest
        (scores.set c.backend.backendId total, matchedRules.set c.backend.backendId matched)

/-- `(-scores[a], a) < (-scores[b], b)`. -/
def rankedBefore (scores : Dict String ℚ) (a b : String) : Bool :=
  let scoreA := (scores.get? a).getD 0
  let scoreB := (scores.get? b).getD 0
  scoreB < scoreA || (scoreA = scoreB && a < b)

/-- `min` by that key: the first of the least candidates. -/
def bestRanked (scores : Dict String ℚ) (best : RoutingCandidate) :
    List RoutingCandidate → RoutingCandidate
  | [] => best
  | c :: rest =>
    bestRanked scores
      (if rankedBefore scores c.backend.backendId best.backend.backendId then c else best) rest

namespace RoutingEngine

/-- The assignment a session is bound to, where sessions stick. -/
def stickyBackendFor (router : RoutingEngine) (sessionId : Option String) : Option String :=
  if router.stickySessionsEnabled then sessionId.bind router.stickyAssignments.get? else none

/-- Bind a session that has no assignment yet. -/
def assign (router : RoutingEngine) (sessionId : Option String) (backendId : String) :
    RoutingEngine :=
  match sessionId with
  | some sessionId =>
    if router.stickySessionsEnabled && !router.stickyAssignments.contains sessionId then
      { router with stickyAssignments := router.stickyAssignments.set sessionId backendId }
    else router
  | none => router

/-- The choice among the eligible candidates, of which there is a first one. -/
def choose (router : RoutingEngine) (scored : Dict String ℚ × Dict String (List String))
    (sessionId : Option String) (first : RoutingCandidate) (rest : List RoutingCandidate) :
    RoutingDecision × RoutingEngine :=
  match (router.stickyBackendFor sessionId).filter (scored.1.contains ·) with
  | some sticky => (⟨sticky, scored.1, scored.2⟩, router)
  | none =>
    let winner := (bestRanked scored.1 first rest).backend.backendId
    (⟨winner, scored.1, scored.2⟩, router.assign sessionId winner)

def selectBackend (router : RoutingEngine) (request : ChatCompletionRequest)
    (candidates : List RoutingCandidate) (sessionId : Option String) :
    Except RoutingError (RoutingDecision × RoutingEngine) := do
  let tokenBudget := estimateTokenBudget request
  match ← eligibleFor tokenBudget candidates with
  | [] => .error (.noWindow tokenBudget)
  | first :: rest =>
    let scored ← scoreCandidates router.policy ⟨request.taskType, tokenBudget⟩ (first :: rest)
      (.empty, .empty)
    return router.choose scored sessionId first rest

/-! ## The backend selected is a candidate -/

theorem eligibleFor_subset {tokenBudget : Int} {candidates eligible : List RoutingCandidate}
    (h : eligibleFor tokenBudget candidates = .ok eligible) : ∀ c ∈ eligible, c ∈ candidates := by
  induction candidates generalizing eligible with
  | nil =>
    cases h
    simp
  | cons c rest ih =>
    unfold eligibleFor at h
    split at h
    · cases h
    · obtain ⟨others, hothers, h⟩ := Json.except_bind_ok h
      cases h
      intro x hx
      split at hx
      · rcases List.mem_cons.mp hx with rfl | hx
        · exact List.mem_cons_self
        · exact List.mem_cons_of_mem _ (ih hothers x hx)
      · exact List.mem_cons_of_mem _ (ih hothers x hx)

theorem scoreCandidates_keys {policy : RoutingPolicy} {context : RoutingContext}
    {candidates : List RoutingCandidate} {acc scored : Dict String ℚ × Dict String (List String)}
    (h : scoreCandidates policy context candidates acc = .ok scored) (id : String) :
    scored.1.contains id = true ↔
      acc.1.contains id = true ∨ ∃ c ∈ candidates, c.backend.backendId = id := by
  induction candidates generalizing acc with
  | nil =>
    cases h
    simp
  | cons c rest ih =>
    rcases acc with ⟨scores, matchedRules⟩
    unfold scoreCandidates at h
    simp only at h
    split at h
    · cases h
    · rw [ih h, Dict.contains_set_iff]
      simp only [List.mem_cons, exists_eq_or_imp]
      rw [or_assoc, or_left_comm, @eq_comm _ id]

theorem bestRanked_mem (scores : Dict String ℚ) (best : RoutingCandidate)
    (candidates : List RoutingCandidate) :
    bestRanked scores best candidates ∈ best :: candidates := by
  induction candidates generalizing best with
  | nil => simp [bestRanked]
  | cons c rest ih =>
    have := ih (if rankedBefore scores c.backend.backendId best.backend.backendId then c else best)
    unfold bestRanked
    rcases List.mem_cons.mp this with heq | hmem
    · rw [heq]
      split
      · exact List.mem_cons_of_mem _ List.mem_cons_self
      · exact List.mem_cons_self
    · exact List.mem_cons_of_mem _ (List.mem_cons_of_mem _ hmem)

theorem choose_mem {router : RoutingEngine} {context : RoutingContext} {first : RoutingCandidate}
    {rest : List RoutingCandidate} {scored : Dict String ℚ × Dict String (List String)}
    (h : scoreCandidates router.policy context (first :: rest) (.empty, .empty) = .ok scored)
    (sessionId : Option String) :
    ∃ c ∈ first :: rest,
      c.backend.backendId = (router.choose scored sessionId first rest).1.backendId := by
  simp only [choose]
  split
  · next sticky hsticky =>
    rcases Option.filter_eq_some_iff.mp hsticky with ⟨_, hcontains⟩
    rcases (scoreCandidates_keys h sticky).mp hcontains with hempty | hc
    · simp [Dict.contains] at hempty
    · exact hc
  · exact ⟨_, bestRanked_mem _ first rest, rfl⟩

/-- Everything `select_backend` does where it does not raise. -/
theorem selectBackend_ok {router router' : RoutingEngine} {request : ChatCompletionRequest}
    {candidates : List RoutingCandidate} {sessionId : Option String} {decision : RoutingDecision}
    (h : router.selectBackend request candidates sessionId = .ok (decision, router')) :
    ∃ first rest scored, eligibleFor (estimateTokenBudget request) candidates = .ok (first :: rest) ∧
      scoreCandidates router.policy ⟨request.taskType, estimateTokenBudget request⟩ (first :: rest)
        (.empty, .empty) = .ok scored ∧
      router.choose scored sessionId first rest = (decision, router') := by
  rcases Json.except_bind_ok h with ⟨eligible, heligible, h⟩
  split at h
  · cases h
  · next first rest =>
    rcases Json.except_bind_ok h with ⟨scored, hscored, h⟩
    exact ⟨first, rest, scored, heligible, hscored, Except.ok.inj h⟩

/-- Sticky or not, the backend selected is one of the candidates. -/
theorem selectBackend_mem {router router' : RoutingEngine} {request : ChatCompletionRequest}
    {candidates : List RoutingCandidate} {sessionId : Option String} {decision : RoutingDecision}
    (h : router.selectBackend request candidates sessionId = .ok (decision, router')) :
    ∃ c ∈ candidates, c.backend.backendId = decision.backendId := by
  rcases selectBackend_ok h with ⟨first, rest, scored, heligible, hscored, hchoice⟩
  rcases choose_mem hscored sessionId with ⟨c, hc, hid⟩
  rw [hchoice] at hid
  exact ⟨c, eligibleFor_subset heligible c hc, hid⟩

theorem assign_policy {router : RoutingEngine} (id : Option String) (backendId : String) :
    (router.assign id backendId).policy = router.policy ∧
      (router.assign id backendId).stickySessionsEnabled = router.stickySessionsEnabled := by
  unfold assign
  split
  · split <;> exact ⟨rfl, rfl⟩
  · exact ⟨rfl, rfl⟩

theorem selectBackend_policy {router router' : RoutingEngine} {request : ChatCompletionRequest}
    {candidates : List RoutingCandidate} {sessionId : Option String} {decision : RoutingDecision}
    (h : router.selectBackend request candidates sessionId = .ok (decision, router')) :
    router'.policy = router.policy := by
  rcases selectBackend_ok h with ⟨first, rest, scored, -, -, hchoice⟩
  unfold choose at hchoice
  split at hchoice
  · cases hchoice
    rfl
  · cases hchoice
    exact (assign_policy sessionId _).1

end RoutingEngine

end LlmHomeLab
