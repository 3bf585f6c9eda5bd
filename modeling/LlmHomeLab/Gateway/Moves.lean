import LlmHomeLab.Gateway.Chat

/-! # What a chat request can do between two suspensions

`Moves` says everything a run of `begin` or `resume` can do to the registry, the queue and the
lease book, and what must have held for it. The results about runs of the gateway are case
analyses over it and do not look at the code again.
-/

namespace LlmHomeLab

/-! ## Stages of a request -/

/-- A request has no slot yet, holds one on a host, or is done with it. -/
inductive Stage where
  | before
  | holding (hostId : String)
  | over
deriving DecidableEq, Repr

def Phase.stage : Phase → Stage
  | .arrived => .before
  | .discovering _ _ => .before
  | .waiting _ => .before
  | .completing hostId _ => .holding hostId
  | .streaming _ .finishing => .over
  | .streaming hostId _ => .holding hostId
  | .ended _ => .over

/-- The model hosts of a request in the wait loop. -/
def Phase.waitingHosts : Phase → Option (List Nat)
  | .waiting w => some w.modelHosts
  | _ => none

/-- The host records a request holds on to. -/
def Request.captured (req : Request) : List Nat :=
  match req.phase with
  | .arrived => req.snapshot
  | .discovering ref d => ref :: (d.pending ++ d.capable)
  | .waiting w => w.modelHosts
  | _ => []

theorem captured_of_not_before {req : Request} (h : req.phase.stage ≠ .before) :
    req.captured = [] := by
  unfold Request.captured
  cases hp : req.phase <;> simp_all [Phase.stage]

theorem waitingHosts_of_not_before {phase : Phase} (h : phase.stage ≠ .before) :
    phase.waitingHosts = none := by
  cases phase <;> simp_all [Phase.stage, Phase.waitingHosts]

/-! ## Moves -/

/-- What happens to the slot. -/
inductive SlotMove (reg : HostRegistry) (req : Request) : HostRegistry → Request → Prop
  | keep {req' : Request}
      (stage : req'.phase.stage = req.phase.stage ∨
        req.phase.stage = .before ∧ req'.phase.stage = .over)
      (slot : req'.slot = req.slot) (releases : req'.releases = req.releases) :
      SlotMove reg req reg req'
  | acquire {reg' : HostRegistry} {req' : Request} {hostId : String}
      (before : req.phase.stage = .before) (acquired : reg.acquireSlot hostId = some reg')
      (after : req'.phase.stage = .holding hostId) (slot : req'.slot = some hostId)
      (attempted : req'.attempted = some hostId) (releases : req'.releases = req.releases) :
      SlotMove reg req reg' req'
  /-- The slot is acquired and given back at once. -/
  | bounce {reg₁ reg' : HostRegistry} {req' : Request} {hostId : String}
      (before : req.phase.stage = .before) (acquired : reg.acquireSlot hostId = some reg₁)
      (released : reg₁.releaseSlot hostId = some reg')
      (after : req'.phase.stage = .over) (slot : req'.slot = some hostId)
      (attempted : req'.attempted = some hostId) (releases : req'.releases = req.releases ++ [true]) :
      SlotMove reg req reg' req'
  | release {reg' : HostRegistry} {req' : Request} {hostId : String}
      (before : req.phase.stage = .holding hostId) (released : reg.releaseSlot hostId = some reg')
      (after : req'.phase.stage = .over) (slot : req'.slot = req.slot)
      (releases : req'.releases = req.releases ++ [true]) : SlotMove reg req reg' req'
  /-- `release_slot` raises: the host is not registered any more. -/
  | releaseRaises {req' : Request} {hostId : String}
      (before : req.phase.stage = .holding hostId) (released : reg.releaseSlot hostId = none)
      (after : req'.phase.stage = .over) (slot : req'.slot = req.slot)
      (releases : req'.releases = req.releases ++ [false]) : SlotMove reg req reg req'

/-- The queue of the wait loop before its `finally`: as it was, with the request just put in,
or with the request taken from the front of a deque. -/
inductive LoopEnd (requestId : String) (req : Request) (q : SchedulingQueue Waiter) :
    SchedulingQueue Waiter → Prop
  | same : LoopEnd requestId req q q
  | entered (modelHosts : List Nat) : LoopEnd requestId req q
      (q.enqueue requestId (req.queueSessionId requestId) 0 req.arrivedAt
        (some ⟨req.token, modelHosts⟩))
  | taken {priority : Int} {sessionId : String} {entry : QueueEntry} {rest : List QueueEntry}
      (head : (q.tier priority).get? sessionId = some (entry :: rest))
      (own : entry.requestId = requestId) :
      LoopEnd requestId req q (q.popHead priority sessionId entry)

/-- What happens to the queue. -/
inductive QueueMove (requestId : String) (q : SchedulingQueue Waiter) (req : Request) :
    SchedulingQueue Waiter → Request → Prop
  | keep {req' : Request} (waiting : req'.phase.waitingHosts = req.phase.waitingHosts) :
      QueueMove requestId q req q req'
  | enqueue {req' : Request} {modelHosts : List Nat} (before : req.phase.waitingHosts = none)
      (after : req'.phase.waitingHosts = some modelHosts) :
      QueueMove requestId q req
        (q.enqueue requestId (req.queueSessionId requestId) 0 req.arrivedAt
          (some ⟨req.token, modelHosts⟩)) req'
  | leave {req' : Request} {q₁ : SchedulingQueue Waiter} (loop : LoopEnd requestId req q q₁)
      (after : req'.phase.waitingHosts = none) :
      QueueMove requestId q req (q₁.cancel requestId (req.queueSessionId requestId) 0) req'

/-- Why a host was chosen: a record of it the request holds has a free slot, it is healthy,
and the lease rules allow it at a clock reading of this move. -/
def Chosen (cfg : Config) (core : Core) (req : Request) (hostId : String) (final : Scratch) : Prop :=
  ∃ ref ∈ req.captured, (core.registry.heap ref).hostId = hostId ∧
    (core.registry.heap ref).Free ∧ core.health.isHealthy hostId = true ∧
    ∃ st, Later cfg core.scratch st ∧ st.readings < final.readings ∧
      LeaseAllows st.book req.token hostId (cfg.leaseClock st.readings)

/-- What belongs to the request for good. -/
structure SameParams (a b : Request) : Prop where
  token : b.token = a.token
  body : b.body = a.body
  arrivedAt : b.arrivedAt = a.arrivedAt
  snapshot : b.snapshot = a.snapshot

structure Moves (cfg : Config) (requestId : String) (core : Core) (req : Request) (core' : Core)
    (req' : Request) : Prop where
  params : SameParams req req'
  policy : core'.router.policy = core.router.policy
  captured : ∀ ref ∈ req'.captured, ref ∈ req.captured
  later : Later cfg core.scratch core'.scratch
  slot : SlotMove core.registry req core'.registry req'
  queue : QueueMove requestId core.queue req core'.queue req'
  /-- `acquire_slot` is executed at most once, and for a host chosen in this move. -/
  attempt : req'.attempted = req.attempted ∨
    ∃ hostId, req.phase.stage = .before ∧ req'.phase.stage ≠ .before ∧
      req'.attempted = some hostId ∧ Chosen cfg core req hostId core'.scratch

variable {cfg : Config} {requestId : String} {now : Int} {core₀ core core' : Core}
  {req req' : Request}

/-- Only the phase and the admission mark differ. -/
structure Recast (a b : Request) : Prop where
  params : SameParams a b
  slot : b.slot = a.slot
  releases : b.releases = a.releases
  attempted : b.attempted = a.attempted

theorem recast_phase (req : Request) (phase : Phase) (admitted : Bool) :
    Recast req { req with phase := phase, admitted := admitted } :=
  ⟨⟨rfl, rfl, rfl, rfl⟩, rfl, rfl, rfl⟩

/-- A move that leaves slot and registry alone. -/
theorem Moves.keep (hreq : Recast req req') (hpolicy : core'.router.policy = core.router.policy)
    (hreg : core'.registry = core.registry)
    (hlater : Later cfg core.scratch core'.scratch)
    (hqueue : QueueMove requestId core.queue req core'.queue req')
    (hcaptured : ∀ ref ∈ req'.captured, ref ∈ req.captured)
    (hstage : req'.phase.stage = req.phase.stage ∨
      req.phase.stage = .before ∧ req'.phase.stage = .over) :
    Moves cfg requestId core req core' req' where
  params := hreq.params
  policy := hpolicy
  captured := hcaptured
  later := hlater
  slot := hreg ▸ .keep hstage hreq.slot hreq.releases
  queue := hqueue
  attempt := Or.inl hreq.attempted

theorem recast_fail (req : Request) (e : Exn) : Recast req (req.fail e) :=
  recast_phase req (.ended (.failed e)) req.admitted

/-- A request that fails before it has a slot. -/
theorem Moves.quit (hbefore : req.phase.stage = .before)
    (hpolicy : core'.router.policy = core.router.policy) (hreg : core'.registry = core.registry)
    (hlater : Later cfg core.scratch core'.scratch) (e : Exn)
    (hqueue : QueueMove requestId core.queue req core'.queue (req.fail e)) :
    Moves cfg requestId core req core' (req.fail e) :=
  .keep (recast_fail req e) hpolicy hreg hlater hqueue (by simp [Request.captured, Request.fail])
    (Or.inr ⟨hbefore, rfl⟩)

/-! ## Releasing a slot -/

/-- The shared state is the same but for health, sticky sessions and the log. -/
structure SameShared (a b : Core) : Prop where
  policy : b.router.policy = a.router.policy
  registry : b.registry = a.registry
  queue : b.queue = a.queue
  scratch : b.scratch = a.scratch

theorem SameShared.refl (a : Core) : SameShared a a := ⟨rfl, rfl, rfl, rfl⟩

theorem SameShared.trans {a b c : Core} (hab : SameShared a b) (hbc : SameShared b c) :
    SameShared a c :=
  ⟨hbc.policy.trans hab.policy, hbc.registry.trans hab.registry, hbc.queue.trans hab.queue,
    hbc.scratch.trans hab.scratch⟩

theorem sameShared_record (core : Core) (entries : List Recorded) :
    SameShared core (core.record entries) := ⟨rfl, rfl, rfl, rfl⟩

theorem sameShared_recordProbe (core : Core) (hostId : String) (healthy : Bool) (now : Int) :
    SameShared core (core.recordProbe hostId healthy now) := ⟨rfl, rfl, rfl, rfl⟩

theorem sameShared_recordFailover (requestId : String) (core : Core)
    (failoverInPlay success : Bool) :
    SameShared core (recordFailover requestId core failoverInPlay success) := by
  unfold recordFailover
  split
  · exact sameShared_record core _
  · exact .refl core

theorem sameShared_ite {c : Prop} [Decidable c] {a b b' : Core} (h : SameShared a b)
    (h' : SameShared a b') : SameShared a (if c then b else b') := by
  split
  · exact h
  · exact h'

/-- What follows a release: the request is over, and nothing shared changes any more. -/
def Settles (next : Core → Request → Core × Request) : Prop :=
  ∀ core req, SameShared core (next core req).1 ∧ Recast req (next core req).2 ∧
    (next core req).2.phase.stage = .over

theorem settles_fail (e : Exn) : Settles fun core req => (core, req.fail e) :=
  fun core req => ⟨.refl core, recast_fail req e, rfl⟩

theorem releaseThen_moves {hostId : String} (hholding : req.phase.stage = .holding hostId)
    (hsame : SameShared core₀ core) {next : Core → Request → Core × Request}
    (hnext : Settles next) :
    Moves cfg requestId core₀ req (releaseThen core req hostId next).1
      (releaseThen core req hostId next).2 := by
  have hwait : req.phase.waitingHosts = none := waitingHosts_of_not_before (by simp [hholding])
  unfold releaseThen
  split
  · next registry hrel =>
    obtain ⟨hshared, hreq, hover⟩ := hnext (core.withRegistry registry)
      { req with releases := req.releases ++ [true] }
    have hparams : SameParams req _ :=
      ⟨hreq.params.token, hreq.params.body, hreq.params.arrivedAt, hreq.params.snapshot⟩
    refine ⟨hparams, hshared.policy.trans hsame.policy, ?_, ?_, ?_, ?_, Or.inl hreq.attempted⟩
    · rw [captured_of_not_before (by simp [hover])]
      simp
    · exact .of_eq (by rw [hshared.scratch, ← hsame.scratch]; rfl)
        (by rw [hshared.scratch, ← hsame.scratch]; rfl)
    · rw [hshared.registry]
      rw [hsame.registry] at hrel
      exact .release hholding hrel hover hreq.slot hreq.releases
    · rw [hshared.queue, ← hsame.queue]
      exact .keep (by rw [hwait, waitingHosts_of_not_before (by simp [hover])])
  · next hrel =>
    refine ⟨⟨rfl, rfl, rfl, rfl⟩, hsame.policy, ?_, ?_, ?_, ?_, Or.inl rfl⟩
    · simp [Request.captured, Request.fail]
    · exact .of_eq (by rw [hsame.scratch]) (by rw [hsame.scratch])
    · rw [hsame.registry] at hrel ⊢
      exact .releaseRaises hholding hrel rfl rfl rfl
    · rw [hsame.queue]
      exact .keep (by rw [hwait]; rfl)

/-- An answer ends the request, with or without an exception. -/
theorem answer_ends (requestId : String) (now : Int) (core : Core) (req : Request)
    (hostId : String) (failoverInPlay : Bool) (response : BackendResponse) :
    ∃ outcome,
      (answer requestId now core req hostId failoverInPlay response).2.phase = .ended outcome := by
  unfold answer
  cases recordTokenUsage response.promptTokens response.completionTokens with
  | error e => exact ⟨_, rfl⟩
  | ok =>
    cases isLatin1 hostId with
    | true => exact ⟨_, rfl⟩
    | false => exact ⟨_, rfl⟩

theorem answer_settles (hostId : String) (failoverInPlay : Bool) (response : BackendResponse) :
    Settles fun core req => answer requestId now core req hostId failoverInPlay response := by
  intro core req
  have hfail := sameShared_recordFailover requestId core failoverInPlay true
  unfold answer
  simp only
  split
  · exact ⟨hfail, recast_fail req _, rfl⟩
  · refine ⟨?_, ?_⟩
    · refine .trans ?_ (sameShared_recordProbe _ _ _ _)
      refine hfail.trans (sameShared_ite ?_ (sameShared_record _ _))
      exact (sameShared_record _ _).trans (sameShared_record _ _)
    · -- the header is set last
      cases isLatin1 hostId with
      | true => exact ⟨recast_phase req (.ended (.answered response)) req.admitted, rfl⟩
      | false => exact ⟨recast_fail req _, rfl⟩

theorem afterComplete_moves {hostId : String} (hholding : req.phase.stage = .holding hostId)
    (failoverInPlay : Bool) (result : Except Exn BackendResponse) :
    Moves cfg requestId core req
      (afterComplete requestId now core req hostId failoverInPlay result).1
      (afterComplete requestId now core req hostId failoverInPlay result).2 := by
  unfold afterComplete
  split
  · exact releaseThen_moves hholding (.refl core) (answer_settles hostId failoverInPlay _)
  · refine releaseThen_moves hholding ?_ (settles_fail _)
    exact (sameShared_recordFailover requestId core _ _).trans (sameShared_recordProbe _ _ _ _)
  · exact releaseThen_moves hholding (.refl core) (settles_fail _)

/-- A step of a streamed response that keeps the slot. -/
theorem streaming_moves {hostId : String} {s : StreamPhase}
    (hholding : req.phase.stage = .holding hostId) (hsame : SameShared core core')
    (hs : (Phase.streaming hostId s).stage = .holding hostId) :
    Moves cfg requestId core req core' { req with phase := .streaming hostId s } := by
  refine .keep (recast_phase req (.streaming hostId s) req.admitted) hsame.policy hsame.registry
    (.of_eq (by rw [hsame.scratch]) (by rw [hsame.scratch])) ?_ ?_ (Or.inl (hs.trans hholding.symm))
  · rw [hsame.queue]
    have hwait : req.phase.waitingHosts = none := waitingHosts_of_not_before (by simp [hholding])
    exact .keep (by rw [hwait]; rfl)
  · simp [Request.captured]

theorem afterLastChunk_moves {hostId : String} (hholding : req.phase.stage = .holding hostId)
    (head : StreamHead) (st : StreamState) :
    Moves cfg requestId core req (afterLastChunk now core req hostId head st).1
      (afterLastChunk now core req hostId head st).2 := by
  unfold afterLastChunk
  split
  · exact releaseThen_moves hholding (.refl core) (settles_fail _)
  · refine streaming_moves hholding ?_ rfl
    refine .trans ?_ (sameShared_recordProbe _ _ _ _)
    refine .trans ?_ (sameShared_ite (sameShared_record _ _) (.refl _))
    split
    · exact .refl _
    · exact sameShared_record _ _

theorem resumeStream_moves {hostId : String} {s : StreamPhase} {signal : Signal}
    (hphase : req.phase = .streaming hostId s)
    (h : resumeStream now core req hostId s signal = some (core', req')) :
    Moves cfg requestId core req core' req' := by
  have hholding : s ≠ .finishing → req.phase.stage = .holding hostId := by
    intro hs
    rw [hphase]
    cases s <;> simp_all [Phase.stage]
  have hrelease : ∀ {next}, Settles next → s ≠ .finishing →
      some (releaseThen core req hostId next) = some (core', req') →
      Moves cfg requestId core req core' req' := by
    intro next hnext hs h
    have hmoves : Moves cfg requestId core req _ _ :=
      releaseThen_moves (hholding hs) (.refl core) hnext
    rwa [Option.some.inj h] at hmoves
  -- after the end of the stream the slot is gone already
  have hover : ∀ {outcome : Outcome}, s = .finishing →
      Moves cfg requestId core req core { req with phase := .ended outcome } := by
    rintro outcome rfl
    refine .keep (recast_phase req (.ended outcome) req.admitted) rfl rfl (.refl _) ?_ ?_
      (Or.inl (by rw [hphase]; rfl))
    · exact .keep (by rw [hphase]; rfl)
    · simp [Request.captured]
  unfold resumeStream at h
  split at h
  · cases h
    exact streaming_moves (hholding (by simp)) (.refl _) rfl
  · exact hrelease (settles_fail _) (by simp) h
  · cases h
    exact streaming_moves (hholding (by simp)) (.refl _) rfl
  · next head st =>
    have hmoves : Moves cfg requestId core req (afterLastChunk now core req hostId head st).1 _ :=
      afterLastChunk_moves (hholding (by simp)) head st
    rwa [Option.some.inj h] at hmoves
  · split at h
    · cases h
      exact streaming_moves (hholding (by simp)) (.refl _) rfl
    · split at h
      · cases h
        exact streaming_moves (hholding (by simp)) (.refl _) rfl
      · cases h
        exact streaming_moves (hholding (by simp)) (.refl _) rfl
  · cases h
    exact streaming_moves (hholding (by simp)) (.refl _) rfl
  · cases h
    exact streaming_moves (hholding (by simp)) (.refl _) rfl
  · refine hrelease ?_ (by simp) h
    exact fun core req => ⟨.refl core,
      recast_phase req (.streaming hostId .finishing) req.admitted, rfl⟩
  · exact hrelease (settles_fail _) (by simp) h
  · exact hrelease (settles_fail _) (by simp) h
  · exact hrelease (settles_fail _) (by simp) h
  · cases h
    exact hover rfl
  · cases h
    exact hover rfl
  · cases h

/-! ## Admission -/

section

variable {candidates : List RoutingCandidate} {failoverInPlay : Bool}

/-- A stream is opened, or its slot is given back. -/
theorem openStream_cases {hostId : String} {released : HostRegistry}
    (h : openStream requestId core req hostId failoverInPlay = (core', req'))
    (hrel : core.registry.releaseSlot hostId = some released) :
    (SameShared core core' ∧ req' = { req with phase := .streaming hostId .starting }) ∨
      (SameShared (core.withRegistry released) core' ∧
        req' = { req with releases := req.releases ++ [true] }.fail .unicodeEncodeError) := by
  have hshared := sameShared_recordFailover requestId core failoverInPlay true
  unfold openStream at h
  simp only at h
  split at h
  · cases h
    exact Or.inl ⟨hshared, rfl⟩
  · rw [releaseThen, hshared.registry, hrel] at h
    cases h
    exact Or.inr ⟨⟨hshared.policy, rfl, hshared.queue, hshared.scratch⟩, rfl⟩

/-- From the choice of a backend on. The queue has been left, where the request was in it. -/
theorem route_moves (hbefore : req.phase.stage = .before)
    (hpolicy : core.router.policy = core₀.router.policy) (hreg : core.registry = core₀.registry)
    (hlater : Later cfg core₀.scratch core.scratch)
    (hqueue : ∀ req' : Request, req'.phase.waitingHosts = none →
      QueueMove requestId core₀.queue req core.queue req')
    (hchosen : ∀ c ∈ candidates, Chosen cfg core₀ req c.backend.backendId core.scratch) :
    Moves cfg requestId core₀ req (route requestId core req candidates failoverInPlay).1
      (route requestId core req candidates failoverInPlay).2 := by
  have hfail : ∀ (router : RoutingEngine) (e : Exn), router.policy = core.router.policy →
      Moves cfg requestId core₀ req { core with router } ({ req with admitted := true }.fail e) :=
    fun router e hrouter =>
      .keep (recast_phase req (.ended (.failed e)) true) (hrouter.trans hpolicy) hreg hlater
      (hqueue _ rfl) (by simp [Request.captured, Request.fail]) (Or.inr ⟨hbefore, rfl⟩)
  unfold route
  simp only
  split
  · exact hfail core.router _ rfl
  · next decision router hselect =>
    have hrouter := (RoutingEngine.selectBackend_policy hselect).trans hpolicy
    obtain ⟨c, hc, hid⟩ := RoutingEngine.selectBackend_mem hselect
    have hch := hchosen c hc
    rw [hid] at hch
    split
    · split
      · -- `acquire_slot` raises
        refine ⟨⟨rfl, rfl, rfl, rfl⟩, hrouter, by simp [Request.captured, Request.fail], hlater, ?_,
          hqueue _ rfl, Or.inr ⟨_, hbefore, by simp [Phase.stage, Request.fail], rfl, hch⟩⟩
        rw [hreg]
        exact .keep (Or.inr ⟨hbefore, rfl⟩) rfl rfl
      · next registry hacq =>
        rw [hreg] at hacq
        split
        · obtain ⟨released, hrel⟩ := HostRegistry.addInFlight_again hacq (-1)
          generalize hopen : openStream _ _ _ _ _ = opened
          obtain ⟨core', req'⟩ := opened
          rcases openStream_cases hopen hrel with
            ⟨hshared, rfl⟩ | ⟨hshared, rfl⟩
          · -- the response object owns the slot
            refine ⟨⟨rfl, rfl, rfl, rfl⟩, hshared.policy.trans hrouter, by simp [Request.captured],
              ?_, ?_, ?_,
              Or.inr ⟨_, hbefore, by simp [Phase.stage], rfl, ?_⟩⟩
            · rw [hshared.scratch]
              exact hlater
            · rw [hshared.registry]
              exact .acquire hbefore hacq rfl rfl rfl rfl
            · rw [hshared.queue]
              exact hqueue _ rfl
            · rw [hshared.scratch]
              exact hch
          · -- the header cannot be encoded: the slot goes back at once
            refine ⟨⟨rfl, rfl, rfl, rfl⟩, hshared.policy.trans hrouter,
              by simp [Request.captured, Request.fail], ?_, ?_, ?_,
              Or.inr ⟨_, hbefore, by simp [Phase.stage, Request.fail], rfl, ?_⟩⟩
            · rw [hshared.scratch]
              exact hlater
            · rw [hshared.registry]
              exact .bounce hbefore hacq hrel rfl rfl rfl rfl
            · rw [hshared.queue]
              exact hqueue _ rfl
            · rw [hshared.scratch]
              exact hch
        · -- the backend is called
          exact ⟨⟨rfl, rfl, rfl, rfl⟩, hrouter, by simp [Request.captured], hlater,
            .acquire hbefore hacq rfl rfl rfl rfl, hqueue _ rfl,
            Or.inr ⟨_, hbefore, by simp [Phase.stage], rfl, hch⟩⟩
    · exact hfail router _ (RoutingEngine.selectBackend_policy hselect)

end

/-- The loop condition, with the queue the loop body has left. -/
theorem sleepAgain_moves (hbefore : req.phase.stage = .before)
    (hpolicy : core.router.policy = core₀.router.policy)
    (hreg : core.registry = core₀.registry) (hlater : Later cfg core₀.scratch core.scratch)
    (w : Wait)
    (hcaptured : ∀ ref ∈ w.modelHosts, ref ∈ req.captured)
    (hwait : ∀ req' : Request, req'.phase.waitingHosts = some w.modelHosts →
      QueueMove requestId core₀.queue req core.queue req')
    (hloop : LoopEnd requestId req core₀.queue core.queue) :
    Moves cfg requestId core₀ req (sleepAgain cfg requestId core req w).1
      (sleepAgain cfg requestId core req w).2 := by
  unfold sleepAgain
  split
  · exact .keep (recast_phase req (.waiting w) req.admitted) hpolicy hreg hlater
      (hwait _ rfl) hcaptured (Or.inl hbefore.symm)
  · have hshared := sameShared_recordFailover requestId core w.failoverInPlay false
    refine .quit hbefore ?_ ?_ ?_ _ ?_
    · exact hshared.policy.trans hpolicy
    · exact hshared.registry.trans hreg
    · simp only [leaveQueue, Core.withQueue]
      rw [hshared.scratch]
      exact hlater
    · simp only [leaveQueue, Core.withQueue]
      rw [hshared.queue]
      exact .leave hloop rfl

/-- Why the candidates of a request may be chosen. -/
theorem chosen_of_candidates {st st' : Scratch} {modelHosts : List Nat}
    {candidates : List RoutingCandidate} (hbook : core.scratch.book.Consistent)
    (hlater : Later cfg core.scratch st)
    (h : currentCandidates cfg core.registry core.health req.token modelHosts st =
      (.ok candidates, st'))
    (hcaptured : ∀ ref ∈ modelHosts, ref ∈ req.captured) {final : Scratch}
    (hfinal : st'.readings ≤ final.readings) :
    ∀ c ∈ candidates, Chosen cfg core req c.backend.backendId final := by
  intro c hc
  obtain ⟨ref, hmem, hid, hfree, hhealthy, hallows, -⟩ :=
    mem_currentCandidates (hlater.consistent hbook) h hc
  have hread := (currentCandidates_later cfg core.registry core.health
    req.token modelHosts st).2
  rw [h] at hread
  refine ⟨ref, hcaptured ref hmem, hid, hfree, hid ▸ hhealthy, st, hlater, ?_, hallows⟩
  exact lt_of_lt_of_le (hread ▸ Nat.lt_succ_self _) hfinal

theorem later_leaseNow (st : Scratch) : Later cfg st (leaseNow cfg st).2 :=
  .of_looked rfl fun hc => ⟨hc, .refl _ _⟩

theorem looked_usableHosts {book : NodeLeaseBook} (reg : HostRegistry) (req : Request)
    (leaseTime : Int) (capable : List Nat) (budgetBlocked : Bool) (hbook : book.Consistent) :
    NodeLeaseBook.Looked leaseTime book
      (usableHosts reg req leaseTime capable budgetBlocked book).2 := by
  unfold usableHosts
  split
  · next token _ =>
    have hlook := NodeLeaseBook.looked_require hbook token leaseTime
    split
    · next hreq =>
      rw [hreq] at hlook
      exact hlook
    · next hreq =>
      rw [hreq] at hlook
      split <;> exact hlook
  · have hlook := looked_openHosts reg leaseTime hbook capable
    simp only
    split <;> exact hlook

theorem afterDiscovery_moves {capable : List Nat} {budgetBlocked : Bool}
    (hbefore : req.phase.stage = .before) (hnot : req.phase.waitingHosts = none)
    (hbook : core₀.scratch.book.Consistent) {st₁ : Scratch} (hlater : Later cfg core₀.scratch st₁)
    (hcaptured : ∀ ref ∈ capable, ref ∈ req.captured) :
    Moves cfg requestId core₀ req
      (afterDiscovery cfg requestId (core₀.withScratch st₁) req capable budgetBlocked).1
      (afterDiscovery cfg requestId (core₀.withScratch st₁) req capable budgetBlocked).2 := by
  unfold afterDiscovery leaseNow
  simp only [Core.withScratch]
  generalize husable : usableHosts _ _ _ _ _ _ = usable
  obtain ⟨checked, book⟩ := usable
  have hlook := looked_usableHosts core₀.registry req (cfg.leaseClock st₁.readings)
    capable budgetBlocked (hlater.consistent hbook)
  rw [husable] at hlook
  -- the scratch state after the check
  have hlater₂ : Later cfg core₀.scratch
      (Scratch.withBook { st₁ with readings := st₁.readings + 1 } book) :=
    hlater.trans (.of_looked rfl fun _ => hlook)
  simp only
  split
  · exact .quit hbefore (by rfl) (by rfl) hlater₂ _ (.keep (by rw [hnot]; rfl))
  · generalize hcand : currentCandidates _ _ _ _ _ _ = found
    obtain ⟨candidates, st₃⟩ := found
    have hlater₃ := currentCandidates_later cfg core₀.registry core₀.health
      req.token capable
      (Scratch.withBook { st₁ with readings := st₁.readings + 1 } book)
    rw [hcand] at hlater₃
    have hall := hlater₂.trans hlater₃.1
    split
    · next heq =>
      cases heq
      exact .quit hbefore (by rfl) (by rfl) hall _ (.keep (by rw [hnot]; rfl))
    · next heq =>
      cases heq
      refine sleepAgain_moves hbefore (by rfl) (by rfl) hall _ hcaptured ?_ (.entered capable)
      exact fun req' hw => .enqueue hnot hw
    · next heq =>
      cases heq
      refine route_moves hbefore (by rfl) (by rfl) hall (fun req' hw => .keep (hw.trans hnot.symm)) ?_
      exact chosen_of_candidates hbook hlater₂ hcand hcaptured (le_refl _)

theorem continueDiscovery_moves {d : Discovery}
    (hbefore : req.phase.stage = .before) (hnot : req.phase.waitingHosts = none)
    (hbook : core₀.scratch.book.Consistent) {st₁ : Scratch} (hlater : Later cfg core₀.scratch st₁)
    (hcaptured : ∀ ref ∈ d.pending ++ d.capable, ref ∈ req.captured) :
    Moves cfg requestId core₀ req
      (continueDiscovery cfg requestId (core₀.withScratch st₁) req d).1
      (continueDiscovery cfg requestId (core₀.withScratch st₁) req d).2 := by
  unfold continueDiscovery
  simp only [Core.withScratch]
  generalize hstop : discover _ _ _ _ _ _ _ = stop
  obtain ⟨stop, st₂⟩ := stop
  have hsame := discover_same cfg core₀.registry req.body.model d.pending d.capable
    d.anyBudgetBlocked st₁
  have hrefs := discover_refs cfg core₀.registry req.body.model d.pending d.capable
    d.anyBudgetBlocked st₁
  rw [hstop] at hsame hrefs
  have hlater₂ : Later cfg core₀.scratch st₂ := hlater.trans (.of_eq hsame.1 hsame.2)
  split
  · next heq =>
    cases heq
    exact .quit hbefore (by rfl) (by rfl) hlater₂ _ (.keep (by rw [hnot]; rfl))
  · next ref d' _ heq =>
    -- suspended in the next `list_models`
    cases heq
    refine .keep (recast_phase req (.discovering ref d') req.admitted) rfl rfl hlater₂
      (.keep (by rw [hnot]; rfl)) ?_ (Or.inl (hbefore.symm ▸ rfl))
    exact fun x hx => hcaptured x (hrefs x hx)
  · next capable budgetBlocked _ heq =>
    cases heq
    have hmoves : Moves cfg requestId core₀ req
        (afterDiscovery cfg requestId (core₀.withScratch st₂) req capable budgetBlocked).1 _ :=
      afterDiscovery_moves hbefore hnot hbook hlater₂ fun x hx => hcaptured x (hrefs x hx)
    exact hmoves

theorem begin_moves (hphase : req.phase = .arrived) (hbook : core.scratch.book.Consistent) :
    Moves cfg requestId core req (begin cfg requestId core req).1
      (begin cfg requestId core req).2 := by
  have hbefore : req.phase.stage = .before := by rw [hphase]; rfl
  have hnot : req.phase.waitingHosts = none := by rw [hphase]; rfl
  have hcaptured : ∀ ref ∈ (⟨req.snapshot, [], false⟩ : Discovery).pending ++ [],
      ref ∈ req.captured := by simp [Request.captured, hphase]
  unfold begin leaseNow
  simp only
  split
  · exact continueDiscovery_moves hbefore hnot hbook (later_leaseNow core.scratch) hcaptured
  · next token _ =>
    have hlook := NodeLeaseBook.looked_require hbook token (cfg.leaseClock core.scratch.readings)
    have hlater : Later cfg core.scratch
        (Scratch.withBook { core.scratch with readings := core.scratch.readings + 1 }
          (core.scratch.book.require token (cfg.leaseClock core.scratch.readings)).2) :=
      .of_looked rfl fun _ => hlook
    split
    · next hreq =>
      -- the token was refused
      rw [hreq] at hlater
      exact .quit hbefore (by rfl) (by rfl) hlater _ (.keep (by rw [hnot]; rfl))
    · next hreq =>
      rw [hreq] at hlater
      exact continueDiscovery_moves hbefore hnot hbook hlater hcaptured

/-- A dispatch for this request takes its own entry from the front of a deque, or leaves the
queue alone. -/
theorem dispatchFor_cases (req : Request) {available : List String}
    {queue : SchedulingQueue Waiter} {st : Scratch} {res : Except Exn (Option String)}
    (h : dispatchFor cfg requestId core available = (res, queue, st)) :
    Later cfg core.scratch st ∧
      ((res ≠ .ok (some requestId) ∧ queue = core.queue) ∨
        (res = .ok (some requestId) ∧ LoopEnd requestId req core.queue queue)) := by
  constructor
  · have halong : Later cfg core.scratch (dispatchFor cfg requestId core available).2.2 :=
      SchedulingQueue.dispatch_along (Later cfg) .refl (fun _ _ _ => .trans)
        (fun _ w _ st => (queuedHostIds_later cfg core.registry core.health w st).1) core.scratch
    rwa [h] at halong
  · rcases SchedulingQueue.dispatch_cases h with
      ⟨hres, rfl⟩ | ⟨p, s, entry, rest, hhead, hid, hres, rfl⟩
    · exact Or.inl ⟨hres requestId, rfl⟩
    · have hown : entry.requestId = requestId := by simpa [eq_comm] using hid
      exact Or.inr ⟨hown ▸ hres, .taken hhead hown⟩

theorem poll_moves {w : Wait} (hphase : req.phase = .waiting w)
    (hbook : core.scratch.book.Consistent) :
    Moves cfg requestId core req (poll cfg requestId core req w).1
      (poll cfg requestId core req w).2 := by
  have hbefore : req.phase.stage = .before := by rw [hphase]; rfl
  have hcaptured : ∀ ref ∈ w.modelHosts, ref ∈ req.captured := by
    simp [Request.captured, hphase]
  have hwaits : req.phase.waitingHosts = some w.modelHosts := by rw [hphase]; rfl
  have hstay : ∀ req' : Request, req'.phase.waitingHosts = some w.modelHosts →
      QueueMove requestId core.queue req core.queue req' := fun _ h => .keep (h.trans hwaits.symm)
  have hlater := currentCandidates_later cfg core.registry core.health req.token w.modelHosts
    core.scratch
  unfold poll
  simp only
  generalize hcand : currentCandidates _ _ _ _ _ _ = found
  obtain ⟨candidates, st₁⟩ := found
  rw [hcand] at hlater
  split
  · next heq =>
    -- looking the candidates up has raised: the `finally` still leaves the queue
    cases heq
    exact .quit hbefore (by rfl) (by rfl) hlater.1 _ (.leave .same rfl)
  · next heq =>
    -- no candidates
    cases heq
    exact sleepAgain_moves hbefore (by rfl) (by rfl) hlater.1 _ hcaptured hstay .same
  · next cs _ heq =>
    cases heq
    generalize hdisp : dispatchFor _ _ _ _ = dispatched
    obtain ⟨res, queue, st₂⟩ := dispatched
    obtain ⟨hlater₂, hcases⟩ := dispatchFor_cases req hdisp
    have hall : Later cfg core.scratch st₂ := hlater.1.trans hlater₂
    split
    · next heq =>
      cases heq
      rcases hcases with ⟨_, rfl⟩ | ⟨hres, _⟩
      · exact .quit hbefore (by rfl) (by rfl) hall _ (.leave .same rfl)
      · cases hres
    · next heq =>
      cases heq
      split
      · next hown =>
        -- its turn: the entry was taken, and the `finally` finds it gone
        rcases hcases with ⟨hres, _⟩ | ⟨_, hloop⟩
        · exact absurd (congrArg Except.ok hown) hres
        · refine route_moves hbefore (by rfl) (by rfl) hall (fun req' hw => .leave hloop hw) ?_
          exact chosen_of_candidates hbook (.refl _) hcand hcaptured hlater₂.readings
      · next hown =>
        -- not its turn: the queue is as it was
        rcases hcases with ⟨_, rfl⟩ | ⟨hres, _⟩
        · exact sleepAgain_moves hbefore (by rfl) (by rfl) hall _ hcaptured hstay .same
        · cases hres
          exact absurd rfl hown

/-- The answer of `list_models` brings no new records. -/
theorem listed_captured {ref : Nat} {d : Discovery} {loaded : Option (List String)}
    (hphase : req.phase = .discovering ref d) :
    ∀ x ∈ (d.listed core.registry req.body.model ref loaded).pending ++
      (d.listed core.registry req.body.model ref loaded).capable, x ∈ req.captured := by
  intro x hx
  have hx' : x ∈ ref :: (d.pending ++ d.capable) := by
    unfold Discovery.listed at hx
    simp only at hx
    split at hx
    · simp at hx ⊢
      tauto
    · split at hx
      · simp at hx ⊢
        tauto
      · split at hx <;> exact List.mem_cons_of_mem _ hx
  simpa [Request.captured, hphase] using hx'

/-- Everything a resumed request can do. -/
theorem resume_moves {signal : Signal} (hbook : core.scratch.book.Consistent)
    (h : resume cfg requestId now core req signal = some (core', req')) :
    Moves cfg requestId core req core' req' := by
  unfold resume at h
  split at h
  · next hphase =>
    -- `list_models` has raised
    cases h
    exact .quit (by rw [hphase]; rfl) rfl rfl (.refl _) _ (.keep (by rw [hphase]; rfl))
  · next ref d loaded hphase =>
    have hmoves : Moves cfg requestId core req
        (continueDiscovery cfg requestId core req
          (d.listed core.registry req.body.model ref loaded)).1
        (continueDiscovery cfg requestId core req
          (d.listed core.registry req.body.model ref loaded)).2 :=
      continueDiscovery_moves (by rw [hphase]; rfl) (by rw [hphase]; rfl) hbook (.refl core.scratch)
        (listed_captured hphase)
    rwa [Option.some.inj h] at hmoves
  · next w hphase =>
    have hmoves : Moves cfg requestId core req (poll cfg requestId core req w).1 _ :=
      poll_moves hphase hbook
    rwa [Option.some.inj h] at hmoves
  · next hphase =>
    -- the sleep is interrupted
    cases h
    refine .quit (by rw [hphase]; rfl) ?_ ?_ ?_ _ (.leave .same rfl)
    · rfl
    · rfl
    · exact .refl core.scratch
  · next hostId failoverInPlay result hphase =>
    have hmoves : Moves cfg requestId core req
        (afterComplete requestId now core req hostId failoverInPlay result).1 _ :=
      afterComplete_moves (by rw [hphase]; rfl) failoverInPlay result
    rwa [Option.some.inj h] at hmoves
  · next hphase => exact resumeStream_moves hphase h
  · cases h

end LlmHomeLab
