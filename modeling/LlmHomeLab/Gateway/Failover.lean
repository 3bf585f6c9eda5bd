import LlmHomeLab.Gateway.Accounting
import LlmHomeLab.Gateway.System

/-! # The outcomes of a failover

`failover_in_play` is computed when the hosts of a request are examined, and the handler calls
`metrics_registry.record_failover_outcome` on some of its ways out. The gateway is run here with
a note of the value for every request, and `failover_recorded_iff` says on which ways out
exactly one outcome is recorded and it tells whether the client has got its answer.
-/

namespace LlmHomeLab

/-! ## Model -/

/-- The outcomes recorded for a request. -/
def failoverOutcomes (requestId : String) (log : List Recorded) : List Bool :=
  log.filterMap fun
    | .failoverOutcome id success => if id = requestId then some success else none
    | _ => none

/-- The client has got the complete answer; a stream whose end could not be sent is not one. -/
def Outcome.complete : Outcome → Bool
  | .answered _ => true
  | .streamed => true
  | .failed _ => false

/-- Where a discovery has come to its end. -/
structure Discovered where
  core : Core
  req : Request
  capable : List Nat
  budgetBlocked : Bool

section

variable (cfg : Config)

namespace Discovered

/-- The second lease check. -/
def usable (x : Discovered) : Except Exn (List Nat) × NodeLeaseBook :=
  let (leaseTime, st) := leaseNow cfg x.core.scratch
  usableHosts x.core.registry x.req leaseTime x.capable x.budgetBlocked st.book

/-- `failover_in_play`, if the request gets as far. -/
def failoverInPlay (x : Discovered) : Option Bool :=
  match (x.usable cfg).1 with
  | .error _ => none
  | .ok hosts =>
    some (hosts.any fun ref => !x.core.health.isHealthy (x.core.registry.heap ref).hostId)

/-- The first look at the candidates. -/
def candidates (x : Discovered) : Except Exn (List RoutingCandidate) :=
  (currentCandidates cfg x.core.registry x.core.health x.req.token x.capable
    ((leaseNow cfg x.core.scratch).2.withBook (x.usable cfg).2)).1

end Discovered

/-- The end of a discovery, if it is reached without another `await`. -/
def discoveryEnd (core : Core) (req : Request) (d : Discovery) : Option Discovered :=
  match discover cfg core.registry req.body.model d.capable d.anyBudgetBlocked d.pending
      core.scratch with
  | (.done capable budgetBlocked, st) => some ⟨core.withScratch st, req, capable, budgetBlocked⟩
  | _ => none

/-- The same for a request that has just arrived. -/
def discoveryEndAtBegin (core : Core) (req : Request) : Option Discovered :=
  let (leaseTime, st) := leaseNow cfg core.scratch
  match req.token with
  | none => discoveryEnd cfg (core.withScratch st) req ⟨req.snapshot, [], false⟩
  | some token =>
    match st.book.require token leaseTime with
    | (.error _, _) => none
    | (.ok _, book) =>
      discoveryEnd cfg (core.withScratch (st.withBook book)) req ⟨req.snapshot, [], false⟩

/-- The end of the discovery of the request that takes the step. -/
def discovered (s : State) : Event → Option Discovered
  | .admin _ => none
  | .arrive _ leaseHeader body now =>
    discoveryEndAtBegin cfg s.core (newRequest s.core leaseHeader body now)
  | .resume requestId signal _ =>
    match s.requests.get? requestId, signal with
    | some req, .listed (.ok loaded) =>
      match req.phase with
      | .discovering ref d =>
        discoveryEnd cfg s.core req (d.listed s.core.registry req.body.model ref loaded)
      | _ => none
    | _, _ => none

/-- `failover_in_play`, if the step computes it. -/
def stepNote (s : State) (e : Event) : Option Bool :=
  (discovered cfg s e).bind (·.failoverInPlay cfg)

/-- The request that takes the step. -/
def Event.requestId : Event → Option String
  | .admin _ => none
  | .arrive requestId _ _ _ => some requestId
  | .resume requestId _ _ => some requestId

/-- The gateway, with a note of `failover_in_play` for every request whose hosts were examined. -/
structure Noted where
  gateway : State
  inPlay : Dict String Bool := .empty

namespace Noted

/-- Note `failover_in_play` for the request that takes the step. -/
def note (n : Noted) (e : Event) : Dict String Bool :=
  match e.requestId, stepNote cfg n.gateway e with
  | some requestId, some failoverInPlay => n.inPlay.set requestId failoverInPlay
  | _, _ => n.inPlay

def step (n : Noted) (e : Event) : Option Noted :=
  (LlmHomeLab.step cfg n.gateway e).map fun gateway => { gateway, inPlay := n.note cfg e }

end Noted

/-! ## The ways out that record an outcome -/

/-- The wait loop is not entered, since it gives up at once. -/
def Discovered.GivesUp (x : Discovered) : Prop :=
  ¬ 0 < cfg.dispatchWaitTimeout ∧ x.candidates cfg = .ok []

/-- The time is up in this turn of the wait loop, and neither the candidates nor the dispatch
raise or let the request through. -/
def GivesUp (requestId : String) (core : Core) (req : Request) (w : Wait) : Prop :=
  ¬ w.waited + cfg.dispatchPollInterval < cfg.dispatchWaitTimeout ∧
    match currentCandidates cfg core.registry core.health req.token w.modelHosts core.scratch with
    | (.error _, _) => False
    | (.ok [], _) => True
    | (.ok candidates, st) =>
      match (dispatchFor cfg requestId (core.withScratch st)
        (candidates.map (·.backend.backendId))).1 with
      | .error _ => False
      | .ok dispatched => dispatched ≠ some requestId

/-- The backend's answer gets through: the host is still registered, the counts of tokens are
numbers, and the id of the host can be put in the header. -/
def AnswerPasses (core : Core) (hostId : String) (response : BackendResponse) : Prop :=
  core.registry.inFlight hostId ≠ none ∧
    recordTokenUsage response.promptTokens response.completionTokens = .ok () ∧
    isLatin1 hostId = true

/-- The end of `complete()` that records how it went. -/
def CompletionRecords (core : Core) (hostId : String) : Except Exn BackendResponse → Prop
  | .ok response => AnswerPasses core hostId response
  | .error e => e = .backendError

/-- The way out a request takes from its `await` is one that records its outcome: the dispatch
timeout, a `BackendError` of `complete()`, an answer that gets through, and the end of a stream
that was sent to its end. -/
def RecordsOutcome (requestId : String) (core : Core) (req : Request) (signal : Signal) : Prop :=
  match req.phase, signal with
  | .discovering ref d, .listed (.ok loaded) =>
    ∃ x, discoveryEnd cfg core req (d.listed core.registry req.body.model ref loaded) = some x ∧
      x.GivesUp cfg
  | .waiting w, .slept => GivesUp cfg requestId core req w
  | .completing hostId _, .completed result => CompletionRecords core hostId result
  | .streaming _ .finishing, .sent _ (.ok ()) => True
  | _, _ => False

/-- The same for a step of the gateway. -/
def OutcomeRecorded (requestId : String) (s : State) (e : Event) : Prop :=
  (∃ header body now, e = .arrive requestId header body now ∧
    ∃ x, discoveryEndAtBegin cfg s.core (newRequest s.core header body now) = some x ∧
      x.GivesUp cfg) ∨
  ∃ req signal now, e = .resume requestId signal now ∧ s.requests.get? requestId = some req ∧
    RecordsOutcome cfg requestId s.core req signal

end

/-- The request ends in a step from `s` to `s'`. -/
structure Ends (requestId : String) (s s' : State) (outcome : Outcome) : Prop where
  before : ∀ req, s.requests.get? requestId = some req → ∀ o, req.phase ≠ .ended o
  after : ∃ req, s'.requests.get? requestId = some req ∧ req.phase = .ended outcome

/-! ## What a call adds to the outcomes -/

variable {cfg : Config} {requestId : String} {now : Int} {core core₁ core₂ core' : Core}
  {req req' : Request} {outs outs' : List Bool} {failoverInPlay : Bool} {good : Prop}

/-- These outcomes are recorded for the request, and none for another one. -/
def Adds (requestId : String) (outs : List Bool) (core core' : Core) : Prop :=
  ∀ id, failoverOutcomes id core'.log =
    failoverOutcomes id core.log ++ if id = requestId then outs else []

theorem Adds.of_log (h : core'.log = core.log) : Adds requestId [] core core' := by
  intro id
  simp [h]

theorem Adds.trans (h : Adds requestId outs core core₁) (h' : Adds requestId outs' core₁ core₂) :
    Adds requestId (outs ++ outs') core core₂ := by
  intro id
  rw [h' id, h id]
  split
  · simp
  · simp

theorem Adds.after_log (hlog : core₁.log = core.log) (h : Adds requestId outs core₁ core₂) :
    Adds requestId outs core core₂ := (Adds.of_log hlog).trans h

theorem Adds.then_log (h : Adds requestId outs core core₁) (hlog : core₂.log = core₁.log) :
    Adds requestId outs core core₂ := by
  have hkept : Adds requestId [] core₁ core₂ := .of_log hlog
  simpa using h.trans hkept

theorem Adds.own (h : Adds requestId outs core core') :
    failoverOutcomes requestId core'.log = failoverOutcomes requestId core.log ++ outs := by
  simpa using h requestId

theorem Adds.other (h : Adds requestId outs core core') {id : String} (hne : id ≠ requestId) :
    failoverOutcomes id core'.log = failoverOutcomes id core.log := by
  simpa [hne] using h id

/-- An outcome, where a failover is in play. -/
def booked (failoverInPlay success : Bool) : List Bool := if failoverInPlay then [success] else []

theorem adds_recordFailover (requestId : String) (core : Core) (failoverInPlay success : Bool) :
    Adds requestId (booked failoverInPlay success) core
      (recordFailover requestId core failoverInPlay success) := by
  intro id
  unfold recordFailover booked
  cases failoverInPlay with
  | false => simp
  | true =>
    by_cases hid : id = requestId
    · simp [Core.record, failoverOutcomes, hid]
    · simp [Core.record, failoverOutcomes, hid, Ne.symm hid]

variable (now) in
theorem adds_settle (hostId : String) (accounting : Accounting) :
    Adds requestId [] core (core.settle hostId now accounting) := by
  intro id
  rcases accounting with ⟨_ | ⟨p, c⟩, hostCompletion, completionLogged, healthy⟩ <;>
    cases hostCompletion <;> cases completionLogged <;>
    simp [Core.settle, Core.record, Core.recordProbe, failoverOutcomes]

/-! ## What a request leaves once its hosts are examined -/

/-- Where the request is after a piece of its code, with the outcomes this piece has recorded;
where it has ended, they are the one truthful outcome exactly if `good`. -/
inductive Leaves (requestId : String) (failoverInPlay : Bool) (good : Prop) (core core' : Core)
    (req' : Request) : Prop
  | waits {w : Wait} (phase : req'.phase = .waiting w) (flag : w.failoverInPlay = failoverInPlay)
      (adds : Adds requestId [] core core')
  | completes {hostId : String} (phase : req'.phase = .completing hostId failoverInPlay)
      (adds : Adds requestId [] core core')
  | streams {hostId : String} {s : StreamPhase} (phase : req'.phase = .streaming hostId s)
      (adds : Adds requestId (booked failoverInPlay true) core core')
  | ends {outcome : Outcome} {outs : List Bool} (phase : req'.phase = .ended outcome)
      (adds : Adds requestId outs core core')
      (iff : failoverInPlay = true → (outs = [outcome.complete] ↔ good))

/-- A failure of which nothing, or a success, has been recorded. -/
theorem Leaves.lost {e : Exn} (hphase : req'.phase = .ended (.failed e))
    (hadds : Adds requestId outs core core') (houts : false ∉ outs) (hgood : ¬ good) :
    Leaves requestId failoverInPlay good core core' req' := by
  refine .ends hphase hadds fun _ => ⟨fun h => ?_, fun h => absurd h hgood⟩
  exact absurd (by simp [h, Outcome.complete]) houts

theorem Leaves.after_log (h : Leaves requestId failoverInPlay good core₁ core' req')
    (hlog : core₁.log = core.log) :
    Leaves requestId failoverInPlay good core core' req' := by
  cases h with
  | waits phase flag adds => exact .waits phase flag (adds.after_log hlog)
  | completes phase adds => exact .completes phase (adds.after_log hlog)
  | streams phase adds => exact .streams phase (adds.after_log hlog)
  | ends phase adds iff => exact .ends phase (adds.after_log hlog) iff

theorem Leaves.congr {good' : Prop} (hgood : good ↔ good')
    (h : Leaves requestId failoverInPlay good core core' req') :
    Leaves requestId failoverInPlay good' core core' req' := by
  rwa [← propext hgood]

/-- A release at the end of a request that fails: it fails, with this exception or another. -/
theorem releaseThen_fails (core : Core) (req : Request) (hostId : String) (e : Exn) :
    (∃ e', (releaseThen core req hostId fun core req => (core, req.fail e)).2.phase =
      .ended (.failed e')) ∧
    (releaseThen core req hostId fun core req => (core, req.fail e)).1.log = core.log := by
  unfold releaseThen
  split
  · exact ⟨⟨e, rfl⟩, rfl⟩
  · exact ⟨⟨_, rfl⟩, rfl⟩

theorem openStream_leaves (core : Core) (req : Request) (hostId : String) (failoverInPlay : Bool) :
    Leaves requestId failoverInPlay False core
      (openStream requestId core req hostId failoverInPlay).1
      (openStream requestId core req hostId failoverInPlay).2 := by
  have hadds := adds_recordFailover requestId core failoverInPlay true
  unfold openStream
  simp only
  split
  · exact .streams rfl hadds
  · -- the header cannot be encoded: a success is recorded, and the client gets an error
    rcases releaseThen_fails (recordFailover requestId core failoverInPlay true) req hostId
      .unicodeEncodeError with ⟨⟨e, hphase⟩, hlog⟩
    refine .lost hphase (hadds.then_log hlog) ?_ id
    unfold booked
    split <;> simp

/-- No way out of the routing records an outcome that tells what happens. -/
theorem route_leaves (requestId : String) (core : Core) (req : Request)
    (candidates : List RoutingCandidate)
    (failoverInPlay : Bool) :
    Leaves requestId failoverInPlay False core
      (route requestId core req candidates failoverInPlay).1
      (route requestId core req candidates failoverInPlay).2 := by
  have hnothing : ∀ {core' : Core}, core'.log = core.log → Adds requestId [] core core' :=
    fun h => .of_log h
  unfold route
  simp only
  split
  · exact .lost rfl (hnothing rfl) List.not_mem_nil id
  · split
    · split
      · exact .lost rfl (hnothing rfl) List.not_mem_nil id
      · split
        · exact (openStream_leaves _ _ _ _).after_log rfl
        · exact .completes rfl (hnothing rfl)
    · exact .lost rfl (hnothing rfl) List.not_mem_nil id

theorem sleepAgain_leaves (cfg : Config) (requestId : String) (core : Core) (req : Request) (w : Wait) :
    Leaves requestId w.failoverInPlay (¬ w.waited < cfg.dispatchWaitTimeout) core
      (sleepAgain cfg requestId core req w).1 (sleepAgain cfg requestId core req w).2 := by
  unfold sleepAgain
  split
  · exact .waits rfl rfl (.of_log rfl)
  · next hover =>
    refine .ends rfl ((adds_recordFailover requestId core w.failoverInPlay false).then_log rfl) ?_
    intro hplay
    simp [hplay, booked, Outcome.complete, hover]

theorem afterDiscovery_leaves (x : Discovered) (hplay : x.failoverInPlay cfg = some failoverInPlay) :
    Leaves requestId failoverInPlay (x.GivesUp cfg) x.core
      (afterDiscovery cfg requestId x.core x.req x.capable x.budgetBlocked).1
      (afterDiscovery cfg requestId x.core x.req x.capable x.budgetBlocked).2 := by
  unfold Discovered.failoverInPlay Discovered.usable at hplay
  unfold Discovered.GivesUp Discovered.candidates Discovered.usable afterDiscovery
  simp only at hplay ⊢
  generalize usableHosts _ _ _ _ _ _ = usable at hplay ⊢
  obtain ⟨checked, book⟩ := usable
  cases checked with
  | error e => cases hplay
  | ok hosts =>
    cases hplay
    simp only [Core.withScratch]
    generalize currentCandidates _ _ _ _ _ _ = found
    rcases found with ⟨e | _ | ⟨c, candidates⟩, st⟩
    · exact .lost rfl (.of_log rfl) List.not_mem_nil (by simp)
    · -- the request enters the queue
      have hwaits := sleepAgain_leaves cfg requestId ((x.core.withScratch st).withQueue
        (x.core.queue.enqueue requestId (x.req.queueSessionId requestId) 0 x.req.arrivedAt
          (some ⟨x.req.token, x.capable⟩))) x.req
        ⟨x.capable, hosts.any fun ref => !x.core.health.isHealthy (x.core.registry.heap ref).hostId, 0⟩
      refine (hwaits.congr ?_).after_log rfl
      simp
    · have hroutes := route_leaves requestId (x.core.withScratch st) x.req (c :: candidates)
        (hosts.any fun ref => !x.core.health.isHealthy (x.core.registry.heap ref).hostId)
      refine (hroutes.congr ?_).after_log rfl
      simp

variable (cfg requestId) in
theorem poll_leaves (core : Core) (req : Request) (w : Wait) :
    Leaves requestId w.failoverInPlay (GivesUp cfg requestId core req w) core
      (poll cfg requestId core req w).1 (poll cfg requestId core req w).2 := by
  unfold GivesUp poll
  simp only
  generalize currentCandidates _ _ _ _ _ _ = found
  have hsleeps : ∀ core' : Core, core'.log = core.log →
      Leaves requestId w.failoverInPlay
        (¬ w.waited + cfg.dispatchPollInterval < cfg.dispatchWaitTimeout) core
        (sleepAgain cfg requestId core' req
          ⟨w.modelHosts, w.failoverInPlay, w.waited + cfg.dispatchPollInterval⟩).1
        (sleepAgain cfg requestId core' req
          ⟨w.modelHosts, w.failoverInPlay, w.waited + cfg.dispatchPollInterval⟩).2 :=
    fun core' hlog => (sleepAgain_leaves cfg requestId core' req
      ⟨w.modelHosts, w.failoverInPlay, w.waited + cfg.dispatchPollInterval⟩).after_log hlog
  rcases found with ⟨e | _ | ⟨c, candidates⟩, st⟩
  · exact .lost rfl (.of_log rfl) List.not_mem_nil (by simp)
  · refine (hsleeps (core.withScratch st) rfl).congr ?_
    simp
  · simp only
    generalize dispatchFor _ _ _ _ = dispatch
    rcases dispatch with ⟨e | dispatched, queue, st'⟩
    · exact .lost rfl (.of_log rfl) List.not_mem_nil (by simp)
    · simp only
      split
      · next hown =>
        have hroutes := route_leaves requestId
          (leaveQueue requestId (((core.withScratch st).withScratch st').withQueue queue) req) req
          (c :: candidates) w.failoverInPlay
        refine (hroutes.congr ?_).after_log rfl
        simp [hown]
      · next hother =>
        refine (hsleeps (((core.withScratch st).withScratch st').withQueue queue) rfl).congr ?_
        simp [hother]

/-! ## The way to the examination -/

/-- The hosts of the request are not examined yet, or will not be. -/
structure Unexamined (core core' : Core) (req' : Request) : Prop where
  log : core'.log = core.log
  phase : (∃ ref d, req'.phase = .discovering ref d) ∨ ∃ e, req'.phase = .ended (.failed e)

/-- What a piece of the discovery comes to: on from its end, or no examination. -/
inductive Discovers (cfg : Config) (requestId : String) (core : Core) (r : Core × Request) :
    Option Discovered → Prop
  | ends (x : Discovered) (log : x.core.log = core.log)
      (goesOn : r = afterDiscovery cfg requestId x.core x.req x.capable x.budgetBlocked) :
      Discovers cfg requestId core r (some x)
  | unexamined (stops : Unexamined core r.1 r.2) : Discovers cfg requestId core r none

theorem Discovers.after_log {r : Core × Request} {x : Option Discovered}
    (h : Discovers cfg requestId core₁ r x) (hlog : core₁.log = core.log) :
    Discovers cfg requestId core r x := by
  cases h with
  | ends x log goesOn => exact .ends x (log.trans hlog) goesOn
  | unexamined stops => exact .unexamined ⟨stops.log.trans hlog, stops.phase⟩

variable (cfg requestId) in
theorem continueDiscovery_discovers (core : Core) (req : Request) (d : Discovery) :
    Discovers cfg requestId core (continueDiscovery cfg requestId core req d)
      (discoveryEnd cfg core req d) := by
  unfold continueDiscovery discoveryEnd
  generalize discover _ _ _ _ _ _ _ = stop
  obtain ⟨stop, st⟩ := stop
  cases stop with
  | raised e => exact .unexamined ⟨rfl, Or.inr ⟨e, rfl⟩⟩
  | awaiting ref d' => exact .unexamined ⟨rfl, Or.inl ⟨ref, d', rfl⟩⟩
  | done capable budgetBlocked => exact .ends ⟨core.withScratch st, req, capable, _⟩ rfl rfl

variable (cfg requestId) in
theorem begin_discovers (core : Core) (req : Request) :
    Discovers cfg requestId core (begin cfg requestId core req)
      (discoveryEndAtBegin cfg core req) := by
  -- the lease check in front of the discovery records nothing
  have hdiscovers : ∀ st : Scratch, Discovers cfg requestId core
      (continueDiscovery cfg requestId (core.withScratch st) req ⟨req.snapshot, [], false⟩)
      (discoveryEnd cfg (core.withScratch st) req ⟨req.snapshot, [], false⟩) :=
    fun st => (continueDiscovery_discovers cfg requestId (core.withScratch st) req _).after_log rfl
  unfold begin discoveryEndAtBegin leaseNow
  simp only
  cases req.token with
  | none => exact hdiscovers _
  | some token =>
    simp only
    generalize core.scratch.book.require token _ = checked
    rcases checked with ⟨e | lease, book⟩
    · exact .unexamined ⟨rfl, Or.inr ⟨_, rfl⟩⟩
    · exact hdiscovers _

variable (requestId) in
/-- A request that the second lease check refuses. -/
theorem afterDiscovery_unexamined (x : Discovered) (hplay : x.failoverInPlay cfg = none) :
    Unexamined x.core
      (afterDiscovery cfg requestId x.core x.req x.capable x.budgetBlocked).1
      (afterDiscovery cfg requestId x.core x.req x.capable x.budgetBlocked).2 := by
  unfold Discovered.failoverInPlay Discovered.usable at hplay
  unfold afterDiscovery
  simp only at hplay ⊢
  generalize usableHosts _ _ _ _ _ _ = usable at hplay ⊢
  rcases usable with ⟨e | hosts, book⟩
  · exact ⟨rfl, Or.inr ⟨e, rfl⟩⟩
  · cases hplay

/-! ## The backend call and the stream -/

variable (requestId now) in
theorem afterComplete_leaves (core : Core) (req : Request) (hostId : String)
    (failoverInPlay : Bool) (result : Except Exn BackendResponse) :
    Leaves requestId failoverInPlay (CompletionRecords core hostId result) core
      (afterComplete requestId now core req hostId failoverInPlay result).1
      (afterComplete requestId now core req hostId failoverInPlay result).2 := by
  unfold afterComplete
  split
  · next response =>
    unfold releaseThen CompletionRecords AnswerPasses
    cases hrel : core.registry.releaseSlot hostId with
    | none =>
      -- the release raises, and the answer is lost before it is recorded
      have hgone : core.registry.inFlight hostId = none := HostRegistry.addInFlight_eq_none.mp hrel
      exact .lost rfl (.of_log rfl) List.not_mem_nil (by simp [hgone])
    | some registry =>
      have hkept : core.registry.inFlight hostId ≠ none := by
        intro hgone
        rw [HostRegistry.releaseSlot, HostRegistry.addInFlight_eq_none.mpr hgone] at hrel
        cases hrel
      have hadds : Adds requestId (booked failoverInPlay true) core _ :=
        (adds_recordFailover requestId (core.withRegistry registry) failoverInPlay
          true).after_log rfl
      simp only [answer_eq, BackendResponse.account]
      cases htokens : recordTokenUsage response.promptTokens response.completionTokens with
      | error e =>
        refine .lost rfl hadds ?_ (by simp)
        unfold booked
        split <;> simp
      | ok =>
        have hsettled := hadds.trans (adds_settle now hostId
          ⟨some (response.promptTokens, response.completionTokens),
            !isDegenerateCompletion response.content response.finishReason,
            !isDegenerateCompletion response.content response.finishReason,
            !isDegenerateCompletion response.content response.finishReason⟩)
        cases hheader : isLatin1 hostId with
        | true =>
          refine @Leaves.ends _ _ _ _ _ _ (.answered response) _ rfl hsettled fun hplay => ?_
          simp [hplay, booked, Outcome.complete, hkept]
        | false =>
          refine .lost rfl hsettled ?_ (by simp)
          unfold booked
          split <;> simp
  · -- a `BackendError`: the failure is recorded first
    have hadds := adds_recordFailover requestId core failoverInPlay false
    rcases releaseThen_fails ((recordFailover requestId core failoverInPlay false).recordProbe
      hostId false now) req hostId .backendError with ⟨⟨e, hphase⟩, hlog⟩
    refine .ends hphase (hadds.then_log hlog) fun hplay => ?_
    simp [hplay, booked, Outcome.complete, CompletionRecords]
  · next e hother =>
    rcases releaseThen_fails core req hostId e with ⟨⟨e', hphase⟩, hlog⟩
    exact .lost hphase (.of_log hlog) List.not_mem_nil hother

/-- What a step of a stream comes to: it records no outcome, and ends well in one way only. -/
structure StreamStep (requestId : String) (core : Core) (stream : StreamPhase) (signal : Signal)
    (core' : Core) (req' : Request) : Prop where
  adds : Adds requestId [] core core'
  phase : (∃ hostId s, req'.phase = .streaming hostId s) ∨
    ∃ outcome, req'.phase = .ended outcome ∧
      (outcome.complete = true ↔ stream = .finishing ∧ ∃ head, signal = .sent head (.ok ()))

theorem StreamStep.fails {stream : StreamPhase} {signal : Signal} {hostId : String} {e : Exn}
    (hnot : ¬ (stream = .finishing ∧ ∃ head, signal = .sent head (.ok ())))
    (hlog : core₁.log = core.log)
    (h : some (releaseThen core₁ req hostId fun core req => (core, req.fail e)) =
      some (core', req')) : StreamStep requestId core stream signal core' req' := by
  rcases releaseThen_fails core₁ req hostId e with ⟨⟨e', hphase⟩, hlog'⟩
  rw [Option.some.inj h] at hphase hlog'
  exact ⟨.of_log (hlog'.trans hlog), Or.inr ⟨_, hphase, by simp [Outcome.complete, hnot]⟩⟩

theorem StreamStep.goesOn {stream : StreamPhase} {signal : Signal} {hostId : String}
    {s : StreamPhase} (hlog : core'.log = core.log) (hphase : req'.phase = .streaming hostId s) :
    StreamStep requestId core stream signal core' req' := ⟨.of_log hlog, Or.inl ⟨_, _, hphase⟩⟩

variable (requestId) in
theorem resumeStream_step {hostId : String} {stream : StreamPhase} {signal : Signal}
    (h : resumeStream now core req hostId stream signal = some (core', req')) :
    StreamStep requestId core stream signal core' req' := by
  unfold resumeStream at h
  split at h
  · cases h
    exact .goesOn rfl rfl
  · exact .fails (by simp) rfl h
  · cases h
    exact .goesOn rfl rfl
  · -- after the last chunk: the accounting, and `[DONE]` is sent
    next head st =>
    rw [afterLastChunk_eq] at h
    cases haccount : st.account with
    | error e =>
      rw [haccount] at h
      exact .fails (by simp) rfl h
    | ok accounting =>
      rw [haccount] at h
      cases h
      exact ⟨adds_settle now hostId accounting, Or.inl ⟨hostId, _, rfl⟩⟩
  · split at h
    · cases h
      exact .goesOn rfl rfl
    · split at h <;> cases h <;> exact .goesOn rfl rfl
  · cases h
    exact .goesOn rfl rfl
  · cases h
    exact .goesOn rfl rfl
  · -- the iterator ends: the release, and the end of the response
    unfold releaseThen at h
    split at h
    · cases h
      exact .goesOn rfl rfl
    · cases h
      exact ⟨.of_log rfl, Or.inr ⟨_, rfl, by simp [Outcome.complete]⟩⟩
  · exact .fails (by simp) rfl h
  · exact .fails (by simp) rfl h
  · exact .fails (by simp) rfl h
  · next head =>
    cases h
    exact ⟨.of_log rfl, Or.inr ⟨_, rfl, by simp [Outcome.complete]⟩⟩
  · cases h
    exact ⟨.of_log rfl, Or.inr ⟨_, rfl, by simp [Outcome.complete]⟩⟩
  · cases h

/-! ## Runs -/

/-- Note and outcomes of a request, by the phase it is in. -/
def Request.Tracked (req : Request) (inPlay : Option Bool) (outs : List Bool) : Prop :=
  match req.phase with
  | .waiting w => inPlay = some w.failoverInPlay ∧ outs = []
  | .completing _ failoverInPlay => inPlay = some failoverInPlay ∧ outs = []
  | .streaming _ _ => ∃ failoverInPlay, inPlay = some failoverInPlay ∧
      outs = booked failoverInPlay true
  | .ended _ => True
  | _ => inPlay = none ∧ outs = []

/-- What a step of the request comes to, with its note after the step. -/
structure Follows (requestId : String) (core : Core) (inPlay : Option Bool) (good : Prop)
    (core' : Core) (req' : Request) : Prop where
  adds : ∃ outs, Adds requestId outs core core'
  tracked : req'.Tracked inPlay (failoverOutcomes requestId core'.log)
  iff : ∀ outcome, req'.phase = .ended outcome → inPlay = some true →
    (failoverOutcomes requestId core'.log = [outcome.complete] ↔ good)

theorem Leaves.follows (hnone : failoverOutcomes requestId core.log = [])
    (h : Leaves requestId failoverInPlay good core core' req') :
    Follows requestId core (some failoverInPlay) good core' req' := by
  cases h with
  | waits phase flag adds =>
    refine ⟨⟨_, adds⟩, ?_, by simp [phase]⟩
    simp [Request.Tracked, phase, flag, adds.own, hnone]
  | completes phase adds =>
    refine ⟨⟨_, adds⟩, ?_, by simp [phase]⟩
    simp [Request.Tracked, phase, adds.own, hnone]
  | streams phase adds =>
    refine ⟨⟨_, adds⟩, ?_, by simp [phase]⟩
    simp [Request.Tracked, phase, adds.own, hnone]
  | ends phase adds iff =>
    refine ⟨⟨_, adds⟩, by simp [Request.Tracked, phase], fun outcome hended hplay => ?_⟩
    rw [phase] at hended
    cases hended
    rw [adds.own, hnone]
    exact iff (Option.some.inj hplay)

theorem Unexamined.follows (hnone : failoverOutcomes requestId core.log = [])
    (h : Unexamined core core' req') : Follows requestId core none good core' req' := by
  refine ⟨⟨[], .of_log h.log⟩, ?_, fun _ _ hplay => by cases hplay⟩
  rcases h.phase with ⟨ref, d, hphase⟩ | ⟨e, hphase⟩
  · simp [Request.Tracked, hphase, h.log, hnone]
  · simp [Request.Tracked, hphase]

theorem Discovers.follows {r : Core × Request} {found : Option Discovered}
    (hnone : failoverOutcomes requestId core.log = [])
    (h : Discovers cfg requestId core r found) :
    Follows requestId core (found.bind (·.failoverInPlay cfg))
      (∃ x, found = some x ∧ x.GivesUp cfg) r.1 r.2 := by
  cases h with
  | unexamined stops => exact stops.follows hnone
  | ends x log goesOn =>
    subst goesOn
    have hgood : (∃ y, some x = some y ∧ y.GivesUp cfg) ↔ x.GivesUp cfg := by simp
    have hplay : (some x).bind (·.failoverInPlay cfg) = x.failoverInPlay cfg := rfl
    rw [hplay]
    cases hvalue : x.failoverInPlay cfg with
    | none =>
      have hstops := afterDiscovery_unexamined requestId x hvalue
      exact Unexamined.follows hnone ⟨hstops.log.trans log, hstops.phase⟩
    | some failoverInPlay =>
      exact Leaves.follows hnone
        (((afterDiscovery_leaves x hvalue).congr hgood.symm).after_log log)

variable {s s' s₀ : State} {e : Event} {es es' : List Event} {n n' n'' : Noted}
  {inPlay : Option Bool}

/-- The hosts of a request are examined at the end of its discovery only. -/
theorem stepNote_resume {signal : Signal} (hreq : s.requests.get? requestId = some req)
    (h : ∀ ref d loaded, req.phase = .discovering ref d → signal ≠ .listed (.ok loaded)) :
    stepNote cfg s (.resume requestId signal now) = none := by
  unfold stepNote discovered
  simp only [hreq]
  split
  · next req' loaded hsome =>
    cases hsome
    split
    · next hphase => exact absurd rfl (h _ _ loaded hphase)
    · rfl
  · rfl

theorem recordsOutcome_streaming {hostId : String} {stream : StreamPhase} {signal : Signal}
    (hphase : req.phase = .streaming hostId stream) :
    RecordsOutcome cfg requestId core req signal ↔
      stream = .finishing ∧ ∃ head, signal = .sent head (.ok ()) := by
  unfold RecordsOutcome
  rw [hphase]
  constructor
  · intro h
    split at h
    · next heq => cases heq
    · next heq => cases heq
    · next heq => cases heq
    · next head heq =>
      cases heq
      exact ⟨rfl, head, rfl⟩
    · exact h.elim
  · rintro ⟨rfl, head, rfl⟩
    trivial

theorem resume_follows {signal : Signal} (hreq : s.requests.get? requestId = some req)
    (htracked : req.Tracked inPlay (failoverOutcomes requestId s.core.log))
    (h : resume cfg requestId now s.core req signal = some (core', req')) :
    Follows requestId s.core ((stepNote cfg s (.resume requestId signal now)).or inPlay)
      (RecordsOutcome cfg requestId s.core req signal) core' req' := by
  unfold Request.Tracked at htracked
  unfold resume at h
  split at h
  · -- `list_models` has raised
    next ref d e hphase =>
    rw [hphase] at htracked
    cases h
    rw [stepNote_resume hreq (by simp), Option.none_or, htracked.1]
    exact Unexamined.follows htracked.2 ⟨rfl, Or.inr ⟨_, rfl⟩⟩
  · next ref d loaded hphase =>
    rw [hphase] at htracked
    have hfollows := (continueDiscovery_discovers cfg requestId s.core req
      (d.listed s.core.registry req.body.model ref loaded)).follows htracked.2
    rw [Option.some.inj h] at hfollows
    have hnote : (stepNote cfg s (.resume requestId (.listed (.ok loaded)) now)).or inPlay =
        (discoveryEnd cfg s.core req
          (d.listed s.core.registry req.body.model ref loaded)).bind (·.failoverInPlay cfg) := by
      simp [stepNote, discovered, hreq, hphase, htracked.1]
    rw [hnote]
    unfold RecordsOutcome
    rw [hphase]
    exact hfollows
  · next w hphase =>
    rw [hphase] at htracked
    have hleaves := poll_leaves cfg requestId s.core req w
    rw [Option.some.inj h] at hleaves
    rw [stepNote_resume hreq (by simp), Option.none_or, htracked.1]
    unfold RecordsOutcome
    rw [hphase]
    exact hleaves.follows htracked.2
  · -- an exception in the sleep
    next w e hphase =>
    rw [hphase] at htracked
    cases h
    rw [stepNote_resume hreq (by simp), Option.none_or, htracked.1]
    unfold RecordsOutcome
    rw [hphase]
    have hlost : Leaves requestId w.failoverInPlay False s.core (leaveQueue requestId s.core req)
        (req.fail e) := .lost rfl (.of_log rfl) List.not_mem_nil id
    exact hlost.follows htracked.2
  · next hostId failoverInPlay result hphase =>
    rw [hphase] at htracked
    have hleaves := afterComplete_leaves requestId now s.core req hostId
      failoverInPlay result
    rw [Option.some.inj h] at hleaves
    rw [stepNote_resume hreq (by simp), Option.none_or, htracked.1]
    unfold RecordsOutcome
    rw [hphase]
    exact hleaves.follows htracked.2
  · next hostId stream hphase =>
    rw [hphase] at htracked
    obtain ⟨failoverInPlay, hplay, houts⟩ := htracked
    have hstep := resumeStream_step requestId h
    have hlog : failoverOutcomes requestId core'.log = booked failoverInPlay true := by
      rw [hstep.adds.own, houts, List.append_nil]
    rw [stepNote_resume hreq (by simp [hphase]), Option.none_or, hplay]
    refine ⟨⟨[], hstep.adds⟩, ?_, ?_⟩
    · rcases hstep.phase with ⟨hostId', stream', hphase'⟩ | ⟨outcome, hphase', -⟩
      · simp [Request.Tracked, hphase', hlog]
      · simp [Request.Tracked, hphase']
    · intro outcome hended hinPlay
      have htrue : failoverInPlay = true := Option.some.inj hinPlay
      rcases hstep.phase with ⟨hostId', stream', hphase'⟩ | ⟨outcome', hphase', hcomplete⟩
      · rw [hphase'] at hended
        cases hended
      · rw [hphase'] at hended
        cases hended
        rw [hlog, htrue, recordsOutcome_streaming hphase, ← hcomplete]
        simp only [booked, if_true, List.cons.injEq, and_true]
        exact eq_comm
  · cases h

/-- The code a request runs in a step, from its note and its outcomes so far. -/
theorem Ran.follows (hran : Ran cfg s requestId req e core' req')
    (hnew : s.requests.get? requestId = none →
      inPlay = none ∧ failoverOutcomes requestId s.core.log = [])
    (htracked : s.requests.get? requestId = some req →
      req.Tracked inPlay (failoverOutcomes requestId s.core.log)) :
    Follows requestId s.core ((stepNote cfg s e).or inPlay) (OutcomeRecorded cfg requestId s e)
      core' req' := by
  cases hran with
  | @begins header body now absent =>
    obtain ⟨hplay, houts⟩ := hnew absent
    have hfollows := (begin_discovers cfg requestId s.core
      (newRequest s.core header body now)).follows houts
    have hgood : OutcomeRecorded cfg requestId s (.arrive requestId header body now) ↔
        ∃ x, discoveryEndAtBegin cfg s.core (newRequest s.core header body now) = some x ∧
          x.GivesUp cfg := by
      simp [OutcomeRecorded]
    rw [hplay, Option.or_none, hgood]
    exact hfollows
  | @resumes _ _ signal now _ present returns =>
    have hgood : OutcomeRecorded cfg requestId s (.resume requestId signal now) ↔
        RecordsOutcome cfg requestId s.core req signal := by
      simp [OutcomeRecorded, present]
    rw [hgood]
    exact resume_follows present (htracked present) returns

/-- Notes and outcomes of all requests fit the phases they are in. -/
structure Noted.Consistent (n : Noted) : Prop where
  new : ∀ id, n.gateway.requests.get? id = none →
    n.inPlay.get? id = none ∧ failoverOutcomes id n.gateway.core.log = []
  tracked : ∀ id req, n.gateway.requests.get? id = some req →
    req.Tracked (n.inPlay.get? id) (failoverOutcomes id n.gateway.core.log)

/-- A step of the noted gateway: a call that records no outcome, or the code of one request. -/
inductive Noted.Steps (cfg : Config) (n : Noted) (e : Event) (n' : Noted) : Prop
  | admin (requests : n'.gateway.requests = n.gateway.requests)
      (log : n'.gateway.core.log = n.gateway.core.log) (inPlay : n'.inPlay = n.inPlay)
  | own {requestId : String} {req req' : Request} {core' : Core}
      (ran : Ran cfg n.gateway requestId req e core' req')
      (gateway : n'.gateway = ⟨core', n.gateway.requests.set requestId req'⟩)
      (note : n'.inPlay.get? requestId =
        (stepNote cfg n.gateway e).or (n.inPlay.get? requestId))
      (others : ∀ id, id ≠ requestId → n'.inPlay.get? id = n.inPlay.get? id)

theorem Ran.requestId_eq (h : Ran cfg s requestId req e core' req') :
    e.requestId = some requestId := by
  cases h <;> rfl

theorem Noted.steps (h : n.step cfg e = some n') : n.Steps cfg e n' := by
  obtain ⟨s', hstep, rfl⟩ := Option.map_eq_some_iff.mp h
  rcases step_cases hstep with ⟨a, core, rfl, hcore, rfl⟩ | ⟨requestId, req, core, req', hran, rfl⟩
  · obtain ⟨scratch, -, rfl⟩ := Option.map_eq_some_iff.mp hcore
    exact .admin rfl rfl rfl
  · refine .own hran rfl ?_ ?_
    · unfold Noted.note
      rw [hran.requestId_eq]
      cases stepNote cfg n.gateway e with
      | none => rfl
      | some failoverInPlay => exact Dict.get?_set_self _
    · intro id hne
      unfold Noted.note
      rw [hran.requestId_eq]
      cases stepNote cfg n.gateway e with
      | none => rfl
      | some failoverInPlay => exact Dict.get?_set_of_ne _ hne

/-- What the request of a step comes to. -/
theorem Noted.Consistent.follows (h : n.Consistent)
    (hran : Ran cfg n.gateway requestId req e core' req')
    (hnote : n'.inPlay.get? requestId =
      (stepNote cfg n.gateway e).or (n.inPlay.get? requestId)) :
    Follows requestId n.gateway.core (n'.inPlay.get? requestId)
      (OutcomeRecorded cfg requestId n.gateway e) core' req' := by
  rw [hnote]
  exact hran.follows (h.new requestId) (h.tracked requestId req)

theorem Noted.Consistent.step (h : n.Consistent) (hstep : n.step cfg e = some n') :
    n'.Consistent := by
  cases Noted.steps hstep with
  | admin requests log inPlay =>
    refine ⟨?_, ?_⟩
    · rw [requests, log, inPlay]
      exact h.new
    · rw [requests, log, inPlay]
      exact h.tracked
  | @own requestId req req' core' ran gateway note others =>
    have hfollows := h.follows ran note
    obtain ⟨outs, hadds⟩ := hfollows.adds
    refine ⟨fun id hnone => ?_, fun id r hr => ?_⟩
    · rw [gateway] at hnone ⊢
      have hne : id ≠ requestId := by
        rintro rfl
        simp at hnone
      rw [Dict.get?_set_of_ne _ hne] at hnone
      rw [others id hne, hadds.other hne]
      exact h.new id hnone
    · rw [gateway] at hr ⊢
      by_cases hid : id = requestId
      · subst hid
        rw [Dict.get?_set_self] at hr
        cases hr
        exact hfollows.tracked
      · rw [Dict.get?_set_of_ne _ hid] at hr
        rw [others id hid, hadds.other hid]
        exact h.tracked id r hr

theorem noted_consistent (hstart : Started s₀) (hlog : s₀.core.log = [])
    (hrun : Run (Fires (Noted.step cfg)) ⟨s₀, .empty⟩ es n) : n.Consistent := by
  refine hrun.invariant Noted.Consistent ⟨?_, ?_⟩ fun _ _ _ hstep h => h.step hstep
  · intro id _
    simp [hlog, failoverOutcomes]
  · intro id req hreq
    rw [hstart.requests] at hreq
    cases hreq

/-- Once a request has ended, it stays so, and with it its outcomes. -/
theorem outcomes_stay {outcome : Outcome} (hconsistent : n.Consistent)
    (hreq : n.gateway.requests.get? requestId = some req) (hended : req.phase = .ended outcome)
    (hrun : Run (Fires (Noted.step cfg)) n es n') :
    failoverOutcomes requestId n'.gateway.core.log =
      failoverOutcomes requestId n.gateway.core.log := by
  have hall : n'.Consistent ∧ n'.gateway.requests.get? requestId = some req ∧
      failoverOutcomes requestId n'.gateway.core.log =
        failoverOutcomes requestId n.gateway.core.log := by
    refine hrun.invariant (fun m => m.Consistent ∧ m.gateway.requests.get? requestId = some req ∧
      failoverOutcomes requestId m.gateway.core.log =
        failoverOutcomes requestId n.gateway.core.log) ⟨hconsistent, hreq, rfl⟩ ?_
    rintro a e b hstep ⟨ha, hpresent, houts⟩
    refine ⟨ha.step hstep, ?_⟩
    cases Noted.steps hstep with
    | admin requests log inPlay =>
      rw [requests, log]
      exact ⟨hpresent, houts⟩
    | @own other req₁ req' core' ran gateway note others =>
      have hne : requestId ≠ other := by
        -- a request that has ended has no further step
        rintro rfl
        cases ran with
        | begins absent =>
          rw [absent] at hpresent
          cases hpresent
        | resumes present returns =>
          rw [present] at hpresent
          cases hpresent
          simp [resume, hended] at returns
      obtain ⟨outs, hadds⟩ := (ha.follows ran note).adds
      rw [gateway, hadds.other hne]
      refine ⟨?_, houts⟩
      rw [← hpresent]
      exact Dict.get?_set_of_ne _ hne
  exact hall.2.2

namespace Lab

/-- Two hosts of the model, one of them unhealthy. -/
def failover : List Event :=
  [register "gpu-1" (some ["m"]) 1, register "gpu-2" (some ["m"]) 1,
    .admin (.recordProbe "gpu-2" false 0), .admin (.recordProbe "gpu-2" false 1),
    .admin (.recordProbe "gpu-2" false 2)]

def backendFails : Event := .resume "a" (.completed (.error .backendError)) 0

end Lab

/-- The exception a request has ended with. -/
def Phase.failure : Phase → Option Exn
  | .ended (.failed e) => some e
  | _ => none

theorem Phase.failure_eq {phase : Phase} {e : Exn} (h : phase.failure = some e) :
    phase = .ended (.failed e) := by
  unfold Phase.failure at h
  split at h
  · rw [Option.some.inj h]
  · cases h

end LlmHomeLab
