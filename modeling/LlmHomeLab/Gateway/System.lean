import LlmHomeLab.Gateway.Moves
import LlmHomeLab.Lib.Runs

/-! # The gateway as a transition system

Any number of chat requests, interleaved at their `await`s with the node and lease endpoints
and the health probes. A step is one of these calls, or one request going from a suspension to
the next; between two suspensions nothing else runs.
-/

namespace LlmHomeLab

/-! ## Model -/

/-- The fields a PATCH sets; an explicit null sets the field to null. -/
structure NodeUpdate where
  backendType : Option (Option String) := none
  contextWindow : Option (Option Int) := none
  baseUrl : Option (Option String) := none
  maxConcurrentRequests : Option (Option Int) := none
  allowedModels : Option (Option (List String)) := none
  memoryBudgetGb : Option (Option ℚ) := none
  modelSizesGb : Option (Option (Dict String ℚ)) := none
  modelAliases : Option (Option (Dict String (List String))) := none
  position : Option (Option Int) := none

def NodeUpdate.capabilities (fields : NodeUpdate) (existing : HostCapabilities) :
    HostCapabilities where
  backendType := fields.backendType.getD existing.backendType
  contextWindow := fields.contextWindow.getD existing.contextWindow
  baseUrl := fields.baseUrl.getD existing.baseUrl
  allowedModels := fields.allowedModels.getD existing.allowedModels
  memoryBudgetGb := fields.memoryBudgetGb.getD existing.memoryBudgetGb
  modelSizesGb := fields.modelSizesGb.getD existing.modelSizesGb
  modelAliases := fields.modelAliases.getD existing.modelAliases
  position := fields.position.getD existing.position

def NodeUpdate.capacity (fields : NodeUpdate) (existing : HostCapacity) : HostCapacity :=
  ⟨fields.maxConcurrentRequests.getD existing.maxConcurrentRequests⟩

/-- Everything that is not a chat request. -/
inductive AdminEvent where
  | register (hostId : String) (capabilities : HostCapabilities) (capacity : HostCapacity)
      (now : Int)
  | patch (hostId : String) (fields : NodeUpdate) (now : Int)
  | heartbeat (hostId : String) (now : Int)
  | deregister (hostId : String)
  /-- The cache is pruned at the start of a round of probes. -/
  | prune
  /-- A probe or a reservation asks for the backend of a host record it has captured. -/
  | backendFor (ref : Nat)
  | recordProbe (hostId : String) (healthy : Bool) (now : Int)
  /-- The end of a reservation; `capableIds` are the hosts its discovery has found. -/
  | reserve (holder : String) (hostId model : Option String) (ceiling : Option Int)
      (capableIds : Option (List String)) (token : String)
  | leaseHeartbeat (token : String)
  | leaseRelease (token : String)
  | forceRelease (hostId : String)
  /-- `/v1/nodes` shows the lease of every host. -/
  | listNodes

inductive Event where
  | admin (e : AdminEvent)
  | arrive (requestId : String) (leaseHeader : Option String) (body : ChatCompletionRequest)
      (now : Int)
  | resume (requestId : String) (signal : Signal) (now : Int)

structure State where
  core : Core
  requests : Dict String Request

/-- The registry after a call; a PATCH or a heartbeat for an unknown host changes nothing. -/
def registryAfter (reg : HostRegistry) : AdminEvent → HostRegistry
  | .register hostId capabilities capacity now => reg.register hostId capabilities capacity now
  | .patch hostId fields now =>
    match reg.lookup hostId with
    | none => reg
    | some existing =>
      reg.register hostId (fields.capabilities existing.capabilities)
        (fields.capacity existing.capacity) now
  | .heartbeat hostId now => (reg.heartbeat hostId now).getD reg
  | .deregister hostId => reg.deregister hostId
  | _ => reg

/-- `_node_status`. -/
def nodeStatus (health : HealthMonitor) (hostId : String) : NodeStatus :=
  if health.hasProbeHistory hostId then
    if health.isHealthy hostId then .online else .offline
  else .unknown

/-- `_reservable_hosts`, after its discovery. -/
def reservableHosts (core : Core) (capableIds : Option (List String)) : List ReservableHost :=
  core.registry.hostRefs.map fun ref =>
    let hostId := (core.registry.heap ref).hostId
    ⟨hostId, nodeStatus core.health hostId, core.health.isHealthy hostId,
      capableIds.all (hostId ∈ ·)⟩

section

variable (cfg : Config)

/-- Run a book operation at the next clock reading. -/
def atLeaseTime (st : Scratch) (op : NodeLeaseBook → Int → NodeLeaseBook) : Scratch :=
  let (now, st) := leaseNow cfg st
  st.withBook (op st.book now)

/-- What a call leaves in lease book, cache and clock. A new token is one not in use. -/
def scratchAfter (core : Core) : AdminEvent → Option Scratch
  | .deregister hostId => some (core.scratch.prune (core.registry.deregister hostId).hosts.keys)
  | .prune => some (core.scratch.prune core.registry.hosts.keys)
  | .backendFor ref =>
    if ref < core.registry.next then
      let host := core.registry.heap ref
      some (backendFor cfg host.hostId host.capabilities core.scratch).2
    else none
  | .reserve holder hostId model ceiling capableIds token =>
    if core.scratch.book.byToken.contains token then none
    else
      -- the status of the hosts is read at a time of its own
      let st := (leaseNow cfg core.scratch).2
      some (atLeaseTime cfg st fun book now =>
        (book.reserve holder (reservableHosts core capableIds) hostId model ceiling token now).2)
  | .leaseHeartbeat token =>
    some (atLeaseTime cfg core.scratch fun book now => (book.heartbeat token now).2)
  | .leaseRelease token =>
    some (atLeaseTime cfg core.scratch fun book now => (book.release token now).2)
  | .forceRelease hostId =>
    some (atLeaseTime cfg core.scratch fun book now => (book.forceRelease hostId now).2)
  | .listNodes =>
    some (atLeaseTime cfg core.scratch fun book now =>
      (core.registry.hosts.keys).foldl (fun book hostId => (book.view hostId now).2) book)
  | _ => some core.scratch

def healthAfter (health : HealthMonitor) : AdminEvent → HealthMonitor
  | .recordProbe hostId healthy now => health.recordProbe hostId healthy now
  | _ => health

def adminStep (core : Core) (e : AdminEvent) : Option Core :=
  (scratchAfter cfg core e).map fun scratch =>
    { core with
      registry := registryAfter core.registry e
      health := healthAfter core.health e
      scratch }

/-- A request as `chat_completions` finds it; an empty lease header counts as none. -/
def newRequest (core : Core) (leaseHeader : Option String) (body : ChatCompletionRequest)
    (now : Int) : Request where
  token := leaseHeader.filter (· ≠ "")
  body := body
  arrivedAt := now
  snapshot := core.registry.hostRefs
  phase := .arrived

def step (s : State) : Event → Option State
  | .admin e => (adminStep cfg s.core e).map fun core => { s with core }
  | .arrive requestId leaseHeader body now =>
    if s.requests.contains requestId then none
    else
      let (core, req) := begin cfg requestId s.core (newRequest s.core leaseHeader body now)
      some ⟨core, s.requests.set requestId req⟩
  | .resume requestId signal now => do
    let req ← s.requests.get? requestId
    let (core, req) ← resume cfg requestId now s.core req signal
    return ⟨core, s.requests.set requestId req⟩

end

/-- The gateway as it starts: no requests, no leases, an empty queue, and no slot taken on the
hosts it has loaded. -/
structure Started (s : State) : Prop where
  requests : s.requests = .empty
  queue : s.core.queue = {}
  byHost : s.core.scratch.book.byHost = .empty
  byToken : s.core.scratch.book.byToken = .empty
  idle : ∀ hostId info, s.core.registry.lookup hostId = some info → info.inFlight = 0

/-! ## What a step can do -/

variable {cfg : Config} {s s' : State} {e : Event} {es : List Event}

/-- A request that has just arrived. -/
structure Arrives (core : Core) (req : Request) : Prop where
  phase : req.phase = .arrived
  snapshot : req.snapshot = core.registry.hostRefs
  attempted : req.attempted = none
  slot : req.slot = none
  releases : req.releases = []

/-- The request a step is taken by: one that is there, or a new one. -/
inductive Actor (s : State) (requestId : String) (req : Request) : Event → Prop
  | arrives {header : Option String} {body : ChatCompletionRequest} {now : Int}
      (absent : s.requests.get? requestId = none) (new : Arrives s.core req) :
      Actor s requestId req (.arrive requestId header body now)
  | resumes {signal : Signal} {now : Int} (present : s.requests.get? requestId = some req) :
      Actor s requestId req (.resume requestId signal now)

/-- A step is a call of an endpoint or a probe, or a move of one request. -/
inductive Steps (cfg : Config) (s : State) : Event → State → Prop
  | admin {e : AdminEvent} {core : Core} (h : adminStep cfg s.core e = some core) :
      Steps cfg s (.admin e) { s with core }
  | own {e : Event} {requestId : String} {req req' : Request} {core : Core}
      (actor : Actor s requestId req e) (moves : Moves cfg requestId s.core req core req') :
      Steps cfg s e ⟨core, s.requests.set requestId req'⟩

/-- The code that runs in a step of a request. -/
inductive Ran (cfg : Config) (s : State) (requestId : String) :
    Request → Event → Core → Request → Prop
  | begins {header : Option String} {body : ChatCompletionRequest} {now : Int}
      (absent : s.requests.get? requestId = none) :
      Ran cfg s requestId (newRequest s.core header body now) (.arrive requestId header body now)
        (begin cfg requestId s.core (newRequest s.core header body now)).1
        (begin cfg requestId s.core (newRequest s.core header body now)).2
  | resumes {req req' : Request} {signal : Signal} {now : Int} {core : Core}
      (present : s.requests.get? requestId = some req)
      (returns : resume cfg requestId now s.core req signal = some (core, req')) :
      Ran cfg s requestId req (.resume requestId signal now) core req'

theorem step_cases (h : step cfg s e = some s') :
    (∃ a core, e = .admin a ∧ adminStep cfg s.core a = some core ∧ s' = { s with core }) ∨
      ∃ requestId req core req', Ran cfg s requestId req e core req' ∧
        s' = ⟨core, s.requests.set requestId req'⟩ := by
  cases e with
  | admin a =>
    obtain ⟨core, hcore, rfl⟩ := Option.map_eq_some_iff.mp h
    exact Or.inl ⟨a, core, rfl, hcore, rfl⟩
  | arrive requestId header body now =>
    simp only [step] at h
    split at h
    · cases h
    · next habsent =>
      cases h
      refine Or.inr ⟨requestId, _, _, _, .begins ?_, rfl⟩
      rw [← Dict.contains_eq_false]
      simpa using habsent
  | resume requestId signal now =>
    simp only [step] at h
    obtain ⟨req, hreq, h⟩ := Option.bind_eq_some_iff.mp h
    obtain ⟨⟨core, req'⟩, hres, h⟩ := Option.bind_eq_some_iff.mp h
    cases h
    exact Or.inr ⟨requestId, req, core, req', .resumes hreq hres, rfl⟩

theorem Ran.actor {requestId : String} {req req' : Request} {core : Core}
    (h : Ran cfg s requestId req e core req') : Actor s requestId req e := by
  cases h with
  | begins absent => exact .arrives absent ⟨rfl, rfl, rfl, rfl, rfl⟩
  | resumes present => exact .resumes present

theorem Ran.moves {requestId : String} {req req' : Request} {core : Core}
    (hbook : s.core.scratch.book.Consistent) (h : Ran cfg s requestId req e core req') :
    Moves cfg requestId s.core req core req' := by
  cases h with
  | begins absent => exact begin_moves rfl hbook
  | resumes present returns => exact resume_moves hbook returns

theorem steps_of_step (hbook : s.core.scratch.book.Consistent) (h : step cfg s e = some s') :
    Steps cfg s e s' := by
  rcases step_cases h with ⟨a, core, rfl, hcore, rfl⟩ | ⟨requestId, req, core, req', hran, rfl⟩
  · exact .admin hcore
  · exact .own hran.actor (hran.moves hbook)

/-- The step in which a waiting request wakes up. -/
theorem step_slept {requestId : String} {req : Request} {w : Wait} {now : Int}
    (hreq : s.requests.get? requestId = some req) (hw : req.phase = .waiting w) :
    step cfg s (.resume requestId .slept now) =
      some ⟨(poll cfg requestId s.core req w).1,
        s.requests.set requestId (poll cfg requestId s.core req w).2⟩ := by
  simp [step, hreq, resume, hw]

theorem admin_queue {core core' : Core} {e : AdminEvent} (h : adminStep cfg core e = some core') :
    core'.queue = core.queue ∧ core'.registry = registryAfter core.registry e := by
  obtain ⟨_, _, rfl⟩ := Option.map_eq_some_iff.mp h
  exact ⟨rfl, rfl⟩

theorem admin_consistent {core core' : Core} {e : AdminEvent}
    (h : adminStep cfg core e = some core') (hbook : core.scratch.book.Consistent) :
    core'.scratch.book.Consistent := by
  obtain ⟨scratch, hs, rfl⟩ := Option.map_eq_some_iff.mp h
  cases e with
  | register | patch | heartbeat | recordProbe =>
    -- the lease book is not touched
    cases hs
    exact hbook
  | deregister | prune =>
    cases hs
    exact hbook
  | backendFor ref =>
    simp only [scratchAfter] at hs
    split at hs
    · cases hs
      simp only
      rw [(backendFor_same cfg _ _ core.scratch).1]
      exact hbook
    · cases hs
  | reserve holder hostId model ceiling capableIds token =>
    -- the token is a new one
    simp only [scratchAfter] at hs
    split at hs
    · cases hs
    · next hfree =>
      cases hs
      refine NodeLeaseBook.consistent_reserve hbook ?_
      rw [← Dict.contains_eq_false]
      simpa using hfree
  | leaseHeartbeat token =>
    cases hs
    exact NodeLeaseBook.consistent_heartbeat hbook token _
  | leaseRelease token =>
    cases hs
    exact NodeLeaseBook.consistent_release hbook token _
  | forceRelease hostId =>
    cases hs
    exact NodeLeaseBook.consistent_forceRelease hbook hostId _
  | listNodes =>
    -- each view may drop one expired lease
    cases hs
    have hfold : ∀ (ids : List String) (book : NodeLeaseBook) (now : Int), book.Consistent →
        (ids.foldl (fun book hostId => (book.view hostId now).2) book).Consistent := by
      intro ids
      induction ids with
      | nil => exact fun _ _ h => h
      | cons id rest ih =>
        exact fun book now h => ih _ now (NodeLeaseBook.looked_view h id now).consistent
    exact hfold _ _ _ hbook

theorem Steps.consistent (h : Steps cfg s e s') (hbook : s.core.scratch.book.Consistent) :
    s'.core.scratch.book.Consistent := by
  cases h with
  | admin hcore => exact admin_consistent hcore hbook
  | own _ moves => exact moves.later.consistent hbook

theorem Started.consistent (h : Started s) : s.core.scratch.book.Consistent :=
  ⟨fun h' => by simp [h.byHost] at h', fun h' => by simp [h.byToken] at h'⟩

/-- The lease book stays consistent. -/
theorem book_consistent {s₀ : State} (hstart : Started s₀) (hrun : Run (Fires (step cfg)) s₀ es s) :
    s.core.scratch.book.Consistent :=
  hrun.invariant (fun s => s.core.scratch.book.Consistent) hstart.consistent
    fun _ _ _ hstep hbook => (steps_of_step hbook hstep).consistent hbook

/-- Every step of a run, as a call or a move. -/
theorem run_steps {s₀ : State} (hstart : Started s₀) (hrun : Run (Fires (step cfg)) s₀ es s) :
    Run (Steps cfg) s₀ es s := by
  induction hrun with
  | nil => exact .nil
  | snoc hrun hstep ih => exact .snoc ih (steps_of_step (book_consistent hstart hrun) hstep)

/-! ## A lab of one node

The gateway that the witnesses and counterexamples of the results about runs start from: no
node is registered, every backend lists its models, and the lease clock ticks once a reading. -/

namespace Lab

def config : Config where
  factory _ := .ok true
  leaseClock n := n

def start : State where
  core :=
    { registry := .empty
      health := {}
      queue := {}
      scratch := { book := { settings := .defaults } }
      router :=
        { policy :=
            ⟨[{ name := "prefer-lower-latency", scoreFn := fun c _ => some (-c.latencyMs) }]⟩ }
      log := [] }
  requests := .empty

theorem started : Started start where
  requests := rfl
  queue := rfl
  byHost := rfl
  byToken := rfl
  idle hostId info h := by simp [start, HostRegistry.lookup, HostRegistry.empty] at h

/-- A node, with the models it may serve; `none` asks the backend. -/
def register (hostId : String) (allowedModels : Option (List String)) (limit : Int) : Event :=
  .admin (.register hostId
    { backendType := some "ollama"
      contextWindow := some 8192
      baseUrl := some "http://gpu:11434"
      allowedModels }
    ⟨some limit⟩ 0)

def limitTo (hostId : String) (limit : Int) : Event :=
  .admin (.patch hostId { maxConcurrentRequests := some (some limit) } 0)

/-- A chat request for the model `m`. -/
def ask (requestId : String) (leaseHeader : Option String := none) (stream : Bool := false) :
    Event :=
  .arrive requestId leaseHeader { model := "m", messages := [⟨"user", "hi"⟩], stream } 0

def response : BackendResponse where
  model := "m"
  content := "hello"
  finishReason := .str "stop"
  promptTokens := .num 1
  completionTokens := .num 1

/-- The backend answers the request. -/
def reply (requestId : String) : Event := .resume requestId (.completed (.ok response)) 0

/-- The request wakes up from its sleep. -/
def wake (requestId : String) : Event := .resume requestId .slept 0

/-- The backend tells the request that it has the model. -/
def list (requestId : String) : Event := .resume requestId (.listed (.ok (some ["m"]))) 0

def reserve (hostId token : String) : Event :=
  .admin (.reserve "bench" (some hostId) none none none token)

end Lab

end LlmHomeLab
