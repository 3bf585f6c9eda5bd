import LlmHomeLab.Api.StreamChunks
import LlmHomeLab.Gateway.Candidates

/-! # A chat request

`chat_completions` of `api/app.py`, cut at its `await`s. A request is in a `Phase` while it is
suspended; `resume` runs it from there to its next suspension or its end. What an `await` gives
back, an exception or a cancellation included, is the `Signal` it is resumed with.
-/

namespace LlmHomeLab

/-! ## State -/

/-- Calls to the metrics registry and the completion log. -/
inductive Recorded where
  | failoverOutcome (requestId : String) (success : Bool)
  | tokenUsage (hostId : String) (promptTokens completionTokens : Json)
  | hostCompletion (hostId : String) (promptTokens completionTokens : Json)
  | completion (hostId : String)

/-- What all requests share. -/
structure Core where
  registry : HostRegistry
  health : HealthMonitor
  queue : SchedulingQueue Waiter
  scratch : Scratch
  router : RoutingEngine
  log : List Recorded

/-- The variables of the wait loop. -/
structure Wait where
  modelHosts : List Nat
  failoverInPlay : Bool
  waited : ℚ

/-- Where a streamed response is suspended. -/
inductive StreamPhase where
  /-- Sending the start of the response; the stream has not been iterated. -/
  | starting
  /-- Waiting for the next chunk of the backend. -/
  | pulling (head : StreamHead) (st : StreamState)
  /-- Sending a payload, the last one if it is `[DONE]`. -/
  | sending (head : StreamHead) (st : StreamState) (done : Bool)
  /-- Closing the backend's stream, shielded, after an exception. -/
  | closing (e : Exn)
  /-- Sending the end of the response; the stream is closed. -/
  | finishing

inductive Outcome where
  | answered (response : BackendResponse)
  | streamed
  | failed (e : Exn)

inductive Phase where
  | arrived
  | discovering (ref : Nat) (d : Discovery)
  | waiting (w : Wait)
  | completing (hostId : String) (failoverInPlay : Bool)
  | streaming (hostId : String) (s : StreamPhase)
  | ended (outcome : Outcome)

/-- A request. The last four fields only record what it has done: whether the queue or a free
host let it through, the host whose `acquire_slot` it executed, the host whose slot it got, and
for each execution of `release_slot` whether it went through. -/
structure Request where
  token : Option String
  body : ChatCompletionRequest
  arrivedAt : Int
  snapshot : List Nat
  phase : Phase
  admitted : Bool := false
  attempted : Option String := none
  slot : Option String := none
  releases : List Bool := []

/-- What an `await` of a request comes back with. -/
inductive Signal where
  /-- `list_models`. -/
  | listed (result : Except Exn (Option (List String)))
  /-- `asyncio.sleep`, at the end of its interval. -/
  | slept
  /-- `complete`. -/
  | completed (result : Except Exn BackendResponse)
  /-- `send`; the first one is followed by the first iteration. -/
  | sent (head : StreamHead) (result : Except Exn Unit)
  /-- The backend's stream: a chunk, or its end. -/
  | chunk (result : Except Exn (Option BackendChunk))
  /-- The cleanup of the stream; shielded, but not from a cancellation of the task itself. -/
  | closed (result : Except Exn Unit)
  /-- An exception in the sleep. -/
  | interrupted (e : Exn)

/-! ## Model -/

namespace Request

def fail (req : Request) (e : Exn) : Request := { req with phase := .ended (.failed e) }

/-- `request.session_id or request_id`. -/
def queueSessionId (req : Request) (requestId : String) : String :=
  match req.body.sessionId with
  | some sessionId => if sessionId = "" then requestId else sessionId
  | none => requestId

end Request

namespace Core

def record (core : Core) (entries : List Recorded) : Core := { core with log := core.log ++ entries }

def recordProbe (core : Core) (hostId : String) (healthy : Bool) (now : Int) : Core :=
  { core with health := core.health.recordProbe hostId healthy now }

def withScratch (core : Core) (scratch : Scratch) : Core := { core with scratch }

def withQueue (core : Core) (queue : SchedulingQueue Waiter) : Core := { core with queue }

def withRegistry (core : Core) (registry : HostRegistry) : Core := { core with registry }

end Core

/-- `registry.release_slot(...)` followed by what comes next; where it raises, nothing does. -/
def releaseThen (core : Core) (req : Request) (hostId : String)
    (next : Core → Request → Core × Request) : Core × Request :=
  match core.registry.releaseSlot hostId with
  | some registry =>
    next (core.withRegistry registry) { req with releases := req.releases ++ [true] }
  | none =>
    (core, { req with releases := req.releases ++ [false] }.fail (.builtin .keyError))

/-- A header value that can be encoded in latin-1. -/
def isLatin1 (s : String) : Bool := s.toList.all fun c => c.toNat < 256

section

variable (cfg : Config) (requestId : String) (now : Int)

/-- `metrics_registry.record_failover_outcome`, where a failover is in play. -/
def recordFailover (core : Core) (failoverInPlay success : Bool) : Core :=
  if failoverInPlay then core.record [.failoverOutcome requestId success] else core

/-- The streaming branch up to the response object. Where the header cannot be encoded, the
stream is closed again. -/
def openStream (core : Core) (req : Request) (hostId : String) (failoverInPlay : Bool) :
    Core × Request :=
  let core := recordFailover requestId core failoverInPlay true
  if isLatin1 hostId then (core, { req with phase := .streaming hostId .starting })
  else releaseThen core req hostId fun core req => (core, req.fail .unicodeEncodeError)

/-- From `router.select_backend` to the backend call. -/
def route (core : Core) (req : Request) (candidates : List RoutingCandidate)
    (failoverInPlay : Bool) : Core × Request :=
  let req := { req with admitted := true }
  match core.router.selectBackend req.body candidates req.body.sessionId with
  | .error e => (core, req.fail e.toExn)
  | .ok (decision, router) =>
    let core := { core with router }
    let hostId := decision.backendId
    if core.scratch.backendsById.contains hostId then
      match core.registry.acquireSlot hostId with
      | none => (core, { req with attempted := some hostId }.fail (.builtin .keyError))
      | some registry =>
        let core := core.withRegistry registry
        let req := { req with attempted := some hostId, slot := some hostId }
        if req.body.stream then openStream requestId core req hostId failoverInPlay
        else (core, { req with phase := .completing hostId failoverInPlay })
    else (core, req.fail (.builtin .keyError))

/-- The `finally` of the wait loop. -/
def leaveQueue (core : Core) (req : Request) : Core :=
  core.withQueue (core.queue.cancel requestId (req.queueSessionId requestId) 0)

/-- The loop condition: sleep again, or give up. -/
def sleepAgain (core : Core) (req : Request) (w : Wait) : Core × Request :=
  if w.waited < cfg.dispatchWaitTimeout then (core, { req with phase := .waiting w })
  else
    (leaveQueue requestId (recordFailover requestId core w.failoverInPlay false) req,
      req.fail (.noAvailableBackend .dispatchTimeout))

/-- The second lease check: of the capable hosts the ones the request may use, or why there
are none. -/
def usableHosts (reg : HostRegistry) (req : Request) (leaseTime : Int) (capable : List Nat)
    (budgetBlocked : Bool) (book : NodeLeaseBook) : Except Exn (List Nat) × NodeLeaseBook :=
  match req.token with
  | some token =>
    match book.require token leaseTime with
    | (.error e, book) => (.error (.lease e), book)
    | (.ok pinned, book) =>
      match capable.filter fun ref => (reg.heap ref).hostId = pinned.hostId with
      | [] => (.error (.modelNotAvailable (some pinned.hostId) req.body.model), book)
      | hosts => (.ok hosts, book)
  | none =>
    let found := openHosts reg leaseTime capable book
    match found.1 with
    | [] =>
      (.error
        (if capable ≠ [] then .noAvailableBackend .everyHostReserved
        else if budgetBlocked then .modelCapacityExceeded req.body.model
        else .modelNotAvailable none req.body.model), found.2)
    | hosts => (.ok hosts, found.2)

/-- From the second lease check to the first look at the candidates, and on from there. -/
def afterDiscovery (core : Core) (req : Request) (capable : List Nat) (budgetBlocked : Bool) :
    Core × Request :=
  let (leaseTime, st) := leaseNow cfg core.scratch
  let usable := usableHosts core.registry req leaseTime capable budgetBlocked st.book
  let core := core.withScratch (st.withBook usable.2)
  match usable.1 with
  | .error e => (core, req.fail e)
  | .ok hosts =>
    let failoverInPlay := hosts.any fun ref => !core.health.isHealthy (core.registry.heap ref).hostId
    match currentCandidates cfg core.registry core.health req.token capable core.scratch with
    | (.error e, st) => (core.withScratch st, req.fail e)
    | (.ok [], st) =>
      let queue := core.queue.enqueue requestId (req.queueSessionId requestId) 0 req.arrivedAt
        (some ⟨req.token, capable⟩)
      sleepAgain cfg requestId ((core.withScratch st).withQueue queue) req
        ⟨capable, failoverInPlay, 0⟩
    | (.ok candidates, st) => route requestId (core.withScratch st) req candidates failoverInPlay

/-- Go on with `_model_capable_hosts`. -/
def continueDiscovery (core : Core) (req : Request) (d : Discovery) : Core × Request :=
  match discover cfg core.registry req.body.model d.capable d.anyBudgetBlocked d.pending
      core.scratch with
  | (.raised e, st) => (core.withScratch st, req.fail e)
  | (.awaiting ref d, st) => (core.withScratch st, { req with phase := .discovering ref d })
  | (.done capable budgetBlocked, st) =>
    afterDiscovery cfg requestId (core.withScratch st) req capable budgetBlocked

/-- The beginning of `chat_completions`, up to `registry.hosts()`. -/
def begin (core : Core) (req : Request) : Core × Request :=
  let (leaseTime, st) := leaseNow cfg core.scratch
  match req.token with
  | none => continueDiscovery cfg requestId (core.withScratch st) req ⟨req.snapshot, [], false⟩
  | some token =>
    match st.book.require token leaseTime with
    | (.error e, book) => (core.withScratch (st.withBook book), req.fail (.lease e))
    | (.ok _, book) =>
      continueDiscovery cfg requestId (core.withScratch (st.withBook book)) req
        ⟨req.snapshot, [], false⟩

/-- `scheduling_queue.dispatch` as the wait loop calls it. -/
def dispatchFor (core : Core) (available : List String) :
    Except Exn (Option String) × SchedulingQueue Waiter × Scratch :=
  SchedulingQueue.dispatch
    (fun allowed => hasFreeCapacity allowed (core.registry.hostRefs.map core.registry.heap))
    (queuedHostIds cfg core.registry core.health) (some available) (some requestId) core.queue
    core.scratch

/-- One turn of the wait loop, from the end of the sleep. -/
def poll (core : Core) (req : Request) (w : Wait) : Core × Request :=
  let w := { w with waited := w.waited + cfg.dispatchPollInterval }
  match currentCandidates cfg core.registry core.health req.token w.modelHosts core.scratch with
  | (.error e, st) => (leaveQueue requestId (core.withScratch st) req, req.fail e)
  | (.ok [], st) => sleepAgain cfg requestId (core.withScratch st) req w
  | (.ok candidates, st) =>
    let core := core.withScratch st
    match dispatchFor cfg requestId core (candidates.map (·.backend.backendId)) with
    | (.error e, queue, st) =>
      (leaveQueue requestId ((core.withScratch st).withQueue queue) req, req.fail e)
    | (.ok dispatched, queue, st) =>
      let core := (core.withScratch st).withQueue queue
      if dispatched = some requestId then
        route requestId (leaveQueue requestId core req) req candidates w.failoverInPlay
      else sleepAgain cfg requestId core req w

/-- The accounting after an answer; the slot has been released. -/
def answer (core : Core) (req : Request) (hostId : String) (failoverInPlay : Bool)
    (response : BackendResponse) : Core × Request :=
  let core := recordFailover requestId core failoverInPlay true
  match recordTokenUsage response.promptTokens response.completionTokens with
  | .error e => (core, req.fail (.builtin e))
  | .ok () =>
    let healthy := response.content.toList.any (fun c => !Json.isSpace c) &&
      match response.finishReason with
      | .str s => s = "stop"
      | _ => false
    let core := core.record [.tokenUsage hostId response.promptTokens response.completionTokens]
    let core :=
      if healthy then
        core.record [.hostCompletion hostId response.promptTokens response.completionTokens,
          .completion hostId]
      else core
    -- the header of the response, encoded as it is set
    (core.recordProbe hostId healthy now,
      if isLatin1 hostId then { req with phase := .ended (.answered response) }
      else req.fail .unicodeEncodeError)

/-- The end of `await backend.complete(request)`. -/
def afterComplete (core : Core) (req : Request) (hostId : String) (failoverInPlay : Bool) :
    Except Exn BackendResponse → Core × Request
  | .ok response =>
    releaseThen core req hostId fun core req =>
      answer requestId now core req hostId failoverInPlay response
  | .error .backendError =>
    let core := (recordFailover requestId core failoverInPlay false).recordProbe hostId false now
    releaseThen core req hostId fun core req => (core, req.fail .backendError)
  | .error e => releaseThen core req hostId fun core req => (core, req.fail e)

/-- The accounting of `_stream_chunks` after the last chunk, up to `[DONE]`. -/
def afterLastChunk (core : Core) (req : Request) (hostId : String) (head : StreamHead)
    (st : StreamState) : Core × Request :=
  match st.account with
  | .error e => releaseThen core req hostId fun core req => (core, req.fail (.builtin e))
  | .ok accounting =>
    let core :=
      match accounting.tokenUsage with
      | none => core
      | some (promptTokens, completionTokens) =>
        core.record (.tokenUsage hostId promptTokens completionTokens ::
          if accounting.hostCompletion then
            [.hostCompletion hostId promptTokens completionTokens]
          else [])
    let core := if accounting.completionLogged then core.record [.completion hostId] else core
    (core.recordProbe hostId accounting.healthy now,
      { req with phase := .streaming hostId (.sending head st true) })

/-- A streamed response, from one `await` to the next. The stream is closed, and the slot
released, by the iterator when it ends or raises, and else by the response. -/
def resumeStream (core : Core) (req : Request) (hostId : String) :
    StreamPhase → Signal → Option (Core × Request)
  | .starting, .sent head (.ok ()) =>
    some (core, { req with phase := .streaming hostId (.pulling head {}) })
  | .starting, .sent _ (.error e) =>
    -- the generator has not started: nothing to clean up
    some (releaseThen core req hostId fun core req => (core, req.fail e))
  | .pulling _ _, .chunk (.error e) =>
    some (core, { req with phase := .streaming hostId (.closing e) })
  | .pulling head st, .chunk (.ok none) => some (afterLastChunk now core req hostId head st)
  | .pulling head st, .chunk (.ok (some chunk)) =>
    match st.take head chunk with
    | .error e => some (core, { req with phase := .streaming hostId (.closing (.builtin e)) })
    | .ok st' =>
      if chunk.isForwarded then
        some (core, { req with phase := .streaming hostId (.sending head st' false) })
      else some (core, { req with phase := .streaming hostId (.pulling head st') })
  | .sending head st false, .sent _ (.ok ()) =>
    some (core, { req with phase := .streaming hostId (.pulling head st) })
  | .sending _ _ false, .sent _ (.error e) =>
    some (core, { req with phase := .streaming hostId (.closing e) })
  | .sending _ _ true, .sent _ (.ok ()) =>
    some (releaseThen core req hostId fun core req =>
      (core, { req with phase := .streaming hostId .finishing }))
  | .sending _ _ true, .sent _ (.error e) =>
    some (releaseThen core req hostId fun core req => (core, req.fail e))
  | .closing e, .closed (.ok ()) =>
    some (releaseThen core req hostId fun core req => (core, req.fail e))
  | .closing _, .closed (.error e) =>
    -- `_release` stands in a `finally`
    some (releaseThen core req hostId fun core req => (core, req.fail e))
  | .finishing, .sent _ (.ok ()) => some (core, { req with phase := .ended .streamed })
  | .finishing, .sent _ (.error e) => some (core, req.fail e)
  | _, _ => none

/-- Run a request from its `await` to the next one. -/
def resume (core : Core) (req : Request) (signal : Signal) : Option (Core × Request) :=
  match req.phase, signal with
  | .discovering _ _, .listed (.error e) => some (core, req.fail e)
  | .discovering ref d, .listed (.ok loaded) =>
    some (continueDiscovery cfg requestId core req
      (d.listed core.registry req.body.model ref loaded))
  | .waiting w, .slept => some (poll cfg requestId core req w)
  | .waiting _, .interrupted e => some (leaveQueue requestId core req, req.fail e)
  | .completing hostId failoverInPlay, .completed result =>
    some (afterComplete requestId now core req hostId failoverInPlay result)
  | .streaming hostId s, signal => resumeStream now core req hostId s signal
  | _, _ => none

end

end LlmHomeLab
