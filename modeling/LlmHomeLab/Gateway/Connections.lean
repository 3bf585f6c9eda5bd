import LlmHomeLab.Backends.Connection
import LlmHomeLab.Gateway.Progress
import LlmHomeLab.Gateway.Slots
import LlmHomeLab.Lib.JsonDump

/-! # Connections and slots

The gateway together with the generators its requests iterate. What a backend call comes back with
is what its generator has come to, and a request that goes on iterates its generator or closes it.
In every run there are at most as many inference connections to a host as slots taken on it.
-/

namespace LlmHomeLab

/-! ## Model -/

/-- The host a request was sent to, and the generator of its chunks. -/
structure BackendCall where
  hostId : String
  chunks : ChunkGenerator

structure Connected where
  gateway : State
  calls : Dict String BackendCall := .empty

inductive ConnectedEvent where
  /-- A step of the gateway that does not wait for a backend call. -/
  | gateway (e : Event)
  /-- The request goes on with what its generator has come to. -/
  | deliver (requestId : String) (now : Int)
  /-- The client library answers the generator of the request. -/
  | http (requestId : String) (answer : HttpAnswer)

def Event.chatId : Event → Option String
  | .admin _ => none
  | .arrive requestId _ _ _ => some requestId
  | .resume requestId _ _ => some requestId

/-- The request is in `complete`, in `anext` of the chunks, or in their `aclose`. -/
def Phase.usesBackend : Phase → Bool
  | .completing _ _ => true
  | .streaming _ (.pulling _ _) => true
  | .streaming _ (.closing _) => true
  | _ => false

/-- What `complete` comes back with, after the end of its chunks. -/
def completed (model : String) (chunks : List BackendChunk) :
    Except AdapterError Unit → Except Exn BackendResponse
  | .error e => .error e.toExn
  | .ok () =>
    match collectYielded model chunks with
    | .error e => .error (.builtin e)
    | .ok response => .ok response

/-- What the request's `await` comes back with, where its generator has come so far. A generator
that has ended by itself is closed at once. -/
def awaited (phase : Phase) (model : String) (g : ChunkGenerator) : Option Signal :=
  match phase, g.pc with
  | .completing _ _, .finished result => some (.completed (completed model g.yielded result))
  | .streaming _ (.pulling _ _), .suspended _ chunk => some (.chunk (.ok (some chunk)))
  | .streaming _ (.pulling _ _), .finished (.ok ()) => some (.chunk (.ok none))
  | .streaming _ (.pulling _ _), .finished (.error e) => some (.chunk (.error e.toExn))
  | .streaming _ (.closing _), .finished _ => some (.closed (.ok ()))
  | .streaming _ (.closing _), .exited (.ok ()) => some (.closed (.ok ()))
  | .streaming _ (.closing _), .exited (.error e) => some (.closed (.error e.toExn))
  | _, _ => none

/-- What the client library answers the generator where it is. -/
def GeneratorPc.awaits : GeneratorPc → HttpAnswer → Bool
  | .opening _, .posted _ => true
  | .refused _ _, .body _ => true
  | .reading _ _, .line _ => true
  | .closing _ _ _, .closed _ => true
  | _, _ => false

namespace Connected

section

variable (cfg : Config) (loads : String → Option Json) (maxRetries : String → Nat)

/-- The call of a request that has taken a step: it has begun, its next chunk is asked for, or it is
closed. -/
def callAfter (call : Option BackendCall) : Phase → Option BackendCall
  | .completing hostId _ =>
    match call with
    | none => some ⟨hostId, ({} : ChunkGenerator).anext (maxRetries hostId)⟩
    | some call => some call
  | .streaming hostId (.pulling _ _) =>
    match call with
    | none => some ⟨hostId, ({} : ChunkGenerator).anext (maxRetries hostId)⟩
    | some call => some { call with chunks := call.chunks.anext (maxRetries call.hostId) }
  | .streaming _ (.closing _) => call.map fun call => { call with chunks := call.chunks.aclose }
  | _ => call

def follow (s : Connected) (requestId : String) (gateway : State) : Connected where
  gateway := gateway
  calls :=
    match (gateway.requests.get? requestId).bind fun req =>
      callAfter maxRetries (s.calls.get? requestId) req.phase with
    | none => s.calls
    | some call => s.calls.set requestId call

/-- `complete` asks for the next chunk at once. -/
def answered (phase : Phase) (hostId : String) (g : ChunkGenerator) : ChunkGenerator :=
  match phase with
  | .completing _ _ => g.anext (maxRetries hostId)
  | _ => g

def step (s : Connected) : ConnectedEvent → Option Connected
  | .gateway e =>
    match e.chatId with
    | none => (LlmHomeLab.step cfg s.gateway e).map fun gateway => { s with gateway }
    | some requestId =>
      if (s.gateway.requests.get? requestId).any (·.phase.usesBackend) then none
      else (LlmHomeLab.step cfg s.gateway e).map (s.follow maxRetries requestId)
  | .deliver requestId now => do
    let req ← s.gateway.requests.get? requestId
    let call ← s.calls.get? requestId
    let signal ← awaited req.phase req.body.model call.chunks
    let gateway ← LlmHomeLab.step cfg s.gateway (.resume requestId signal now)
    return s.follow maxRetries requestId gateway
  | .http requestId answer => do
    let req ← s.gateway.requests.get? requestId
    let call ← s.calls.get? requestId
    let chunks ← call.chunks.answer loads answer
    return { s with
      calls := s.calls.set requestId
        { call with chunks := answered maxRetries req.phase call.hostId chunks } }

end

/-- The responses of a host that are open, or on their way. -/
def connections (s : Connected) (hostId : String) : Nat :=
  ((s.calls.entries.filter fun kv => kv.2.hostId = hostId).map
    fun kv => kv.2.chunks.opened - kv.2.chunks.closed).sum

end Connected

/-! ## Where a request without a slot goes -/

/-- The phases in which no chunk has been asked for, or a first one just now, and those of a
request that fails before. -/
def Phase.Entered : Phase → Prop
  | .completing _ _ => True
  | .streaming _ .starting => True
  | .streaming _ _ => False
  | .ended (.failed _) => True
  | .ended _ => False
  | _ => True

section

variable {cfg : Config} {requestId : String} {core : Core} {req : Request}

theorem route_entered (candidates : List RoutingCandidate) (failoverInPlay : Bool) :
    (route requestId core req candidates failoverInPlay).2.phase.Entered := by
  unfold route
  simp only
  split
  · trivial
  · split
    · split
      · trivial
      · split
        · unfold openStream
          simp only
          split
          · trivial
          · exact releaseThen_cases (P := fun req => req.phase.Entered) (fun _ _ => trivial)
              fun _ => trivial
        · trivial
    · trivial

theorem sleepAgain_entered (w : Wait) : (sleepAgain cfg requestId core req w).2.phase.Entered := by
  unfold sleepAgain
  split
  · trivial
  · trivial

theorem afterDiscovery_entered (capable : List Nat) (budgetBlocked : Bool) :
    (afterDiscovery cfg requestId core req capable budgetBlocked).2.phase.Entered := by
  unfold afterDiscovery
  simp only
  split
  · trivial
  · split
    · trivial
    · exact sleepAgain_entered _
    · exact route_entered _ _

theorem continueDiscovery_entered (d : Discovery) :
    (continueDiscovery cfg requestId core req d).2.phase.Entered := by
  unfold continueDiscovery
  split
  · trivial
  · trivial
  · exact afterDiscovery_entered _ _

theorem begin_entered : (begin cfg requestId core req).2.phase.Entered := by
  unfold begin
  simp only
  split
  · exact continueDiscovery_entered _
  · split
    · trivial
    · exact continueDiscovery_entered _

theorem poll_entered (w : Wait) : (poll cfg requestId core req w).2.phase.Entered := by
  unfold poll
  simp only
  split
  · trivial
  · exact sleepAgain_entered _
  · split
    · trivial
    · split
      · exact route_entered _ _
      · exact sleepAgain_entered _

end

/-! ## A request and its generator -/

/-- In an `anext` that has not come to a chunk. -/
def GeneratorPc.Iterated : GeneratorPc → Prop
  | .opening _ => True
  | .refused _ _ => True
  | .reading _ _ => True
  | .closing _ _ leaving => leaving ≠ .exits
  | .finished _ => True
  | _ => False

def GeneratorPc.Suspended (pc : GeneratorPc) : Prop := ∃ left chunk, pc = .suspended left chunk

/-- In an `aclose`, or at an end. -/
def GeneratorPc.Exiting : GeneratorPc → Prop
  | .closing _ receivedAny leaving => receivedAny = true ∧ leaving = .exits
  | .finished _ => True
  | .exited _ => True
  | _ => False

/-- The generator of a request is where the request expects it. -/
def CallFits (call : Option BackendCall) : Phase → Prop
  | .completing hostId _ => ∃ g, call = some ⟨hostId, g⟩ ∧ g.pc.Iterated
  | .streaming hostId (.pulling _ _) =>
    ∃ g, call = some ⟨hostId, g⟩ ∧ (g.pc.Iterated ∨ g.pc.Suspended)
  | .streaming hostId (.sending _ _ false) => ∃ g, call = some ⟨hostId, g⟩ ∧ g.pc.Suspended
  | .streaming hostId (.closing _) => ∃ g, call = some ⟨hostId, g⟩ ∧ g.pc.Exiting
  | .streaming _ (.sending _ _ true) => ∀ c, call = some c → c.chunks.pc.connected = false
  | .streaming _ .finishing => ∀ c, call = some c → c.chunks.pc.connected = false
  | .ended _ => ∀ c, call = some c → c.chunks.pc.connected = false
  | _ => call = none

/-- Whoever has a response open holds a slot of its host. -/
theorem CallFits.holding {call : BackendCall} {phase : Phase} (h : CallFits (some call) phase)
    (hopen : call.chunks.pc.connected = true) : phase.stage = .holding call.hostId := by
  have hover : ∀ {p : Prop}, (∀ c, some call = some c → c.chunks.pc.connected = false) → p := by
    intro p hclosed
    rw [hclosed call rfl] at hopen
    cases hopen
  cases phase with
  | arrived | discovering | waiting => cases h
  | completing hostId failoverInPlay =>
    obtain ⟨g, hcall, -⟩ := h
    cases hcall
    rfl
  | streaming hostId stream =>
    cases stream with
    | starting => cases h
    | pulling head st =>
      obtain ⟨g, hcall, -⟩ := h
      cases hcall
      rfl
    | sending head st done =>
      cases done with
      | true => exact hover h
      | false =>
        obtain ⟨g, hcall, -⟩ := h
        cases hcall
        rfl
    | closing e =>
      obtain ⟨g, hcall, -⟩ := h
      cases hcall
      rfl
    | finishing => exact hover h
  | ended => exact hover h

section

variable {loads : String → Option Json} {g g' : ChunkGenerator} {a : HttpAnswer}

theorem connected_of_answer (h : g.answer loads a = some g') : g.pc.connected = true := by
  cases ChunkGenerator.answer_cases h with
  | failed here | refused here | accepted here | body here | broken here | ended here | line here
  | closed here | closeFails here =>
    rw [here]
    rfl

theorem raise_iterated (g : ChunkGenerator) (left : Nat) (receivedAny : Bool) (r : Raised) :
    (g.raise left receivedAny r).pc.Iterated := by
  rcases ChunkGenerator.raise_cases g left receivedAny r with ⟨e, hraise⟩ | ⟨-, n, hraise⟩
  · rw [hraise]
    trivial
  · rw [hraise]
    trivial

/-- What an `anext` may come to: it is still under way, or at the next chunk. -/
def ChunkGenerator.Advances (g g' : ChunkGenerator) : Prop :=
  g'.pc.Iterated ∧ g'.yielded = g.yielded ∨
    ∃ left chunk, g'.pc = .suspended left chunk ∧ g'.yielded = g.yielded ++ [chunk]

theorem ChunkGenerator.Advances.iterated (h : g.Advances g') :
    g'.pc.Iterated ∨ g'.pc.Suspended := by
  rcases h with ⟨hpc, -⟩ | ⟨left, chunk, hpc, -⟩
  · exact Or.inl hpc
  · exact Or.inr ⟨left, chunk, hpc⟩

theorem readLine_advances {left : Nat} {receivedAny : Bool} (hpc : g.pc = .reading left receivedAny)
    (line : String) : g.Advances (g.readLine loads left receivedAny line) := by
  have hsame : g.pc.Iterated := by rw [hpc]; trivial
  rcases ChunkGenerator.readLine_cases loads g left receivedAny line with
    hread | ⟨_, leaving, hleaves, hread⟩ | ⟨chunk, hread⟩
  · rw [hread]
    exact Or.inl ⟨hsame, rfl⟩
  · rw [hread]
    exact Or.inl ⟨hleaves, rfl⟩
  · rw [hread]
    exact Or.inr ⟨_, chunk, rfl, rfl⟩

/-- The next chunk, or still none. -/
theorem answer_advances (hpc : g.pc.Iterated) (h : g.answer loads a = some g') : g.Advances g' := by
  have hleaves : ∀ r, Leaving.raises r ≠ .exits := fun r h => by cases h
  have hraise : ∀ closed left receivedAny r,
      g.Advances ({ g with closed }.raise left receivedAny r) :=
    fun closed left receivedAny r =>
      Or.inl ⟨raise_iterated _ _ _ _, ChunkGenerator.raise_yielded _ _ _ _⟩
  cases ChunkGenerator.answer_cases h with
  | failed => exact hraise _ _ _ _
  | refused | accepted => exact Or.inl ⟨trivial, rfl⟩
  | body | broken => exact Or.inl ⟨hleaves _, rfl⟩
  | ended => exact Or.inl ⟨(fun h => by cases h), rfl⟩
  | line here => exact readLine_advances here _
  | @closed left receivedAny leaving here =>
    rw [here] at hpc
    cases leaving with
    | returns => exact Or.inl ⟨trivial, rfl⟩
    | exits => exact absurd rfl hpc
    | raises r => exact hraise _ _ _ _
  | @closeFails left receivedAny leaving e here =>
    rw [here] at hpc
    cases leaving with
    | returns => exact hraise _ _ _ _
    | exits => exact absurd rfl hpc
    | raises r => exact hraise _ _ _ _

/-- An `aclose` that is answered is over. -/
theorem answer_exiting (hpc : g.pc.Exiting) (h : g.answer loads a = some g') : g'.pc.Exiting := by
  cases ChunkGenerator.answer_cases h with
  | failed here | refused here | accepted here | body here | broken here | ended here | line here =>
    rw [here] at hpc
    cases hpc
  | closed here =>
    rw [here] at hpc
    obtain ⟨rfl, rfl⟩ := hpc
    trivial
  | @closeFails left receivedAny leaving e here =>
    rw [here] at hpc
    obtain ⟨rfl, rfl⟩ := hpc
    have hretries : ChunkGenerator.retries left true (.http e) = false := by cases e <;> rfl
    rw [ChunkGenerator.raise_ends hretries]
    trivial

theorem anext_iterated {maxRetries : Nat} (hpc : g.pc.Iterated ∨ g.pc.Suspended) :
    (g.anext maxRetries).pc.Iterated := by
  rcases hpc with hpc | ⟨left, chunk, hpc⟩
  · unfold ChunkGenerator.anext
    split
    · trivial
    · trivial
    · exact hpc
  · simp only [ChunkGenerator.anext, hpc]
    trivial

theorem aclose_exiting (hpc : g.pc.Suspended) : g.aclose.pc.Exiting := by
  obtain ⟨left, chunk, hpc⟩ := hpc
  simp only [ChunkGenerator.aclose, hpc]
  exact ⟨rfl, rfl⟩

end

/-! ## Steps of a request -/

section

variable {cfg : Config} {maxRetries : String → Nat} {requestId : String} {now : Int}
  {core core' : Core} {req req' : Request} {signal : Signal} {call : Option BackendCall}

theorem callFits_ended (h : ∀ c, call = some c → c.chunks.pc.connected = false)
    (hended : ∃ outcome, req'.phase = .ended outcome) :
    CallFits (Connected.callAfter maxRetries call req'.phase) req'.phase := by
  obtain ⟨outcome, hended⟩ := hended
  rw [hended]
  exact h

/-- A request whose generator is not there yet. -/
theorem callFits_entered {phase : Phase} (h : phase.Entered) :
    CallFits (Connected.callAfter maxRetries none phase) phase := by
  cases phase with
  | arrived | discovering | waiting => rfl
  | completing hostId failoverInPlay => exact ⟨_, rfl, trivial⟩
  | streaming hostId stream =>
    cases stream with
    | starting => rfl
    | pulling | sending | closing | finishing => cases h
  | ended outcome => exact fun _ h => by cases h

theorem aclose_of_finished {g : ChunkGenerator} {result : Except AdapterError Unit}
    (hpc : g.pc = .finished result) : g.aclose.pc.Exiting := by
  simp only [ChunkGenerator.aclose, hpc]
  trivial

section

variable {hostId model : String} {head : StreamHead} {st : StreamState} {g : ChunkGenerator}

theorem awaited_uses {phase : Phase} (h : awaited phase model g = some signal) :
    phase.usesBackend = true := by
  unfold awaited at h
  split at h
  all_goals first | rfl | cases h

theorem awaited_error {e : Exn}
    (h : awaited (.streaming hostId (.pulling head st)) model g = some (.chunk (.error e))) :
    ∃ e', g.pc = .finished (.error e') := by
  cases hpc : g.pc with
  | finished result =>
    cases result with
    | ok => simp [awaited, hpc] at h
    | error e' => exact ⟨e', rfl⟩
  | _ => simp [awaited, hpc] at h

theorem awaited_end
    (h : awaited (.streaming hostId (.pulling head st)) model g = some (.chunk (.ok none))) :
    g.pc = .finished (.ok ()) := by
  cases hpc : g.pc with
  | finished result =>
    cases result with
    | ok => rfl
    | error => simp [awaited, hpc] at h
  | _ => simp [awaited, hpc] at h

theorem awaited_chunk {chunk : BackendChunk}
    (h : awaited (.streaming hostId (.pulling head st)) model g =
      some (.chunk (.ok (some chunk)))) :
    ∃ left, g.pc = .suspended left chunk := by
  cases hpc : g.pc with
  | suspended left chunk' =>
    simp only [awaited, hpc, Option.some.injEq, Signal.chunk.injEq, Except.ok.injEq] at h
    exact ⟨left, by rw [h]⟩
  | finished result => cases result <;> simp [awaited, hpc] at h
  | _ => simp [awaited, hpc] at h

theorem awaited_closing {e : Exn}
    (h : awaited (.streaming hostId (.closing e)) model g = some signal) :
    g.pc.connected = false := by
  cases hpc : g.pc with
  | finished | exited => rfl
  | _ => simp [awaited, hpc] at h

theorem awaited_completing {failoverInPlay : Bool}
    (h : awaited (.completing hostId failoverInPlay) model g = some signal) :
    g.pc.connected = false := by
  cases hpc : g.pc with
  | finished => rfl
  | _ => simp [awaited, hpc] at h

end

/-- What a request in a stream does with its generator. -/
theorem resumeStream_callFits {hostId : String} {stream : StreamPhase}
    (hfits : CallFits call (.streaming hostId stream))
    (hsignal : (Phase.streaming hostId stream).usesBackend = true →
      ∃ c, call = some c ∧ awaited (.streaming hostId stream) req.body.model c.chunks = some signal)
    (h : resumeStream now core req hostId stream signal = some (core', req')) :
    CallFits (Connected.callAfter maxRetries call req'.phase) req'.phase := by
  have hended : ∀ {next : Core → Request → Core × Request},
      (∀ c, call = some c → c.chunks.pc.connected = false) →
      some (releaseThen core req hostId next) = some (core', req') →
      (∀ core req, ∃ outcome, (next core req).2.phase = .ended outcome) →
      CallFits (Connected.callAfter maxRetries call req'.phase) req'.phase := by
    intro next hclosed h hnext
    have hreq : req' = (releaseThen core req hostId next).2 :=
      (congrArg Prod.snd (Option.some.inj h)).symm
    refine callFits_ended hclosed ?_
    rw [hreq]
    exact releaseThen_cases (P := fun req => ∃ outcome, req.phase = .ended outcome)
      (fun _ _ => hnext _ _) fun _ => ⟨_, rfl⟩
  have hclosing : ∀ {e : Exn}, stream = .closing e →
      ∀ c, call = some c → c.chunks.pc.connected = false := by
    rintro e rfl c rfl
    obtain ⟨c, hc, hawaited⟩ := hsignal rfl
    cases hc
    exact awaited_closing hawaited
  unfold resumeStream at h
  split at h
  · -- the first chunk is asked for
    cases h
    cases hfits
    exact ⟨_, rfl, Or.inl trivial⟩
  · cases hfits
    exact hended (fun c hc => by cases hc) h fun _ _ => ⟨_, rfl⟩
  · -- the generator has raised
    cases h
    obtain ⟨c, rfl, hawaited⟩ := hsignal rfl
    obtain ⟨g, hcall, -⟩ := hfits
    cases hcall
    obtain ⟨e, hpc⟩ := awaited_error hawaited
    exact ⟨_, rfl, aclose_of_finished hpc⟩
  · -- the generator is at its end
    obtain ⟨c, rfl, hawaited⟩ := hsignal rfl
    have hclosed : ∀ c', some c = some c' → c'.chunks.pc.connected = false := by
      intro c' hc'
      cases hc'
      rw [awaited_end hawaited]
      rfl
    unfold afterLastChunk at h
    split at h
    · exact hended hclosed h fun _ _ => ⟨_, rfl⟩
    · cases h
      exact hclosed
  · obtain ⟨c, rfl, hawaited⟩ := hsignal rfl
    obtain ⟨g, hcall, -⟩ := hfits
    cases hcall
    have hsuspended : g.pc.Suspended := by
      obtain ⟨left, hpc⟩ := awaited_chunk hawaited
      exact ⟨left, _, hpc⟩
    split at h
    · cases h
      exact ⟨_, rfl, aclose_exiting hsuspended⟩
    · split at h
      · cases h
        exact ⟨g, rfl, hsuspended⟩
      · cases h
        exact ⟨_, rfl, Or.inl (anext_iterated (Or.inr hsuspended))⟩
  · -- the chunk has been sent
    cases h
    obtain ⟨g, rfl, hsuspended⟩ := hfits
    exact ⟨_, rfl, Or.inl (anext_iterated (Or.inr hsuspended))⟩
  · cases h
    obtain ⟨g, rfl, hsuspended⟩ := hfits
    exact ⟨_, rfl, aclose_exiting hsuspended⟩
  · -- `[DONE]` has been sent
    have hreq : req' = _ := (congrArg Prod.snd (Option.some.inj h)).symm
    rw [hreq]
    exact releaseThen_cases
      (P := fun req => CallFits (Connected.callAfter maxRetries call req.phase) req.phase)
      (fun _ _ => hfits) fun _ => callFits_ended hfits ⟨_, rfl⟩
  · exact hended hfits h fun _ _ => ⟨_, rfl⟩
  · exact hended (hclosing rfl) h fun _ _ => ⟨_, rfl⟩
  · exact hended (hclosing rfl) h fun _ _ => ⟨_, rfl⟩
  · cases h
    exact callFits_ended hfits ⟨_, rfl⟩
  · cases h
    exact callFits_ended hfits ⟨_, rfl⟩
  · cases h

theorem resume_callFits (hfits : CallFits call req.phase)
    (hsignal : req.phase.usesBackend = true →
      ∃ c, call = some c ∧ awaited req.phase req.body.model c.chunks = some signal)
    (h : resume cfg requestId now core req signal = some (core', req')) :
    CallFits (Connected.callAfter maxRetries call req'.phase) req'.phase := by
  have hentered : call = none → req'.phase.Entered →
      CallFits (Connected.callAfter maxRetries call req'.phase) req'.phase := by
    rintro rfl hphase
    exact callFits_entered hphase
  unfold resume at h
  split at h
  · next hphase =>
    cases h
    rw [hphase] at hfits
    exact hentered hfits trivial
  · next hphase =>
    rw [hphase] at hfits
    have hreq : _ = req' := congrArg Prod.snd (Option.some.inj h)
    refine hentered hfits ?_
    rw [← hreq]
    exact continueDiscovery_entered _
  · next hphase =>
    rw [hphase] at hfits
    have hreq : _ = req' := congrArg Prod.snd (Option.some.inj h)
    refine hentered hfits ?_
    rw [← hreq]
    exact poll_entered _
  · next hphase =>
    cases h
    rw [hphase] at hfits
    exact hentered hfits trivial
  · next hphase =>
    -- `complete` is over, and so are its chunks
    rw [hphase] at hsignal
    obtain ⟨c, rfl, hawaited⟩ := hsignal rfl
    have hclosed : c.chunks.pc.connected = false := awaited_completing hawaited
    have hreq : _ = req' := congrArg Prod.snd (Option.some.inj h)
    refine callFits_ended (fun c' hc' => ?_) ?_
    · cases hc'
      exact hclosed
    · rw [← hreq]
      exact afterComplete_ended _ _ _ _ _ _ _
  · next hphase =>
    rw [hphase] at hfits hsignal
    exact resumeStream_callFits hfits hsignal h
  · cases h

end

/-! ## Whole runs -/

namespace Connected

variable {cfg : Config} {loads : String → Option Json} {maxRetries : String → Nat}
  {s s' : Connected} {e : ConnectedEvent} {es : List ConnectedEvent} {requestId hostId : String}
  {req : Request} {call : BackendCall}

structure Inv (s : Connected) : Prop where
  absent : ∀ {requestId}, s.gateway.requests.get? requestId = none → s.calls.get? requestId = none
  fits : ∀ {requestId req}, s.gateway.requests.get? requestId = some req →
    CallFits (s.calls.get? requestId) req.phase
  balanced : ∀ {requestId call}, s.calls.get? requestId = some call → call.chunks.Balanced

theorem callAfter_eq_none {call : Option BackendCall} {phase : Phase}
    (h : callAfter maxRetries call phase = none) : call = none := by
  unfold callAfter at h
  split at h
  · split at h
    · rfl
    · cases h
  · split at h
    · rfl
    · cases h
  · exact Option.map_eq_none_iff.mp h
  · exact h

theorem calls_follow (s : Connected) {requestId : String} {gateway : State}
    (hreq : gateway.requests.get? requestId = some req) (id : String) :
    (s.follow maxRetries requestId gateway).calls.get? id =
      if id = requestId then callAfter maxRetries (s.calls.get? requestId) req.phase
      else s.calls.get? id := by
  simp only [follow, hreq, Option.bind_some]
  split
  · next hnone =>
    split
    · next hid => rw [hid, hnone, callAfter_eq_none hnone]
    · rfl
  · next call hcall => rw [Dict.get?_set, hcall]

theorem balanced_callAfter {call : Option BackendCall} {phase : Phase}
    (h : ∀ c, call = some c → c.chunks.Balanced) {call' : BackendCall}
    (hafter : callAfter maxRetries call phase = some call') : call'.chunks.Balanced := by
  have hnew : ({} : ChunkGenerator).Balanced := rfl
  unfold callAfter at hafter
  split at hafter
  · split at hafter
    · cases hafter
      exact ChunkGenerator.balanced_anext hnew _
    · cases hafter
      exact h _ rfl
  · split at hafter
    · cases hafter
      exact ChunkGenerator.balanced_anext hnew _
    · cases hafter
      exact ChunkGenerator.balanced_anext (h _ rfl) _
  · obtain ⟨c, rfl, rfl⟩ := Option.map_eq_some_iff.mp hafter
    exact ChunkGenerator.balanced_aclose (h _ rfl)
  · exact h _ hafter

/-- A step of a request, with what it leaves of its call. -/
theorem Inv.follow (h : s.Inv) {core : Core}
    (hfits : CallFits (callAfter maxRetries (s.calls.get? requestId) req.phase) req.phase) :
    (s.follow maxRetries requestId ⟨core, s.gateway.requests.set requestId req⟩).Inv := by
  have hcalls : ∀ id,
      (s.follow maxRetries requestId ⟨core, s.gateway.requests.set requestId req⟩).calls.get? id =
        if id = requestId then callAfter maxRetries (s.calls.get? requestId) req.phase
        else s.calls.get? id :=
    s.calls_follow (Dict.get?_set_self _)
  refine ⟨fun {id} hnone => ?_, fun {id r} hr => ?_, fun {id c} hc => ?_⟩
  · have hrequests : (s.gateway.requests.set requestId req).get? id = none := hnone
    rw [Dict.get?_set] at hrequests
    split at hrequests
    · cases hrequests
    · next hid =>
      rw [hcalls, if_neg hid]
      exact h.absent hrequests
  · have hrequests : (s.gateway.requests.set requestId req).get? id = some r := hr
    rw [Dict.get?_set] at hrequests
    rw [hcalls]
    split at hrequests
    · next hid =>
      cases hrequests
      rw [if_pos hid]
      exact hfits
    · next hid =>
      rw [if_neg hid]
      exact h.fits hrequests
  · rw [hcalls] at hc
    split at hc
    · exact balanced_callAfter (fun _ => h.balanced) hc
    · exact h.balanced hc

/-- The generator has come further. -/
theorem fits_answered {g g' : ChunkGenerator} {answer : HttpAnswer} {phase : Phase}
    (hfits : CallFits (some ⟨hostId, g⟩) phase) (hanswer : g.answer loads answer = some g') :
    CallFits (some ⟨hostId, answered maxRetries phase hostId g'⟩) phase := by
  have hopen : g.pc.connected = true := connected_of_answer hanswer
  have hover : ∀ {p : Prop},
      (∀ c, some (BackendCall.mk hostId g) = some c → c.chunks.pc.connected = false) → p := by
    intro p hclosed
    rw [hclosed _ rfl] at hopen
    cases hopen
  cases phase with
  | arrived | discovering | waiting => cases hfits
  | completing id failoverInPlay =>
    obtain ⟨g, hcall, hpc⟩ := hfits
    cases hcall
    exact ⟨_, rfl, anext_iterated (answer_advances hpc hanswer).iterated⟩
  | streaming id stream =>
    cases stream with
    | starting => cases hfits
    | pulling head st =>
      obtain ⟨g, hcall, hpc | ⟨left, chunk, hpc⟩⟩ := hfits
      · cases hcall
        exact ⟨_, rfl, (answer_advances hpc hanswer).iterated⟩
      · -- nothing is awaited at a `yield`
        cases hcall
        cases answer <;> simp [ChunkGenerator.answer, hpc] at hanswer
    | sending head st done =>
      cases done with
      | true => exact hover hfits
      | false =>
        obtain ⟨g, hcall, left, chunk, hpc⟩ := hfits
        cases hcall
        cases answer <;> simp [ChunkGenerator.answer, hpc] at hanswer
    | closing e =>
      obtain ⟨g, hcall, hpc⟩ := hfits
      cases hcall
      exact ⟨_, rfl, answer_exiting hpc hanswer⟩
    | finishing => exact hover hfits
  | ended outcome => exact hover hfits

/-- Before anything has been asked of a backend. -/
structure StartedIdle (s : Connected) : Prop where
  gateway : Started s.gateway
  calls : s.calls = .empty

/-- The request of an answer, with its call. -/
theorem http_cases {answer : HttpAnswer}
    (h : step cfg loads maxRetries s (.http requestId answer) = some s') :
    ∃ req call chunks, s.gateway.requests.get? requestId = some req ∧
      s.calls.get? requestId = some call ∧ call.chunks.answer loads answer = some chunks ∧
      s' = { s with
        calls := s.calls.set requestId
          { call with chunks := answered maxRetries req.phase call.hostId chunks } } := by
  simp only [step] at h
  obtain ⟨req, hreq, h⟩ := Option.bind_eq_some_iff.mp h
  obtain ⟨call, hcall, h⟩ := Option.bind_eq_some_iff.mp h
  obtain ⟨chunks, hanswer, h⟩ := Option.bind_eq_some_iff.mp h
  exact ⟨req, call, chunks, hreq, hcall, hanswer, (Option.some.inj h).symm⟩

/-- A step of the gateway, and what the request that takes it knows of its backend call. -/
theorem gateway_cases
    (h : step cfg loads maxRetries s e = some s') :
    (∃ a core, e = .gateway (.admin a) ∧ adminStep cfg s.gateway.core a = some core ∧
      s' = { s with gateway := { s.gateway with core } }) ∨
    (∃ e' requestId req core req',
      (e = .gateway e' ∨ (∃ now, e = .deliver requestId now) ∧ req.phase.usesBackend = true) ∧
      Ran cfg s.gateway requestId req e' core req' ∧
      (∀ signal now, e' = .resume requestId signal now → req.phase.usesBackend = true →
        ∃ c, s.calls.get? requestId = some c ∧
          awaited req.phase req.body.model c.chunks = some signal) ∧
      s' = s.follow maxRetries requestId ⟨core, s.gateway.requests.set requestId req'⟩) ∨
    ∃ requestId answer, e = .http requestId answer := by
  cases e with
  | http requestId answer => exact Or.inr (Or.inr ⟨requestId, answer, rfl⟩)
  | deliver requestId now =>
    refine Or.inr (Or.inl ?_)
    simp only [step] at h
    obtain ⟨req, hreq, h⟩ := Option.bind_eq_some_iff.mp h
    obtain ⟨call, hcall, h⟩ := Option.bind_eq_some_iff.mp h
    obtain ⟨signal, hawaited, h⟩ := Option.bind_eq_some_iff.mp h
    obtain ⟨gateway, hstep, h⟩ := Option.bind_eq_some_iff.mp h
    cases h
    rcases step_cases hstep with ⟨a, core, ha, -⟩ | ⟨id, req', core, req'', hran, rfl⟩
    · cases ha
    · cases hran with
      | resumes present returns =>
        obtain rfl := Option.some.inj (hreq.symm.trans present)
        refine ⟨_, requestId, req, core, req'', Or.inr ⟨⟨now, rfl⟩, awaited_uses hawaited⟩,
          .resumes present returns, ?_, rfl⟩
        rintro signal' now' hsame -
        cases hsame
        exact ⟨call, hcall, hawaited⟩
  | gateway e' =>
    cases e' with
    | admin a =>
      obtain ⟨gateway, hstep, rfl⟩ := Option.map_eq_some_iff.mp h
      obtain ⟨core, hcore, rfl⟩ := Option.map_eq_some_iff.mp hstep
      exact Or.inl ⟨a, core, rfl, hcore, rfl⟩
    | arrive requestId header body now =>
      refine Or.inr (Or.inl ?_)
      simp only [step, Event.chatId] at h
      split at h
      · cases h
      · obtain ⟨gateway, hstep, rfl⟩ := Option.map_eq_some_iff.mp h
        rcases step_cases hstep with ⟨a, core, ha, -⟩ | ⟨id, req, core, req', hran, rfl⟩
        · cases ha
        · cases hran with
          | begins absent =>
            refine ⟨_, _, _, _, _, Or.inl rfl, .begins absent, ?_, rfl⟩
            rintro signal now' hsame
            cases hsame
    | resume requestId signal now =>
      refine Or.inr (Or.inl ?_)
      simp only [step, Event.chatId] at h
      split at h
      · cases h
      · next hidle =>
        obtain ⟨gateway, hstep, rfl⟩ := Option.map_eq_some_iff.mp h
        rcases step_cases hstep with ⟨a, core, ha, -⟩ | ⟨id, req, core, req', hran, rfl⟩
        · cases ha
        · cases hran with
          | resumes present returns =>
            refine ⟨_, _, _, _, _, Or.inl rfl, .resumes present returns, ?_, rfl⟩
            intro signal' now' _ huses
            simp [present, huses] at hidle

theorem Inv.step (h : s.Inv) (hstep : step cfg loads maxRetries s e = some s') : s'.Inv := by
  rcases gateway_cases hstep with ⟨a, core, -, -, rfl⟩ |
    ⟨e', requestId, req, core, req', -, hran, hsignal, rfl⟩ | ⟨requestId, answer, rfl⟩
  · exact ⟨h.absent, h.fits, h.balanced⟩
  · refine h.follow ?_
    cases hran with
    | begins absent =>
      rw [h.absent absent]
      exact callFits_entered begin_entered
    | resumes present returns =>
      exact resume_callFits (h.fits present) (hsignal _ _ rfl) returns
  · obtain ⟨req, call, chunks, hreq, hcall, hanswer, rfl⟩ := http_cases hstep
    have hfits : CallFits (some call) req.phase := by
      rw [← hcall]
      exact h.fits hreq
    refine ⟨fun {id} hnone => ?_, fun {id r} hr => ?_, fun {id c} hc => ?_⟩
    · have hne : id ≠ requestId := by
        rintro rfl
        rw [hreq] at hnone
        cases hnone
      rw [Dict.get?_set_of_ne _ hne]
      exact h.absent hnone
    · by_cases hid : id = requestId
      · subst hid
        obtain rfl := Option.some.inj (hreq.symm.trans hr)
        rw [Dict.get?_set_self]
        exact fits_answered hfits hanswer
      · rw [Dict.get?_set_of_ne _ hid]
        exact h.fits hr
    · rw [Dict.get?_set] at hc
      split at hc
      · cases hc
        have hbalanced : chunks.Balanced :=
          ChunkGenerator.balanced_answer (h.balanced hcall) hanswer
        unfold answered
        split
        · exact ChunkGenerator.balanced_anext hbalanced _
        · exact hbalanced
      · exact h.balanced hc

theorem inv_run {s₀ : Connected} (hstart : StartedIdle s₀)
    (hrun : Run (Fires (step cfg loads maxRetries)) s₀ es s) : s.Inv := by
  refine hrun.invariant Inv ?_ fun _ _ _ hstep hinv => hinv.step hstep
  refine ⟨fun _ => ?_, fun hreq => ?_, fun hcall => ?_⟩
  · simp [hstart.calls]
  · simp [hstart.gateway.requests] at hreq
  · simp [hstart.calls] at hcall

/-- No host is deregistered while a request has a slot on it. -/
def KeepsHeldHosts (s : Connected) : ConnectedEvent → Prop
  | .gateway e => LlmHomeLab.KeepsHeldHosts s.gateway e
  | _ => True

theorem gateway_step (h : step cfg loads maxRetries s e = some s') :
    s'.gateway = s.gateway ∨ ∃ e', LlmHomeLab.step cfg s.gateway e' = some s'.gateway ∧
      (KeepsHeldHosts s e → LlmHomeLab.KeepsHeldHosts s.gateway e') := by
  cases e with
  | gateway e' =>
    refine Or.inr ⟨e', ?_, id⟩
    simp only [step] at h
    split at h
    · obtain ⟨gateway, hstep, rfl⟩ := Option.map_eq_some_iff.mp h
      exact hstep
    · split at h
      · cases h
      · obtain ⟨gateway, hstep, rfl⟩ := Option.map_eq_some_iff.mp h
        exact hstep
  | deliver requestId now =>
    simp only [step] at h
    obtain ⟨req, hreq, h⟩ := Option.bind_eq_some_iff.mp h
    obtain ⟨call, hcall, h⟩ := Option.bind_eq_some_iff.mp h
    obtain ⟨signal, hawaited, h⟩ := Option.bind_eq_some_iff.mp h
    obtain ⟨gateway, hstep, h⟩ := Option.bind_eq_some_iff.mp h
    cases h
    exact Or.inr ⟨_, hstep, fun _ => trivial⟩
  | http requestId answer =>
    obtain ⟨req, call, chunks, -, -, -, rfl⟩ := http_cases h
    exact Or.inl rfl

/-- The gateway is in a run of its own. -/
theorem gateway_run {s₀ : Connected} (hrun : Run (Fires (step cfg loads maxRetries)) s₀ es s) :
    ∃ es', Run (Fires (LlmHomeLab.step cfg)) s₀.gateway es' s.gateway := by
  refine hrun.image Connected.gateway fun _ _ _ hstep => ?_
  rcases gateway_step hstep with hsame | ⟨e', hstep', -⟩
  · exact Or.inl hsame
  · exact Or.inr ⟨e', hstep'⟩

theorem gateway_keeps {s₀ : Connected}
    (hrun : Run (Guarded KeepsHeldHosts (Fires (step cfg loads maxRetries))) s₀ es s) :
    ∃ es', Run (Guarded LlmHomeLab.KeepsHeldHosts (Fires (LlmHomeLab.step cfg))) s₀.gateway es'
      s.gateway := by
  refine hrun.image Connected.gateway fun _ _ _ hnext => ?_
  obtain ⟨hkeeps, hstep⟩ := hnext
  rcases gateway_step hstep with hsame | ⟨e', hstep', hkeeps'⟩
  · exact Or.inl hsame
  · exact Or.inr ⟨e', hkeeps' hkeeps, hstep'⟩

/-! ## Connections -/

/-- Every call has one response open, or none. -/
theorem connections_eq (h : s.Inv) (hostId : String) :
    s.connections hostId =
      s.calls.count fun call => decide (call.hostId = hostId) && call.chunks.pc.connected := by
  have hlist : ∀ l : List (String × BackendCall), (∀ kv ∈ l, kv.2.chunks.Balanced) →
      ((l.filter fun kv => kv.2.hostId = hostId).map
          fun kv => kv.2.chunks.opened - kv.2.chunks.closed).sum =
        l.countP fun kv => decide (kv.2.hostId = hostId) && kv.2.chunks.pc.connected := by
    intro l
    induction l with
    | nil => exact fun _ => rfl
    | cons kv rest ih =>
      intro hbalanced
      have hrest := ih fun kv' hkv' => hbalanced kv' (List.mem_cons_of_mem _ hkv')
      have hopen : kv.2.chunks.opened = kv.2.chunks.closed + kv.2.chunks.pc.connected.toNat :=
        hbalanced kv List.mem_cons_self
      by_cases hid : kv.2.hostId = hostId
      · cases hconnected : kv.2.chunks.pc.connected with
        | false => simp [hid, hconnected, hopen, hrest]
        | true =>
          simp [hid, hconnected, hopen, hrest]
          omega
      · simp [hid, hrest]
  exact hlist s.calls.entries fun kv hkv => h.balanced ((Dict.get?_eq_some s.calls).mpr hkv)

/-- A request with a response open has a slot. -/
theorem Inv.holds (h : s.Inv) (hslots : SlotsFit s.gateway)
    (hcall : s.calls.get? requestId = some call) (hopen : call.chunks.pc.connected = true) :
    ∃ req, s.gateway.requests.get? requestId = some req ∧ req.holdsSlot call.hostId = true := by
  cases hreq : s.gateway.requests.get? requestId with
  | none =>
    rw [h.absent hreq] at hcall
    cases hcall
  | some req =>
    have hfits : CallFits (some call) req.phase := by
      rw [← hcall]
      exact h.fits hreq
    obtain ⟨hslot, hnil⟩ := slotFits_holding (hslots _ _ hreq) (hfits.holding hopen)
    exact ⟨req, rfl, by simp [Request.holdsSlot, hslot, hnil]⟩

theorem connections_le_slotHolders (h : s.Inv) (hslots : SlotsFit s.gateway) (hostId : String) :
    s.connections hostId ≤ s.gateway.slotHolders hostId := by
  rw [connections_eq h hostId]
  refine Dict.count_le_count fun requestId call hcall htest => ?_
  simp only [Bool.and_eq_true, decide_eq_true_eq] at htest
  obtain ⟨rfl, hopen⟩ := htest
  exact h.holds hslots hcall hopen

/-! ## Nothing hangs -/

theorem answer_goes_on {g : ChunkGenerator} {answer : HttpAnswer} (h : g.pc.awaits answer = true) :
    (g.answer loads answer).isSome := by
  cases hpc : g.pc with
  | opening left =>
    cases answer with
    | posted result =>
      cases result with
      | error e => simp [ChunkGenerator.answer, hpc]
      | ok statusCode =>
        simp only [ChunkGenerator.answer, hpc]
        split <;> rfl
    | body | line | closed => simp [hpc, GeneratorPc.awaits] at h
  | refused left statusCode =>
    cases answer with
    | body result => cases result <;> simp [ChunkGenerator.answer, hpc]
    | posted | line | closed => simp [hpc, GeneratorPc.awaits] at h
  | reading left receivedAny =>
    cases answer with
    | line result =>
      cases result with
      | error e => simp [ChunkGenerator.answer, hpc]
      | ok line => cases line <;> simp [ChunkGenerator.answer, hpc]
    | posted | body | closed => simp [hpc, GeneratorPc.awaits] at h
  | closing left receivedAny leaving =>
    cases answer with
    | closed result => cases result <;> simp [ChunkGenerator.answer, hpc]
    | posted | body | line => simp [hpc, GeneratorPc.awaits] at h
  | created | suspended | finished | exited => simp [hpc, GeneratorPc.awaits] at h

/-- With a response open, only a `yield` awaits nothing of the client library. -/
theorem awaits_of_connected {pc : GeneratorPc} (hopen : pc.connected = true)
    (hnot : ∀ left chunk, pc ≠ .suspended left chunk) : ∃ answer, pc.awaits answer = true := by
  cases pc with
  | opening => exact ⟨.posted (.ok 200), rfl⟩
  | refused => exact ⟨.body (.ok ""), rfl⟩
  | reading => exact ⟨.line (.ok none), rfl⟩
  | suspended left chunk => exact absurd rfl (hnot left chunk)
  | closing => exact ⟨.closed (.ok ()), rfl⟩
  | created | finished | exited => cases hopen

/-- Where its generator waits for nothing, the request gets what it awaits. -/
theorem awaited_or_awaits {phase : Phase} (model : String) (huses : phase.usesBackend = true)
    (hfits : CallFits (some call) phase) :
    (∃ answer, call.chunks.pc.awaits answer = true) ∨
      ∃ signal, awaited phase model call.chunks = some signal ∧ phase.awaits signal = true := by
  cases phase with
  | arrived | discovering | waiting | ended => cases huses
  | completing id failoverInPlay =>
    obtain ⟨g, hcall, hpc⟩ := hfits
    cases hcall
    cases hwhere : g.pc with
    | finished result => exact Or.inr ⟨_, by simp [awaited, hwhere]; rfl, rfl⟩
    | opening | refused | reading | closing =>
      exact Or.inl (awaits_of_connected rfl fun _ _ h => by cases h)
    | created | suspended | exited => simp [hwhere, GeneratorPc.Iterated] at hpc
  | streaming id stream =>
    cases stream with
    | starting | sending | finishing => cases huses
    | pulling head st =>
      obtain ⟨g, hcall, hpc⟩ := hfits
      cases hcall
      cases hwhere : g.pc with
      | suspended left chunk =>
        exact Or.inr ⟨.chunk (.ok (some chunk)), by simp [awaited, hwhere], rfl⟩
      | finished result =>
        cases result with
        | ok => exact Or.inr ⟨.chunk (.ok none), by simp [awaited, hwhere], rfl⟩
        | error e => exact Or.inr ⟨.chunk (.error e.toExn), by simp [awaited, hwhere], rfl⟩
      | opening | refused | reading | closing =>
        exact Or.inl (awaits_of_connected rfl fun _ _ h => by cases h)
      | created | exited => simp [hwhere, GeneratorPc.Iterated, GeneratorPc.Suspended] at hpc
    | closing e =>
      obtain ⟨g, hcall, hpc⟩ := hfits
      cases hcall
      cases hwhere : g.pc with
      | finished result => exact Or.inr ⟨.closed (.ok ()), by simp [awaited, hwhere], rfl⟩
      | exited result =>
        cases result with
        | ok => exact Or.inr ⟨.closed (.ok ()), by simp [awaited, hwhere], rfl⟩
        | error e => exact Or.inr ⟨.closed (.error e.toExn), by simp [awaited, hwhere], rfl⟩
      | closing =>
        exact Or.inl (awaits_of_connected rfl fun _ _ h => by cases h)
      | created | opening | refused | reading | suspended =>
        simp [hwhere, GeneratorPc.Exiting] at hpc

theorem Inv.called (h : s.Inv) (hreq : s.gateway.requests.get? requestId = some req)
    (huses : req.phase.usesBackend = true) : ∃ call, s.calls.get? requestId = some call := by
  have hfits := h.fits hreq
  cases hphase : req.phase with
  | arrived | discovering | waiting | ended => simp [hphase, Phase.usesBackend] at huses
  | completing id failoverInPlay =>
    rw [hphase] at hfits
    obtain ⟨g, hcall, -⟩ := hfits
    exact ⟨_, hcall⟩
  | streaming id stream =>
    rw [hphase] at hfits
    cases stream with
    | starting | sending | finishing => simp [hphase, Phase.usesBackend] at huses
    | pulling | closing =>
      obtain ⟨g, hcall, -⟩ := hfits
      exact ⟨_, hcall⟩

theorem http_goes_on {answer : HttpAnswer} (hreq : s.gateway.requests.get? requestId = some req)
    (hcall : s.calls.get? requestId = some call) (hawaits : call.chunks.pc.awaits answer = true) :
    (step cfg loads maxRetries s (.http requestId answer)).isSome := by
  have hgoes : (call.chunks.answer loads answer).isSome := answer_goes_on hawaits
  obtain ⟨chunks, hanswer⟩ := Option.isSome_iff_exists.mp hgoes
  simp [step, hreq, hcall, hanswer]

theorem deliver_goes_on {signal : Signal} {now : Int}
    (hreq : s.gateway.requests.get? requestId = some req)
    (hcall : s.calls.get? requestId = some call)
    (hawaited : awaited req.phase req.body.model call.chunks = some signal)
    (hawaits : req.phase.awaits signal = true) :
    (step cfg loads maxRetries s (.deliver requestId now)).isSome := by
  have hgoes : (resume cfg requestId now s.gateway.core req signal).isSome := resume_goes_on hawaits
  obtain ⟨⟨core, req'⟩, hresume⟩ := Option.isSome_iff_exists.mp hgoes
  simp [step, LlmHomeLab.step, hreq, hcall, hawaited, hresume]

/-- In every run, a host has at most as many connections as slots taken on it, and not more than
its counter says while no host is deregistered that has a slot taken. A call has one response open
at most, and its request has a slot of the host then. A request that awaits its backend goes on with
every answer to its generator, or it has got what it awaits. -/
theorem connections_within_slots {s₀ : Connected} (hstart : StartedIdle s₀)
    (hrun : Run (Fires (step cfg loads maxRetries)) s₀ es s) :
    (∀ hostId, s.connections hostId ≤ s.gateway.slotHolders hostId) ∧
    (Run (Guarded KeepsHeldHosts (Fires (step cfg loads maxRetries))) s₀ es s →
      ∀ hostId n, s.gateway.core.registry.inFlight hostId = some n → s.connections hostId ≤ n) ∧
    (∀ requestId call, s.calls.get? requestId = some call →
      call.chunks.opened = call.chunks.closed ∨
        call.chunks.opened = call.chunks.closed + 1 ∧
          ∃ req, s.gateway.requests.get? requestId = some req ∧ req.holdsSlot call.hostId = true) ∧
    ∀ requestId req, s.gateway.requests.get? requestId = some req →
      req.phase.usesBackend = true →
        ((∃ call, s.calls.get? requestId = some call ∧
            (∃ answer, call.chunks.pc.awaits answer = true) ∧
            ∀ answer, call.chunks.pc.awaits answer = true →
              (step cfg loads maxRetries s (.http requestId answer)).isSome) ∨
          ∀ now, (step cfg loads maxRetries s (.deliver requestId now)).isSome) := by
  have hinv : s.Inv := inv_run hstart hrun
  obtain ⟨es', hgateway⟩ := gateway_run hrun
  have hslots : SlotsFit s.gateway := slotsFit_run hstart.gateway hgateway
  refine ⟨connections_le_slotHolders hinv hslots, fun hkeeps hostId n hn => ?_,
    fun requestId call hcall => ?_, fun requestId req hreq huses => ?_⟩
  · obtain ⟨es', hkept⟩ := gateway_keeps hkeeps
    have hcounts := (slotInv_run hstart.gateway hkept).counts hostId
    rw [hn, Option.getD_some] at hcounts
    rw [hcounts]
    exact Int.ofNat_le.mpr (connections_le_slotHolders hinv hslots hostId)
  · have hopen : call.chunks.opened = call.chunks.closed + call.chunks.pc.connected.toNat :=
      hinv.balanced hcall
    cases hconnected : call.chunks.pc.connected with
    | false => exact Or.inl (by simpa [hconnected] using hopen)
    | true =>
      exact Or.inr ⟨by simpa [hconnected] using hopen, hinv.holds hslots hcall hconnected⟩
  · obtain ⟨call, hcall⟩ := hinv.called hreq huses
    have hfits : CallFits (some call) req.phase := by
      rw [← hcall]
      exact hinv.fits hreq
    rcases awaited_or_awaits req.body.model huses hfits with
      hwaits | ⟨signal, hawaited, hawaits⟩
    · exact Or.inl ⟨call, hcall, hwaits, fun answer ha => http_goes_on hreq hcall ha⟩
    · exact Or.inr fun now => deliver_goes_on hreq hcall hawaited hawaits

/-- A stream whose first POST is refused, and whose client goes away at the first chunk: a slot is
taken until the response is closed. -/
theorem connections_within_slots_hangup :
    let loads := JsonText.loads (JsonText.intHooks (fun _ => none) fun _ => none)
    let hangup : List ConnectedEvent :=
      [.gateway (Lab.register "gpu" (some ["m"]) 1), .gateway (Lab.ask "a" none true),
        .gateway (.resume "a" (.sent ⟨"chatcmpl-1", 0, "m"⟩ (.ok ())) 0),
        .http "a" (.posted (.error (.transport "refused"))), .http "a" (.posted (.ok 200)),
        .http "a" (.line (.ok (some
          "data: \x7b\"choices\": [\x7b\"delta\": \x7b\"content\": \"hi\"\x7d\x7d]\x7d"))),
        .deliver "a" 0,
        .gateway (.resume "a" (.sent ⟨"chatcmpl-1", 0, "m"⟩ (.error .raised)) 0)]
    (∃ s, Run (Fires (step Lab.config loads fun _ => 2)) ⟨Lab.start, .empty⟩ hangup s ∧
      s.gateway.slotHolders "gpu" = 1 ∧
      (s.calls.get? "a").map (fun call => (call.chunks.opened, call.chunks.closed)) = some (2, 1) ∧
      s.connections "gpu" ≤ s.gateway.slotHolders "gpu") ∧
    ∃ s, Run (Fires (step Lab.config loads fun _ => 2)) ⟨Lab.start, .empty⟩
        (hangup ++ [.http "a" (.closed (.ok ())), .deliver "a" 0]) s ∧
      s.gateway.slotHolders "gpu" = 0 ∧ s.connections "gpu" ≤ s.gateway.slotHolders "gpu" := by
  intro loads hangup
  have hstart : StartedIdle ⟨Lab.start, .empty⟩ := ⟨Lab.started, rfl⟩
  have hopen : (exec (step Lab.config loads fun _ => 2) ⟨Lab.start, .empty⟩ hangup).map
      (fun s => (s.gateway.slotHolders "gpu",
        (s.calls.get? "a").map fun call => (call.chunks.opened, call.chunks.closed))) =
      some (1, some (2, 1)) := by decide +kernel
  have hclosed : (exec (step Lab.config loads fun _ => 2) ⟨Lab.start, .empty⟩
      (hangup ++ [.http "a" (.closed (.ok ())), .deliver "a" 0])).map
      (fun s => s.gateway.slotHolders "gpu") = some 0 := by decide +kernel
  obtain ⟨s, hrun, hshown⟩ := run_of_shows hopen
  obtain ⟨t, hrun', hzero⟩ := run_of_shows hclosed
  simp only [Prod.mk.injEq] at hshown
  exact ⟨⟨s, hrun, hshown.1, hshown.2, (connections_within_slots hstart hrun).1 "gpu"⟩,
    t, hrun', hzero, (connections_within_slots hstart hrun').1 "gpu"⟩

end Connected

end LlmHomeLab
