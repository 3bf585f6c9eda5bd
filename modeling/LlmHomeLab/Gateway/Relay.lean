import LlmHomeLab.Gateway.Connections

/-! # What a client is told

A run of the gateway with its generators, where what the backend has said and what the client has
been sent is written down: for each request the lines of the last response to it, and the payloads
of its stream. An answer is made of the lines of one response, whole and in order, and so is a
stream as far as it has come.
-/

namespace LlmHomeLab

/-! ## Model -/

/-- What has been sent of a stream. -/
structure Received where
  payloads : List ChunkPayload := []
  /-- `[DONE]` has been sent. -/
  done : Bool := false

/-- With the end of a `send`. -/
def Received.after (received : Received) : Phase → Signal → Received
  | .streaming _ (.sending _ st false), .sent _ (.ok ()) =>
    { received with payloads := received.payloads ++ st.forwarded.getLast?.toList }
  | .streaming _ (.sending _ _ true), .sent _ (.ok ()) => { received with done := true }
  | _, _ => received

/-- The gateway with its generators. The last two fields record what it has been told and has
said. -/
structure Relay where
  system : Connected
  heard : String → List String := fun _ => []
  received : String → Received := fun _ => {}

namespace Relay

def hear (heard : String → List String) : ConnectedEvent → String → List String
  | .http requestId answer =>
    Function.update heard requestId (ChunkGenerator.hearing (heard requestId) answer)
  | _ => heard

def say (s : State) (received : String → Received) : ConnectedEvent → String → Received
  | .gateway (.resume requestId signal _) =>
    match s.requests.get? requestId with
    | none => received
    | some req => Function.update received requestId ((received requestId).after req.phase signal)
  | _ => received

def step (cfg : Config) (loads : String → Option Json) (maxRetries : String → Nat) (r : Relay)
    (e : ConnectedEvent) : Option Relay :=
  (r.system.step cfg loads maxRetries e).map fun system =>
    ⟨system, hear r.heard e, say r.system.gateway r.received e⟩

end Relay

/-! ## A request and its client -/

/-- The payloads of the chunks of a stream. -/
def payloadsOf (head : StreamHead) (chunks : List BackendChunk) : List ChunkPayload :=
  (chunks.filter (·.isForwarded)).map (·.payload head)

/-- The chunks the request has taken. -/
def ChunkGenerator.taken (g : ChunkGenerator) : List BackendChunk :=
  match g.pc with
  | .suspended _ _ => g.yielded.dropLast
  | _ => g.yielded

/-- Of the chunks of the generator the client has some first ones, all of them after `[DONE]`. -/
def Relayed (call : Option BackendCall) (received : Received) : Prop :=
  received = {} ∨ ∃ c head, call = some c ∧ received.payloads <+: payloadsOf head c.chunks.yielded ∧
    (received.done = true →
      c.chunks.pc = .finished (.ok ()) ∧ received.payloads = payloadsOf head c.chunks.yielded)

/-- All of them, and `[DONE]`. -/
def RelayedAll (call : Option BackendCall) (received : Received) : Prop :=
  ∃ c head, call = some c ∧ c.chunks.pc = .finished (.ok ()) ∧
    received = ⟨payloadsOf head c.chunks.yielded, true⟩

/-- What a client has been sent, by the phase of its request. -/
def Told (model : String) (call : Option BackendCall) (received : Received) : Phase → Prop
  | .streaming _ (.pulling head st) =>
    ∃ c, call = some c ∧ StreamState.takeAll head {} c.chunks.taken = (st, none) ∧
      received = ⟨st.forwarded, false⟩
  | .streaming _ (.sending head st false) =>
    ∃ c payload, call = some c ∧ StreamState.takeAll head {} c.chunks.yielded = (st, none) ∧
      st.forwarded = received.payloads ++ [payload] ∧ received.done = false
  | .streaming _ (.sending head st true) =>
    ∃ c, call = some c ∧ c.chunks.pc = .finished (.ok ()) ∧
      StreamState.takeAll head {} c.chunks.yielded = (st, none) ∧ received = ⟨st.forwarded, false⟩
  | .streaming _ .finishing => RelayedAll call received
  | .ended .streamed => RelayedAll call received
  | .streaming _ (.closing _) => Relayed call received
  | .ended (.failed _) => Relayed call received
  | .ended (.answered response) =>
    received = {} ∧ ∃ c, call = some c ∧ c.chunks.pc = .finished (.ok ()) ∧
      collectYielded model c.chunks.yielded = .ok response
  | _ => received = {}

theorem takeAll_payloads {head : StreamHead} {st : StreamState} {chunks : List BackendChunk}
    (h : StreamState.takeAll head {} chunks = (st, none)) :
    st.forwarded = payloadsOf head chunks := by
  have hforwarded := (takeAll_ok h).2.2.2
  simpa [payloadsOf] using hforwarded

theorem takeAll_snoc {head : StreamHead} {st st' st₀ : StreamState} {chunk : BackendChunk}
    {chunks : List BackendChunk} (h : st₀.takeAll head chunks = (st, none))
    (htake : st.take head chunk = .ok st') :
    st₀.takeAll head (chunks ++ [chunk]) = (st', none) := by
  induction chunks generalizing st₀ with
  | nil =>
    cases h
    simp [StreamState.takeAll, htake]
  | cons c rest ih =>
    cases hc : st₀.take head c with
    | error e => simp [StreamState.takeAll, hc] at h
    | ok st₁ =>
      simp only [StreamState.takeAll, hc] at h
      simp only [List.cons_append, StreamState.takeAll, hc]
      exact ih h

theorem RelayedAll.relayed {call : Option BackendCall} {received : Received}
    (h : RelayedAll call received) : Relayed call received := by
  obtain ⟨c, head, hcall, hpc, rfl⟩ := h
  exact Or.inr ⟨c, head, hcall, List.prefix_rfl, fun _ => ⟨hpc, rfl⟩⟩

section

variable {cfg : Config} {loads : String → Option Json} {maxRetries : String → Nat}
  {requestId hostId model : String} {now : Int} {core core' : Core} {req req' : Request}
  {signal : Signal} {call : Option BackendCall} {received : Received}

theorem relayed_of_takeAll {c : BackendCall} {head : StreamHead} {st : StreamState}
    {chunks : List BackendChunk} (h : StreamState.takeAll head {} chunks = (st, none))
    (hchunks : chunks <+: c.chunks.yielded) (hpayloads : received.payloads <+: st.forwarded)
    (hnot : received.done = false) : Relayed (some c) received := by
  refine Or.inr ⟨c, head, rfl, ?_, fun h => ?_⟩
  · rw [takeAll_payloads h] at hpayloads
    exact hpayloads.trans ((hchunks.filter _).map _)
  · rw [hnot] at h
    cases h

theorem taken_yielded (g : ChunkGenerator) : g.taken <+: g.yielded := by
  unfold ChunkGenerator.taken
  split
  · exact List.dropLast_prefix _
  · exact List.prefix_rfl

/-- A request that has not begun to send. -/
theorem told_entered {phase : Phase} (h : phase.Entered) : Told model call {} phase := by
  cases phase with
  | arrived | discovering | waiting | completing => rfl
  | streaming id stream =>
    cases stream with
    | starting => rfl
    | pulling | sending | closing | finishing => cases h
  | ended outcome =>
    cases outcome with
    | failed e => exact Or.inl rfl
    | answered | streamed => cases h

theorem aclose_yielded (g : ChunkGenerator) : g.aclose.yielded = g.yielded := by
  unfold ChunkGenerator.aclose
  split <;> rfl

theorem Relayed.aclosed {c : BackendCall} (h : Relayed (some c) received)
    (hnot : received.done = false) :
    Relayed (some { c with chunks := c.chunks.aclose }) received := by
  rcases h with rfl | ⟨c, head, hcall, hprefix, -⟩
  · exact Or.inl rfl
  · cases hcall
    refine Or.inr ⟨_, head, rfl, ?_, fun h => ?_⟩
    · rwa [aclose_yielded]
    · rw [hnot] at h
      cases h

/-- What is left of a stream that fails. -/
theorem told_released {e : Exn} (hrelayed : Relayed call received)
    (h : some (releaseThen core req hostId fun core req => (core, req.fail e)) =
      some (core', req')) :
    Told model (Connected.callAfter maxRetries call req'.phase) received req'.phase := by
  have hreq : _ = req' := congrArg Prod.snd (Option.some.inj h)
  rw [← hreq]
  exact releaseThen_cases
    (P := fun req => Told model (Connected.callAfter maxRetries call req.phase) received req.phase)
    (fun _ _ => hrelayed) fun _ => hrelayed

theorem taken_suspended {g : ChunkGenerator} {left : Nat} {chunk : BackendChunk}
    {before : List BackendChunk} (hpc : g.pc = .suspended left chunk)
    (hyielded : g.yielded = before ++ [chunk]) : g.taken = before := by
  simp only [ChunkGenerator.taken, hpc, hyielded, List.dropLast_concat]

theorem taken_iterated {g : ChunkGenerator} (hpc : g.pc.Iterated) : g.taken = g.yielded := by
  unfold ChunkGenerator.taken
  split
  · next hsuspended => simp [hsuspended, GeneratorPc.Iterated] at hpc
  · rfl

theorem taken_anext {g : ChunkGenerator} {maxRetries : Nat} (hpc : g.pc.Suspended) :
    (g.anext maxRetries).taken = g.yielded := by
  obtain ⟨left, chunk, hpc⟩ := hpc
  simp only [ChunkGenerator.anext, hpc, ChunkGenerator.taken]

theorem told_resumeStream {stream : StreamPhase} {lines : List String}
    (hfits : CallFits call (.streaming hostId stream))
    (hheard : ∀ c, call = some c → c.chunks.Heard loads lines)
    (htold : Told model call received (.streaming hostId stream))
    (hsignal : (Phase.streaming hostId stream).usesBackend = true →
      ∃ c, call = some c ∧ awaited (.streaming hostId stream) req.body.model c.chunks = some signal)
    (h : resumeStream now core req hostId stream signal = some (core', req')) :
    Told model (Connected.callAfter maxRetries call req'.phase)
      (received.after (.streaming hostId stream) signal) req'.phase := by
  unfold resumeStream at h
  split at h
  · -- the first chunk is asked for
    cases h
    cases hfits
    cases htold
    exact ⟨_, rfl, rfl, rfl⟩
  · cases htold
    exact told_released (Or.inl rfl) h
  · -- the generator has raised
    cases h
    obtain ⟨c, rfl, htaken, rfl⟩ := htold
    exact (relayed_of_takeAll htaken (taken_yielded _) List.prefix_rfl rfl).aclosed rfl
  · -- the generator is at its end
    obtain ⟨c, hcall, hawaited⟩ := hsignal rfl
    cases hcall
    obtain ⟨c', hcall, htaken, rfl⟩ := htold
    cases hcall
    have hpc : c.chunks.pc = .finished (.ok ()) := awaited_end hawaited
    unfold afterLastChunk at h
    split at h
    · exact told_released (relayed_of_takeAll htaken (taken_yielded _) List.prefix_rfl rfl) h
    · cases h
      refine ⟨c, rfl, hpc, ?_, rfl⟩
      simpa [ChunkGenerator.taken, hpc] using htaken
  · obtain ⟨c, hcall, hawaited⟩ := hsignal rfl
    cases hcall
    obtain ⟨c', hcall, htaken, rfl⟩ := htold
    cases hcall
    obtain ⟨left, hpc⟩ := awaited_chunk hawaited
    have hhere := (hheard c rfl).here
    simp only [ChunkGenerator.HeardAt, hpc] at hhere
    obtain ⟨-, before, hyielded⟩ := hhere
    rw [taken_suspended hpc hyielded] at htaken
    split at h
    · cases h
      refine (relayed_of_takeAll htaken ?_ List.prefix_rfl rfl).aclosed rfl
      rw [hyielded]
      exact List.prefix_append _ _
    · next st' htake =>
      have hall := takeAll_snoc htaken htake
      rw [← hyielded] at hall
      have hforwarded := (take_ok htake).2.2.2
      split at h
      · next hsend =>
        cases h
        rw [if_pos hsend] at hforwarded
        exact ⟨c, _, rfl, hall, hforwarded, rfl⟩
      · next hskip =>
        cases h
        rw [if_neg hskip, List.append_nil] at hforwarded
        refine ⟨_, rfl, ?_, ?_⟩
        · rw [taken_anext ⟨left, _, hpc⟩]
          exact hall
        · rw [hforwarded]
          rfl
  · -- the chunk has been sent
    cases h
    obtain ⟨c, payload, rfl, hall, hforwarded, hnot⟩ := htold
    obtain ⟨g, hcall, hsuspended⟩ := hfits
    cases hcall
    refine ⟨_, rfl, ?_, ?_⟩
    · rw [taken_anext hsuspended]
      exact hall
    · simp only [Received.after, hforwarded, List.getLast?_concat, Option.toList_some, hnot]
  · cases h
    obtain ⟨c, payload, rfl, hall, hforwarded, hnot⟩ := htold
    refine (relayed_of_takeAll hall List.prefix_rfl ?_ hnot).aclosed hnot
    rw [hforwarded]
    exact List.prefix_append _ _
  · -- `[DONE]` has been sent
    obtain ⟨c, rfl, hpc, hall, rfl⟩ := htold
    have hsent : RelayedAll (some c) ⟨_, true⟩ :=
      ⟨c, _, rfl, hpc, congrArg (fun payloads => Received.mk payloads true) (takeAll_payloads hall)⟩
    have hreq : _ = req' := congrArg Prod.snd (Option.some.inj h)
    rw [← hreq]
    exact releaseThen_cases
      (P := fun req => Told model (Connected.callAfter maxRetries (some c) req.phase) _ req.phase)
      (fun _ _ => hsent) fun _ => hsent.relayed
  · obtain ⟨c, rfl, hpc, hall, rfl⟩ := htold
    exact told_released (relayed_of_takeAll hall List.prefix_rfl List.prefix_rfl rfl) h
  · exact told_released htold h
  · exact told_released htold h
  · cases h
    exact htold
  · cases h
    exact RelayedAll.relayed htold
  · cases h

theorem completed_ok {g : ChunkGenerator} {failoverInPlay : Bool} {response : BackendResponse}
    (h : awaited (.completing hostId failoverInPlay) model g =
      some (.completed (.ok response))) :
    g.pc = .finished (.ok ()) ∧ collectYielded model g.yielded = .ok response := by
  cases hpc : g.pc with
  | finished result =>
    cases result with
    | error e => simp [awaited, completed, hpc] at h
    | ok =>
      simp only [awaited, completed, hpc, Option.some.injEq, Signal.completed.injEq] at h
      split at h
      · cases h
      · next hcollected =>
        cases h
        exact ⟨rfl, hcollected⟩
  | _ => simp [awaited, hpc] at h

/-- A request whose `complete` is over has its response, or fails. -/
theorem told_completed {failoverInPlay : Bool} {result : Except Exn BackendResponse}
    (hcollected : ∀ response, result = .ok response → ∃ c, call = some c ∧
      c.chunks.pc = .finished (.ok ()) ∧ collectYielded model c.chunks.yielded = .ok response)
    (h : some (afterComplete requestId now core req hostId failoverInPlay result) =
      some (core', req')) :
    Told model (Connected.callAfter maxRetries call req'.phase) {} req'.phase := by
  have hreq : _ = req' := congrArg Prod.snd (Option.some.inj h)
  unfold afterComplete at h hreq
  split at h
  · next response =>
    rw [← hreq]
    refine releaseThen_cases
      (P := fun req => Told model (Connected.callAfter maxRetries call req.phase) {} req.phase)
      (fun core releases => ?_) fun _ => Or.inl rfl
    unfold answer
    cases recordTokenUsage response.promptTokens response.completionTokens with
    | error e => exact Or.inl rfl
    | ok =>
      cases isLatin1 hostId with
      | true => exact ⟨rfl, hcollected response rfl⟩
      | false => exact Or.inl rfl
  · exact told_released (Or.inl rfl) h
  · exact told_released (Or.inl rfl) h

theorem told_resume {lines : List String} (hfits : CallFits call req.phase)
    (hheard : ∀ c, call = some c → c.chunks.Heard loads lines)
    (htold : Told req.body.model call received req.phase)
    (hsignal : req.phase.usesBackend = true →
      ∃ c, call = some c ∧ awaited req.phase req.body.model c.chunks = some signal)
    (h : resume cfg requestId now core req signal = some (core', req')) :
    Told req.body.model (Connected.callAfter maxRetries call req'.phase)
      (received.after req.phase signal) req'.phase := by
  have hreq : ∀ {x : Core × Request}, some x = some (core', req') → x.2 = req' :=
    fun h => congrArg Prod.snd (Option.some.inj h)
  unfold resume at h
  split at h
  · next hphase =>
    cases h
    rw [hphase] at htold ⊢
    cases htold
    exact Or.inl rfl
  · next hphase =>
    rw [hphase] at htold ⊢
    cases htold
    rw [← hreq h]
    exact told_entered (continueDiscovery_entered _)
  · next hphase =>
    rw [hphase] at htold ⊢
    cases htold
    rw [← hreq h]
    exact told_entered (poll_entered _)
  · next hphase =>
    cases h
    rw [hphase] at htold ⊢
    cases htold
    exact Or.inl rfl
  · next hphase =>
    rw [hphase] at htold hsignal ⊢
    cases htold
    obtain ⟨c, rfl, hawaited⟩ := hsignal rfl
    refine told_completed (fun response hresult => ?_) h
    rw [hresult] at hawaited
    exact ⟨c, rfl, completed_ok hawaited⟩
  · next hphase =>
    rw [hphase] at hfits htold hsignal ⊢
    exact told_resumeStream hfits hheard htold hsignal h
  · cases h

/-- The client is told nothing while the backend answers. -/
theorem told_answered {g g' : ChunkGenerator} {answer : HttpAnswer} {phase : Phase}
    (hfits : CallFits (some ⟨hostId, g⟩) phase)
    (htold : Told model (some ⟨hostId, g⟩) received phase)
    (hanswer : g.answer loads answer = some g') :
    Told model (some ⟨hostId, Connected.answered maxRetries phase hostId g'⟩) received phase := by
  have hopen : g.pc.connected = true := connected_of_answer hanswer
  have hover : ∀ {result : Except AdapterError Unit} {p : Prop}, g.pc = .finished result → p := by
    intro result p hpc
    rw [hpc] at hopen
    cases hopen
  have hrelayed : Relayed (some ⟨hostId, g⟩) received → Relayed (some ⟨hostId, g'⟩) received := by
    rintro (rfl | ⟨c, head, hcall, hprefix, hdone⟩)
    · exact Or.inl rfl
    · cases hcall
      refine Or.inr ⟨_, head, rfl, ?_, fun h => hover (hdone h).1⟩
      exact hprefix.trans (((ChunkGenerator.yielded_grows hanswer).filter _).map _)
  cases phase with
  | arrived | discovering | waiting | completing => exact htold
  | streaming id stream =>
    cases stream with
    | starting => exact htold
    | pulling head st =>
      obtain ⟨c, hcall, htaken, hreceived⟩ := htold
      cases hcall
      obtain ⟨g, hcall, hpc | ⟨left, chunk, hpc⟩⟩ := hfits
      · cases hcall
        refine ⟨_, rfl, ?_, hreceived⟩
        have hsame : g'.taken = g.taken := by
          rw [taken_iterated hpc]
          rcases answer_advances hpc hanswer with ⟨hpc', hyielded⟩ | ⟨left, chunk, hpc', hyielded⟩
          · rw [taken_iterated hpc', hyielded]
          · exact taken_suspended hpc' hyielded
        change StreamState.takeAll head {} g'.taken = (st, none)
        rw [hsame]
        exact htaken
      · -- nothing is awaited at a `yield`
        cases hcall
        cases answer <;> simp [ChunkGenerator.answer, hpc] at hanswer
    | sending head st done =>
      cases done with
      | true =>
        obtain ⟨c, hcall, hpc, -⟩ := htold
        cases hcall
        exact hover hpc
      | false =>
        obtain ⟨g, hcall, left, chunk, hpc⟩ := hfits
        cases hcall
        cases answer <;> simp [ChunkGenerator.answer, hpc] at hanswer
    | closing e => exact hrelayed htold
    | finishing =>
      obtain ⟨c, head, hcall, hpc, -⟩ := htold
      cases hcall
      exact hover hpc
  | ended outcome =>
    cases outcome with
    | failed e => exact hrelayed htold
    | streamed =>
      obtain ⟨c, head, hcall, hpc, -⟩ := htold
      cases hcall
      exact hover hpc
    | answered response =>
      obtain ⟨-, c, hcall, hpc, -⟩ := htold
      cases hcall
      exact hover hpc

theorem heard_callAfter {lines : List String} {phase : Phase} {call' : BackendCall}
    (hheard : ∀ c, call = some c → c.chunks.Heard loads lines) (hsilent : call = none → lines = [])
    (h : Connected.callAfter maxRetries call phase = some call') :
    call'.chunks.Heard loads lines := by
  have hnew : call = none → ({} : ChunkGenerator).Heard loads lines := by
    intro hnone
    rw [hsilent hnone]
    exact ⟨rfl, rfl⟩
  unfold Connected.callAfter at h
  split at h
  · split at h
    · cases h
      exact ChunkGenerator.heard_anext (hnew rfl) _
    · cases h
      exact hheard _ rfl
  · split at h
    · cases h
      exact ChunkGenerator.heard_anext (hnew rfl) _
    · cases h
      exact ChunkGenerator.heard_anext (hheard _ rfl) _
  · obtain ⟨c, rfl, rfl⟩ := Option.map_eq_some_iff.mp h
    exact ChunkGenerator.heard_aclose (hheard _ rfl)
  · exact hheard _ h

/-- A call is new, or goes to the host it went to. -/
theorem callAfter_hostId {phase : Phase} {call' : BackendCall}
    (h : Connected.callAfter maxRetries call phase = some call') :
    (∃ c, call = some c ∧ call'.hostId = c.hostId) ∨ phase.stage = .holding call'.hostId := by
  unfold Connected.callAfter at h
  split at h
  · split at h
    · cases h
      exact Or.inr rfl
    · cases h
      exact Or.inl ⟨_, rfl, rfl⟩
  · split at h
    · cases h
      exact Or.inr rfl
    · cases h
      exact Or.inl ⟨_, rfl, rfl⟩
  · obtain ⟨c, rfl, rfl⟩ := Option.map_eq_some_iff.mp h
    exact Or.inl ⟨c, rfl, rfl⟩
  · exact Or.inl ⟨_, h, rfl⟩

theorem CallFits.before {phase : Phase} (h : CallFits call phase) (hstage : phase.stage = .before) :
    call = none := by
  cases phase with
  | arrived | discovering | waiting => exact h
  | completing | ended => cases hstage
  | streaming id stream => cases stream <;> cases hstage

/-- Who has a slot keeps it in mind. -/
theorem SlotMove.slot_kept {reg reg' : HostRegistry} (h : SlotMove reg req reg' req')
    (hnot : req.phase.stage ≠ .before) : req'.slot = req.slot := by
  cases h with
  | keep _ slot => exact slot
  | acquire before => exact absurd before hnot
  | bounce before => exact absurd before hnot
  | release _ _ _ slot => exact slot
  | releaseRaises _ _ _ slot => exact slot

end

/-! ## Whole runs -/

namespace Relay

variable {cfg : Config} {loads : String → Option Json} {maxRetries : String → Nat}
  {r r' r₀ : Relay} {e : ConnectedEvent} {es : List ConnectedEvent} {requestId hostId : String}
  {req : Request} {call : BackendCall}

structure Inv (loads : String → Option Json) (r : Relay) : Prop where
  told : ∀ {requestId req}, r.system.gateway.requests.get? requestId = some req →
    Told req.body.model (r.system.calls.get? requestId) (r.received requestId) req.phase
  heard : ∀ {requestId call}, r.system.calls.get? requestId = some call →
    call.chunks.Heard loads (r.heard requestId)
  placed : ∀ {requestId req call}, r.system.gateway.requests.get? requestId = some req →
    r.system.calls.get? requestId = some call → req.slot = some call.hostId
  absent : ∀ {requestId}, r.system.gateway.requests.get? requestId = none →
    r.received requestId = {}
  silent : ∀ {requestId}, r.system.calls.get? requestId = none → r.heard requestId = []

theorem system_step (h : step cfg loads maxRetries r e = some r') :
    r.system.step cfg loads maxRetries e = some r'.system ∧ r'.heard = hear r.heard e ∧
      r'.received = say r.system.gateway r.received e := by
  obtain ⟨system, hsystem, rfl⟩ := Option.map_eq_some_iff.mp h
  exact ⟨hsystem, rfl, rfl⟩

theorem system_run (hrun : Run (Fires (step cfg loads maxRetries)) r₀ es r) :
    ∃ es', Run (Fires (Connected.step cfg loads maxRetries)) r₀.system es' r.system :=
  hrun.image Relay.system fun _ e _ hstep => Or.inr ⟨e, (system_step hstep).1⟩

theorem after_of_usesBackend {received : Received} {phase : Phase} {signal : Signal}
    (huses : phase.usesBackend = true) : received.after phase signal = received := by
  cases phase with
  | arrived | discovering | waiting | ended => cases huses
  | completing => rfl
  | streaming id stream =>
    cases stream with
    | starting | sending | finishing => cases huses
    | pulling | closing => rfl

/-- A step of a request, with what its client has been told then. -/
theorem Inv.own {core : Core} {received : Received} (h : r.Inv loads)
    (hsystem : r'.system =
      r.system.follow maxRetries requestId ⟨core, r.system.gateway.requests.set requestId req⟩)
    (hheard : r'.heard = r.heard)
    (hreceived : r'.received = Function.update r.received requestId received)
    (htold : Told req.body.model
      (Connected.callAfter maxRetries (r.system.calls.get? requestId) req.phase) received req.phase)
    (hplaced : ∀ call, Connected.callAfter maxRetries (r.system.calls.get? requestId) req.phase =
      some call → req.slot = some call.hostId) : r'.Inv loads := by
  have hrequests : ∀ id, r'.system.gateway.requests.get? id =
      if id = requestId then some req else r.system.gateway.requests.get? id := by
    intro id
    rw [hsystem]
    exact Dict.get?_set _
  have hcalls : ∀ id, r'.system.calls.get? id =
      if id = requestId then
        Connected.callAfter maxRetries (r.system.calls.get? requestId) req.phase
      else r.system.calls.get? id := by
    intro id
    rw [hsystem]
    exact r.system.calls_follow (Dict.get?_set_self _) id
  refine ⟨fun {id q} hq => ?_, fun {id c} hc => ?_, fun {id q c} hq hc => ?_, fun {id} hnone => ?_,
    fun {id} hnone => ?_⟩
  · rw [hrequests] at hq
    rw [hcalls, hreceived]
    by_cases hid : id = requestId
    · subst hid
      rw [if_pos rfl, Option.some.injEq] at hq
      subst hq
      rw [if_pos rfl, Function.update_self]
      exact htold
    · rw [if_neg hid] at hq
      rw [if_neg hid, Function.update_of_ne hid]
      exact h.told hq
  · rw [hcalls] at hc
    rw [hheard]
    split at hc
    · next hid =>
      rw [hid]
      exact heard_callAfter (fun _ => h.heard) h.silent hc
    · exact h.heard hc
  · rw [hrequests] at hq
    rw [hcalls] at hc
    split at hq
    · next hid =>
      cases hq
      rw [if_pos hid] at hc
      exact hplaced _ hc
    · next hid =>
      rw [if_neg hid] at hc
      exact h.placed hq hc
  · rw [hrequests] at hnone
    split at hnone
    · cases hnone
    · next hid =>
      rw [hreceived, Function.update_of_ne hid]
      exact h.absent hnone
  · rw [hcalls] at hnone
    rw [hheard]
    split at hnone
    · next hid =>
      rw [hid]
      exact h.silent (Connected.callAfter_eq_none hnone)
    · exact h.silent hnone

/-- A request that takes a step is where its call is. -/
theorem placed_own {core core' : Core} {req' : Request} {call' : BackendCall} (h : r.Inv loads)
    (hfits : ∀ {requestId req}, r.system.gateway.requests.get? requestId = some req →
      CallFits (r.system.calls.get? requestId) req.phase)
    (habsent : ∀ {requestId}, r.system.gateway.requests.get? requestId = none →
      r.system.calls.get? requestId = none)
    (hslots : SlotsFit r.system.gateway) {e : Event}
    (hactor : Actor r.system.gateway requestId req e)
    (hmoves : Moves cfg requestId core req core' req')
    (hcall : Connected.callAfter maxRetries (r.system.calls.get? requestId) req'.phase =
      some call') : req'.slot = some call'.hostId := by
  rcases callAfter_hostId hcall with ⟨c, hc, hid⟩ | hstage
  · -- its call has begun before, so it has had its slot
    cases hactor with
    | arrives absent =>
      rw [habsent absent] at hc
      cases hc
    | resumes present =>
      have hnot : req.phase.stage ≠ .before := by
        intro hbefore
        rw [(hfits present).before hbefore] at hc
        cases hc
      rw [hmoves.slot.slot_kept hnot, hid]
      exact h.placed present hc
  · exact (slotFits_holding (hmoves.fits (hslots.actor hactor)) hstage).1

theorem Inv.step (h : r.Inv loads) (hinv : r.system.Inv) (hslots : SlotsFit r.system.gateway)
    (hbook : r.system.gateway.core.scratch.book.Consistent)
    (hstep : step cfg loads maxRetries r e = some r') : r'.Inv loads := by
  obtain ⟨hsystem, hheard, hreceived⟩ := system_step hstep
  rcases Connected.gateway_cases hsystem with ⟨a, core, rfl, -, hsame⟩ |
    ⟨e', requestId, req, core, req', he, hran, hsignal, hfollow⟩ | ⟨requestId, answer, rfl⟩
  · -- no request takes a step
    have hheard' : r'.heard = r.heard := hheard
    have hreceived' : r'.received = r.received := hreceived
    have hcalls : r'.system.calls = r.system.calls := by rw [hsame]
    have hrequests : r'.system.gateway.requests = r.system.gateway.requests := by rw [hsame]
    constructor
    · intro id q hq
      rw [hrequests] at hq
      rw [hcalls, hreceived']
      exact h.told hq
    · intro id c hc
      rw [hcalls] at hc
      rw [hheard']
      exact h.heard hc
    · intro id q c hq hc
      rw [hrequests] at hq
      rw [hcalls] at hc
      exact h.placed hq hc
    · intro id hnone
      rw [hrequests] at hnone
      rw [hreceived']
      exact h.absent hnone
    · intro id hnone
      rw [hcalls] at hnone
      rw [hheard']
      exact h.silent hnone
  · have hheard' : r'.heard = r.heard := by
      rcases he with rfl | ⟨⟨now, rfl⟩, -⟩
      · exact hheard
      · exact hheard
    have hplaced : ∀ call,
        Connected.callAfter maxRetries (r.system.calls.get? requestId) req'.phase = some call →
        req'.slot = some call.hostId :=
      fun _ hcall => placed_own h hinv.fits hinv.absent hslots hran.actor (hran.moves hbook) hcall
    cases hran with
    | @begins header body now absent =>
      have hreceived' : r'.received = Function.update r.received requestId {} := by
        rw [← h.absent absent, Function.update_eq_self]
        rcases he with rfl | ⟨⟨now, rfl⟩, -⟩
        · exact hreceived
        · exact hreceived
      refine h.own hfollow hheard' hreceived' ?_ hplaced
      exact told_entered begin_entered
    | @resumes req req' signal now core present returns =>
      have hreceived' : r'.received =
          Function.update r.received requestId ((r.received requestId).after req.phase signal) := by
        rcases he with rfl | ⟨⟨now, rfl⟩, huses⟩
        · rw [hreceived]
          simp only [say, present]
        · rw [after_of_usesBackend huses, Function.update_eq_self]
          exact hreceived
      refine h.own hfollow hheard' hreceived' ?_ hplaced
      have hbody : req'.body = req.body := (resume_moves hbook returns).params.body
      rw [hbody]
      exact told_resume (hinv.fits present) (fun _ => h.heard) (h.told present) (hsignal _ _ rfl)
        returns
  · obtain ⟨req, call, chunks, hreq, hcall, hanswer, hanswered⟩ := Connected.http_cases hsystem
    have hcalls : ∀ id, r'.system.calls.get? id =
        if id = requestId then
          some { call with chunks := Connected.answered maxRetries req.phase call.hostId chunks }
        else r.system.calls.get? id := by
      intro id
      rw [hanswered]
      exact Dict.get?_set _
    have hrequests : r'.system.gateway.requests = r.system.gateway.requests := by rw [hanswered]
    have hreceived' : r'.received = r.received := hreceived
    constructor
    · intro id q hq
      rw [hrequests] at hq
      rw [hcalls, hreceived']
      split
      · next hid =>
        subst hid
        obtain rfl := Option.some.inj (hreq.symm.trans hq)
        have hfits := hinv.fits hreq
        have htold := h.told hreq
        rw [hcall] at hfits htold
        exact told_answered hfits htold hanswer
      · exact h.told hq
    · intro id c hc
      rw [hcalls] at hc
      rw [hheard]
      by_cases hid : id = requestId
      · subst hid
        rw [if_pos rfl, Option.some.injEq] at hc
        subst hc
        simp only [hear, Function.update_self]
        have hheard := ChunkGenerator.heard_answer (h.heard hcall) hanswer
        unfold Connected.answered
        split
        · exact ChunkGenerator.heard_anext hheard _
        · exact hheard
      · rw [if_neg hid] at hc
        simp only [hear, Function.update_of_ne hid]
        exact h.heard hc
    · intro id q c hq hc
      rw [hrequests] at hq
      rw [hcalls] at hc
      split at hc
      · next hid =>
        subst hid
        cases hc
        have hplaced : q.slot = some call.hostId := h.placed hq hcall
        exact hplaced
      · exact h.placed hq hc
    · intro id hnone
      rw [hrequests] at hnone
      rw [hreceived']
      exact h.absent hnone
    · intro id hnone
      rw [hcalls] at hnone
      split at hnone
      · cases hnone
      · next hid =>
        rw [hheard]
        simp only [hear, Function.update_of_ne hid]
        exact h.silent hnone

theorem inv_run {c₀ : Connected} (hstart : Connected.StartedIdle c₀)
    (hrun : Run (Fires (step cfg loads maxRetries)) { system := c₀ } es r) : r.Inv loads := by
  induction hrun with
  | nil =>
    constructor
    · intro id q hq
      simp [hstart.gateway.requests] at hq
    · intro id c hc
      simp [hstart.calls] at hc
    · intro id q c hq
      simp [hstart.gateway.requests] at hq
    · exact fun _ => rfl
    · exact fun _ => rfl
  | snoc hrun hstep ih =>
    obtain ⟨es', hsystem⟩ := system_run hrun
    obtain ⟨fs, hgateway⟩ := Connected.gateway_run hsystem
    exact ih.step (Connected.inv_run hstart hsystem) (slotsFit_run hstart.gateway hgateway)
      (book_consistent hstart.gateway hgateway) hstep

theorem told_relayed {model : String} {call : Option BackendCall} {received : Received}
    {phase : Phase} (h : Told model call received phase) : Relayed call received := by
  cases phase with
  | arrived | discovering | waiting | completing => exact Or.inl h
  | streaming id stream =>
    cases stream with
    | starting => exact Or.inl h
    | pulling head st =>
      obtain ⟨c, rfl, htaken, rfl⟩ := h
      exact relayed_of_takeAll htaken (taken_yielded _) List.prefix_rfl rfl
    | sending head st done =>
      cases done with
      | false =>
        obtain ⟨c, payload, rfl, hall, hforwarded, hnot⟩ := h
        refine relayed_of_takeAll hall List.prefix_rfl ?_ hnot
        rw [hforwarded]
        exact List.prefix_append _ _
      | true =>
        obtain ⟨c, rfl, hpc, hall, rfl⟩ := h
        exact relayed_of_takeAll hall List.prefix_rfl List.prefix_rfl rfl
    | closing => exact h
    | finishing => exact RelayedAll.relayed h
  | ended outcome =>
    cases outcome with
    | answered response => exact Or.inl h.1
    | streamed => exact RelayedAll.relayed h
    | failed e => exact h

end Relay

end LlmHomeLab
