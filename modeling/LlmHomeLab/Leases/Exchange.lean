import LlmHomeLab.Leases.Contact
import LlmHomeLab.Leases.Runner

/-! # The wrapper and the orchestrator

`run_leased` with its `OrchestratorLeaseApi`, the lease handlers of `api/app.py`, and whoever else
calls the lease book. A request arrives at any time after it was sent, also when the client has
given up on it, or never. Its answer may be lost. A layer before the handlers, such as the auth
gate or a proxy, can answer in their place.
-/

namespace LlmHomeLab

/-! ## Requests and answers -/

inductive LeaseRequest where
  | reserve
  | heartbeat (token : String)
  | release (token : String)
deriving DecidableEq, Repr

/-- The status of an answer, and the token in the body of a new lease. -/
structure LeaseResponse where
  status : Nat
  token : Option String := none
deriving DecidableEq, Repr

/-- What `run_leased` asks for. -/
structure LeaseAsk where
  holder : String
  hostId : Option String := none
  model : Option String := none
  ceilingS : Option Int := none
deriving DecidableEq, Repr

/-- The statuses of the exception handlers. -/
def LeaseError.status : LeaseError → Nat
  | .invalid _ => 400
  | .refused _ _ => 409
  | .notHeld => 403
  | .ended _ _ => 409
  | .notFound _ => 404
  | .hostNotRegistered _ => 404

namespace LeaseRequest

/-- The call of the book that `create_node_lease`, `heartbeat_node_lease` or `release_node_lease`
makes. The hosts and the new token are what the orchestrator finds and draws. -/
def call (ask : LeaseAsk) (hosts : List ReservableHost) (drawn : String) :
    LeaseRequest → LeaseCall
  | .reserve =>
    .reserve ask.holder hosts ask.hostId ask.model (ask.ceilingS.map (· * 1000000)) drawn
  | .heartbeat token => .heartbeat token
  | .release token => .release token

/-- The answer of the handler. -/
def response : LeaseRequest → LeaseAnswer → LeaseResponse
  | _, .lease (.error e) => { status := e.status }
  | .reserve, .lease (.ok lease) => { status := 201, token := some lease.token }
  | _, _ => { status := 200 }

end LeaseRequest

namespace OrchestratorLeaseApi

def reserve (response : LeaseResponse) : ReserveOutcome :=
  if response.status = 400 ∨ response.status = 404 ∨ response.status = 409 then .refused
  else if 400 ≤ response.status then .unreachable
  else
    match response.token with
    | some token => .granted token
    | none => .unreachable

def heartbeat (response : LeaseResponse) : HeartbeatOutcome :=
  if response.status = 409 then .lost
  else if response.status = 403 then .lost
  else if 400 ≤ response.status then .unreachable
  else .ok

def release (response : LeaseResponse) : ReleaseOutcome :=
  if response.status = 404 then .returned
  else if 400 ≤ response.status then .unreachable
  else .returned

end OrchestratorLeaseApi

/-! ## The system -/

inductive CallThread where
  | main
  | beater
deriving DecidableEq, Repr

/-- The call of `api` a thread is blocked in. -/
inductive ApiCall where
  | idle
  | sent (request : LeaseRequest)
  | answered (request : LeaseRequest) (response : LeaseResponse)
deriving DecidableEq, Repr

/-- How a call ends: with the answer, with a transport error, or with anything else. -/
inductive ApiEnding where
  | heard
  | failed
  | raised (e : WrapperError)
deriving DecidableEq, Repr

/-- What becomes of a request that arrives. -/
inductive Arrival where
  | handled (now : Int) (hosts : List ReservableHost) (drawn : String)
  | turnedAway (status : Nat)
deriving DecidableEq, Repr

/-- `strays` are requests the client has given up on before they arrived, `served` the calls the
book has performed. The orchestrator has granted the wrapper a lease under `granted`; `token` is
the token the wrapper was told. -/
structure Exchange where
  wrapper : Wrapper
  book : NodeLeaseBook
  call : CallThread → ApiCall := fun _ => .idle
  strays : List LeaseRequest := []
  served : List LeaseEvent := []
  granted : Option String := none
  token : Option String := none

inductive ExchangeEvent where
  | runs (e : WrapperEvent)
  | arrives (thread : CallThread) (arrival : Arrival)
  | strayArrives (i : Nat) (arrival : Arrival)
  | ends (thread : CallThread) (ending : ApiEnding)
  | other (call : LeaseCall) (now : Int)
deriving DecidableEq, Repr

/-- The event of the wrapper that ends a call of `api`. -/
def WrapperEvent.ofApi : WrapperEvent → Bool
  | .reserve _ | .release _ | .heartbeat _ => true
  | _ => false

namespace ApiCall

def event (ending : ApiEnding) : ApiCall → Option WrapperEvent
  | .idle => none
  | .sent request => aborted request
  | .answered request response =>
    match ending, request with
    | .heard, .reserve => some (.reserve (OrchestratorLeaseApi.reserve response))
    | .heard, .heartbeat _ => some (.heartbeat (OrchestratorLeaseApi.heartbeat response))
    | .heard, .release _ => some (.release (OrchestratorLeaseApi.release response))
    | _, _ => aborted request
where
  /-- `_request` turns transport errors into `OrchestratorUnreachable`. -/
  aborted (request : LeaseRequest) : Option WrapperEvent :=
    match ending, request with
    | .failed, .reserve => some (.reserve .unreachable)
    | .failed, .heartbeat _ => some (.heartbeat .unreachable)
    | .failed, .release _ => some (.release .unreachable)
    | .raised e, .reserve => some (.reserve (.raised e))
    | .raised e, .release _ => some (.release (.raised e))
    | _, _ => none

def request : ApiCall → Option LeaseRequest
  | .idle => none
  | .sent request | .answered request _ => some request

/-- A request that has not arrived stays under way. -/
def stray : ApiCall → List LeaseRequest
  | .sent request => [request]
  | _ => []

end ApiCall

namespace Exchange

def start (settings : LeaseSettings) (command : List String) : Exchange where
  wrapper := .start command
  book := .start settings
  call := fun thread =>
    if thread = .main ∧ command.isEmpty = false then .sent .reserve else .idle

/-- The book performs a call. -/
def serve (s : Exchange) (call : LeaseCall) (now : Int) : LeaseAnswer × Exchange :=
  let (answer, book) := s.book.perform call now
  (answer, { s with book, served := s.served ++ [⟨call, now, answer⟩] })

def arrive (ask : LeaseAsk) (s : Exchange) (request : LeaseRequest) :
    Arrival → Option (LeaseResponse × Exchange)
  | .handled now hosts drawn =>
    let (answer, s) := s.serve (request.call ask hosts drawn) now
    let response := request.response answer
    some (response, { s with granted := response.token.or s.granted })
  | .turnedAway status => if 400 ≤ status then some ({ status }, s) else none

/-- The token of the lease, once it is granted. -/
def tokenAfter (token : Option String) : WrapperEvent → Option String
  | .reserve (.granted granted) => some granted
  | _ => token

/-- The calls of `api` that are under way after a step of the wrapper. -/
def callAfter (s : Exchange) (pc : WrapperPc) : WrapperEvent → CallThread → ApiCall
  | .heartbeatDue => Function.update s.call .beater (.sent (.heartbeat (s.token.getD "")))
  | .popen .osError | .join .returned =>
    match pc with
    | .releasing token _ => Function.update s.call .main (.sent (.release token))
    | _ => s.call
  | _ => s.call

/-- A step of the wrapper. -/
def moves (s : Exchange) (e : WrapperEvent) : Option Exchange :=
  (s.wrapper.step e).map fun wrapper =>
    { s with wrapper, token := tokenAfter s.token e, call := s.callAfter wrapper.pc e }

/-- The thread leaves its call. -/
def leaves (s : Exchange) (thread : CallThread) : Exchange :=
  { s with call := Function.update s.call thread .idle, strays := s.strays ++ (s.call thread).stray }

def step (ask : LeaseAsk) (s : Exchange) : ExchangeEvent → Option Exchange
  | .runs e => if e.ofApi then none else s.moves e
  | .arrives thread arrival =>
    match s.call thread with
    | .sent request =>
      (s.arrive ask request arrival).map fun (response, s) =>
        { s with call := Function.update s.call thread (.answered request response) }
    | _ => none
  | .strayArrives i arrival =>
    s.strays[i]?.bind fun request =>
      (s.arrive ask request arrival).map fun (_, s) => { s with strays := s.strays.eraseIdx i }
  | .ends thread ending => ((s.call thread).event ending).bind (s.leaves thread).moves
  | .other call now => some (s.serve call now).2

variable {settings : LeaseSettings} {ask : LeaseAsk} {command : List String} {s t a : Exchange}
  {es : List ExchangeEvent} {e : WrapperEvent} {request : LeaseRequest} {response : LeaseResponse}
  {arrival : Arrival} {thread : CallThread} {token : String}

/-! ## Steps -/

/-- The handler has performed this call, or the request was turned away before it. -/
theorem arrive_cases (h : s.arrive ask request arrival = some (response, a)) :
    (∃ now hosts drawn, arrival = .handled now hosts drawn ∧
      response = request.response (s.serve (request.call ask hosts drawn) now).1 ∧
      a = { (s.serve (request.call ask hosts drawn) now).2 with
        granted := response.token.or s.granted }) ∨
    ∃ status, arrival = .turnedAway status ∧ 400 ≤ status ∧ response = { status } ∧ a = s := by
  cases arrival with
  | handled now hosts drawn =>
    left
    simp only [arrive, Option.some.injEq, Prod.mk.injEq] at h
    obtain ⟨rfl, rfl⟩ := h
    exact ⟨now, hosts, drawn, rfl, rfl, rfl⟩
  | turnedAway status =>
    right
    simp only [arrive, Option.ite_none_right_eq_some, Option.some.injEq, Prod.mk.injEq] at h
    obtain ⟨hle, rfl, rfl⟩ := h
    exact ⟨status, rfl, hle, rfl, rfl⟩

/-- A step is one of the wrapper, perhaps at the end of a call, or a request arrives, or someone
else calls the book. -/
inductive Change (ask : LeaseAsk) (s : Exchange) : ExchangeEvent → Exchange → Prop
  | runs {e : WrapperEvent} {t : Exchange} : e.ofApi = false → s.moves e = some t →
      Change ask s (.runs e) t
  | ends {thread : CallThread} {ending : ApiEnding} {e : WrapperEvent} {t : Exchange} :
      (s.call thread).event ending = some e → (s.leaves thread).moves e = some t →
      Change ask s (.ends thread ending) t
  | arrives {thread : CallThread} {arrival : Arrival} {request : LeaseRequest}
      {response : LeaseResponse} {a : Exchange} : s.call thread = .sent request →
      s.arrive ask request arrival = some (response, a) →
      Change ask s (.arrives thread arrival)
        { a with call := Function.update a.call thread (.answered request response) }
  | strayArrives {i : Nat} {arrival : Arrival} {request : LeaseRequest}
      {response : LeaseResponse} {a : Exchange} : s.strays[i]? = some request →
      s.arrive ask request arrival = some (response, a) →
      Change ask s (.strayArrives i arrival) { a with strays := a.strays.eraseIdx i }
  | other {call : LeaseCall} {now : Int} : Change ask s (.other call now) (s.serve call now).2

theorem step_change {event : ExchangeEvent} (h : step ask s event = some t) :
    Change ask s event t := by
  cases event with
  | runs e =>
    simp only [step] at h
    split at h
    · cases h
    · next hofApi => exact .runs (by simpa using hofApi) h
  | arrives thread arrival =>
    simp only [step] at h
    split at h
    · next request hcall =>
      obtain ⟨⟨response, a⟩, harrive, rfl⟩ := Option.map_eq_some_iff.mp h
      exact .arrives hcall harrive
    · cases h
  | strayArrives i arrival =>
    obtain ⟨request, hstray, h⟩ := Option.bind_eq_some_iff.mp h
    obtain ⟨⟨response, a⟩, harrive, rfl⟩ := Option.map_eq_some_iff.mp h
    exact .strayArrives hstray harrive
  | ends thread ending =>
    obtain ⟨e, hevent, hmove⟩ := Option.bind_eq_some_iff.mp h
    exact .ends hevent hmove
  | other call now =>
    cases h
    exact .other

/-! ## The token of the wrapper -/

/-- The token the main thread has in hand. -/
def tokenOf : WrapperPc → Option String
  | .starting token | .waiting token | .interrupted token | .killed token => some token
  | .joining token _ | .releasing token _ => some token
  | _ => none

theorem waitFor_tokenOf {pc pc' : WrapperPc} {outcome : WaitOutcome}
    (h : Wrapper.waitFor pc outcome = some pc') : tokenOf pc' = tokenOf pc ∧ pc' ≠ .reserving := by
  cases pc <;> cases outcome <;> cases h <;> exact ⟨rfl, by simp⟩

/-- The main thread keeps its token until it has none any more, and is given it once. -/
theorem nextPc_tokenOf {lost : Bool} {pc pc' : WrapperPc}
    (h : Wrapper.nextPc lost pc e = some pc') : pc' ≠ .reserving ∧
      ((∃ token, e = .reserve (.granted token) ∧ pc = .reserving ∧ tokenOf pc' = some token) ∨
        (∀ token, e ≠ .reserve (.granted token)) ∧
          (tokenOf pc' = none ∨ tokenOf pc' = tokenOf pc)) := by
  cases e with
  | reserve outcome =>
    cases pc <;> try (cases h)
    cases outcome <;> cases h
    · exact ⟨by simp, Or.inl ⟨_, rfl, rfl, rfl⟩⟩
    all_goals exact ⟨by simp, Or.inr ⟨by simp, Or.inl rfl⟩⟩
  | popen outcome =>
    cases pc <;> try (cases h)
    cases outcome <;> cases h
    · exact ⟨by simp, Or.inr ⟨by simp, Or.inr rfl⟩⟩
    · exact ⟨by simp, Or.inr ⟨by simp, Or.inr rfl⟩⟩
    · exact ⟨by simp, Or.inr ⟨by simp, Or.inl rfl⟩⟩
  | wait outcome =>
    have hwait : Wrapper.waitFor pc outcome = some pc' := by
      cases pc <;> exact h
    obtain ⟨htoken, hne⟩ := waitFor_tokenOf hwait
    exact ⟨hne, Or.inr ⟨by simp, Or.inr htoken⟩⟩
  | join outcome =>
    cases pc <;> try (cases h)
    cases outcome <;> cases h
    · exact ⟨by simp, Or.inr ⟨by simp, Or.inr rfl⟩⟩
    · exact ⟨by simp, Or.inr ⟨by simp, Or.inl rfl⟩⟩
  | release outcome =>
    cases pc <;> try (cases h)
    next token ending =>
    have hgoOn : Wrapper.goOn ending ≠ .reserving ∧ tokenOf (Wrapper.goOn ending) = none := by
      cases ending <;> exact ⟨by simp [Wrapper.goOn], rfl⟩
    cases outcome <;> cases h
    · exact ⟨hgoOn.1, Or.inr ⟨by simp, Or.inl hgoOn.2⟩⟩
    · exact ⟨hgoOn.1, Or.inr ⟨by simp, Or.inl hgoOn.2⟩⟩
    · exact ⟨by simp, Or.inr ⟨by simp, Or.inl rfl⟩⟩
  | readLost =>
    cases pc <;> cases h
    exact ⟨by simp, Or.inr ⟨by simp, Or.inl rfl⟩⟩
  | _ => cases pc <;> cases h

/-! ## What the wrapper knows -/

/-- What the wrapper holds comes from the orchestrator. -/
structure Linked (settings : LeaseSettings) (s : Exchange) : Prop where
  served : Run NodeLeaseBook.Performs (.start settings) s.served s.book
  asked : s.wrapper.pc = .reserving → s.token = none
  inHand : ∀ token, tokenOf s.wrapper.pc = some token → s.token = some token
  unarmed : s.token = none → s.wrapper.beater = .off ∧ (s.call .beater).request = none
  drawn : ∀ token, s.token = some token → token ∈ drawnTokens s.served
  beats : ∀ request, (s.call .beater).request = some request →
    ∃ token, s.token = some token ∧ request = .heartbeat token
  noBeat : ∀ token, (s.call .main).request ≠ some (.heartbeat token)
  granted : ∀ response token, s.call .main = .answered .reserve response →
    response.token = some token → token ∈ drawnTokens s.served

/-- The strays, and what the orchestrator has granted, play no part. -/
theorem Linked.congr (h : Linked settings s) (hwrapper : t.wrapper = s.wrapper)
    (hbook : t.book = s.book) (hcall : t.call = s.call) (hserved : t.served = s.served)
    (htoken : t.token = s.token) : Linked settings t := by
  obtain ⟨wrapper, book, call, strays, served, granted, token⟩ := t
  dsimp only at hwrapper hbook hcall hserved htoken
  subst hwrapper hbook hcall hserved htoken
  exact ⟨h.served, h.asked, h.inHand, h.unarmed, h.drawn, h.beats, h.noBeat, h.granted⟩

theorem Linked.serve (h : Linked settings s) (call : LeaseCall) (now : Int) :
    Linked settings (s.serve call now).2 where
  served := .snoc h.served (by rfl)
  asked := h.asked
  inHand := h.inHand
  unarmed := h.unarmed
  drawn token ht := by
    have hold := h.drawn token ht
    exact (drawnTokens_append _ _) ▸ List.mem_append_left _ hold
  beats := h.beats
  noBeat := h.noBeat
  granted response token hcall htoken := by
    have hold := h.granted response token hcall htoken
    exact (drawnTokens_append _ _) ▸ List.mem_append_left _ hold

theorem callAfter_main (s : Exchange) (pc : WrapperPc) (e : WrapperEvent) :
    s.callAfter pc e .main = s.call .main ∨
      ∃ token, tokenOf pc = some token ∧ s.callAfter pc e .main = .sent (.release token) := by
  unfold callAfter
  split
  · exact Or.inl rfl
  · split
    · exact Or.inr ⟨_, rfl, Function.update_self _ _ _⟩
    · exact Or.inl rfl
  · split
    · exact Or.inr ⟨_, rfl, Function.update_self _ _ _⟩
    · exact Or.inl rfl
  · exact Or.inl rfl

theorem callAfter_beater (s : Exchange) (pc : WrapperPc) (e : WrapperEvent) :
    s.callAfter pc e .beater = s.call .beater ∨ e = .heartbeatDue ∧
      s.callAfter pc e .beater = .sent (.heartbeat (s.token.getD "")) := by
  unfold callAfter
  split
  · exact Or.inr ⟨rfl, Function.update_self _ _ _⟩
  · split <;> exact Or.inl rfl
  · split <;> exact Or.inl rfl
  · exact Or.inl rfl

theorem moves_wrapper (h : s.moves e = some t) : s.wrapper.step e = some t.wrapper := by
  obtain ⟨wrapper, hstep, rfl⟩ := Option.map_eq_some_iff.mp h
  exact hstep

theorem moves_server (h : s.moves e = some t) : t.book = s.book ∧ t.served = s.served := by
  obtain ⟨wrapper, hstep, rfl⟩ := Option.map_eq_some_iff.mp h
  exact ⟨rfl, rfl⟩

theorem moves_client (h : s.moves e = some t) :
    t.token = tokenAfter s.token e ∧ t.call = s.callAfter t.wrapper.pc e := by
  obtain ⟨wrapper, hstep, rfl⟩ := Option.map_eq_some_iff.mp h
  exact ⟨rfl, rfl⟩

/-- The thread of the heartbeats takes no step before it is started. -/
theorem beater_armed {w w' : Wrapper} (h : w.step e = some w') (he : Wrapper.isMain e = false) :
    w.beater ≠ .off := by
  intro hoff
  cases e with
  | heartbeatDue => simp [Wrapper.step, hoff] at h
  | heartbeat outcome => simp [Wrapper.step, hoff] at h
  | beaterStops => simp [Wrapper.step, hoff] at h
  | _ => cases he

/-- It is started with the command, which has the token. -/
theorem beater_started {w w' : Wrapper} (h : w.step e = some w') (hoff : w.beater = .off)
    (hbare : tokenOf w.pc = none) : w'.beater = .off := by
  cases e with
  | heartbeatDue => exact absurd hoff (beater_armed h rfl)
  | heartbeat outcome => exact absurd hoff (beater_armed h rfl)
  | beaterStops => exact absurd hoff (beater_armed h rfl)
  | popen outcome =>
    obtain ⟨pc, hpc, rfl⟩ := Option.map_eq_some_iff.mp h
    cases hw : w.pc <;> rw [hw] at hpc hbare
    case starting => cases hbare
    all_goals cases hpc
  | _ =>
    obtain ⟨pc, hpc, rfl⟩ := Option.map_eq_some_iff.mp h
    exact hoff

theorem tokenAfter_of_ne {token : Option String} (h : ∀ granted, e ≠ .reserve (.granted granted)) :
    tokenAfter token e = token := by
  unfold tokenAfter
  split
  · next granted => exact absurd rfl (h granted)
  · rfl

/-- A step of the wrapper keeps the token, or sets it where there was none. -/
theorem Linked.moves_token (h : Linked settings s) (hmove : s.moves e = some t) :
    (∃ token, e = .reserve (.granted token) ∧ s.token = none ∧ t.token = some token ∧
      tokenOf t.wrapper.pc = some token ∧ t.wrapper.pc ≠ .reserving) ∨
    t.token = s.token ∧ (tokenOf t.wrapper.pc = none ∨ tokenOf t.wrapper.pc = tokenOf s.wrapper.pc) ∧
      (t.wrapper.pc = .reserving → t.wrapper.pc = s.wrapper.pc) := by
  have htoken := (moves_client hmove).1
  rcases Wrapper.step_cases (moves_wrapper hmove) with ⟨hother, hpc, -, -⟩ | ⟨-, hnext, -, -⟩
  · right
    refine ⟨?_, Or.inr (by rw [hpc]), fun _ => hpc⟩
    rw [htoken]
    refine tokenAfter_of_ne ?_
    rintro granted rfl
    cases hother
  · obtain ⟨hne, ⟨token, rfl, hreserving, hinHand⟩ | ⟨hnot, hinHand⟩⟩ := nextPc_tokenOf hnext
    · exact Or.inl ⟨token, rfl, h.asked hreserving, htoken, hinHand, hne⟩
    · exact Or.inr ⟨htoken.trans (tokenAfter_of_ne hnot), hinHand, fun h => absurd h hne⟩

theorem Linked.moves_kept (h : Linked settings s) (hmove : s.moves e = some t)
    (token : String) (hsome : s.token = some token) : t.token = some token := by
  rcases h.moves_token hmove with ⟨granted, -, hnone, -⟩ | ⟨hsame, -⟩
  · rw [hnone] at hsome
    cases hsome
  · rw [hsame, hsome]

/-- A step of the wrapper, where a token it is given was drawn. -/
theorem Linked.moves (h : Linked settings s) (hmove : s.moves e = some t)
    (hgranted : ∀ token, e = .reserve (.granted token) → token ∈ drawnTokens s.served) :
    Linked settings t := by
  have hstep := moves_wrapper hmove
  obtain ⟨hbook, hserved⟩ := moves_server hmove
  have hcall := (moves_client hmove).2
  have hmain := callAfter_main s t.wrapper.pc e
  have hbeater := callAfter_beater s t.wrapper.pc e
  rw [← hcall] at hmain hbeater
  have htoken := h.moves_token hmove
  have hkept : ∀ token, s.token = some token → t.token = some token := h.moves_kept hmove
  -- without a token the other thread does nothing
  have harmed : Wrapper.isMain e = false → ∃ token, s.token = some token := by
    intro hother
    rw [← Option.ne_none_iff_exists']
    intro hnone
    exact beater_armed hstep hother (h.unarmed hnone).1
  constructor
  · rw [hbook, hserved]
    exact h.served
  · intro hreserving
    rcases htoken with ⟨token, -, -, -, -, hne⟩ | ⟨hsame, -, hpc⟩
    · exact absurd hreserving hne
    · rw [hsame]
      exact h.asked (hpc hreserving ▸ hreserving)
  · intro token hinHand
    rcases htoken with ⟨granted, -, -, hsome, hgiven, -⟩ | ⟨hsame, hnone | hpc, -⟩
    · rw [hgiven] at hinHand
      cases hinHand
      exact hsome
    · rw [hnone] at hinHand
      cases hinHand
    · rw [hsame]
      exact h.inHand token (hpc ▸ hinHand)
  · intro hnone
    have hbare : s.token = none := by
      rw [Option.eq_none_iff_forall_ne_some]
      intro token hsome
      rw [hkept token hsome] at hnone
      cases hnone
    obtain ⟨hoff, hrequest⟩ := h.unarmed hbare
    refine ⟨beater_started hstep hoff ?_, ?_⟩
    · rw [Option.eq_none_iff_forall_ne_some]
      intro token hinHand
      rw [h.inHand token hinHand] at hbare
      cases hbare
    · rcases hbeater with hsame | ⟨rfl, -⟩
      · rw [hsame]
        exact hrequest
      · obtain ⟨token, hsome⟩ := harmed rfl
        rw [hbare] at hsome
        cases hsome
  · intro token hsome
    rw [hserved]
    rcases htoken with ⟨granted, he, -, hgiven, -⟩ | ⟨hsame, -⟩
    · rw [hgiven] at hsome
      cases hsome
      exact hgranted _ he
    · exact h.drawn token (hsame ▸ hsome)
  · intro request hrequest
    rcases hbeater with hsame | ⟨rfl, hbeat⟩
    · rw [hsame] at hrequest
      obtain ⟨token, hsome, hbeat⟩ := h.beats request hrequest
      exact ⟨token, hkept token hsome, hbeat⟩
    · obtain ⟨token, hsome⟩ := harmed rfl
      rw [hbeat, hsome] at hrequest
      exact ⟨token, hkept token hsome, (Option.some.inj hrequest).symm⟩
  · intro token hbeat
    rcases hmain with hmain | ⟨released, -, hmain⟩
    · exact h.noBeat token (hmain ▸ hbeat)
    · rw [hmain] at hbeat
      cases hbeat
  · intro response token hanswered htoken
    rw [hserved]
    rcases hmain with hmain | ⟨released, -, hmain⟩
    · exact h.granted response token (hmain ▸ hanswered) htoken
    · rw [hmain] at hanswered
      cases hanswered

@[simp] theorem leaves_self (s : Exchange) (thread : CallThread) :
    (s.leaves thread).call thread = .idle := by
  simp [leaves]

theorem leaves_of_ne (s : Exchange) {other thread : CallThread} (h : other ≠ thread) :
    (s.leaves thread).call other = s.call other := by
  simp [leaves, h]

/-- What holds while a thread is in a call holds when it leaves it. -/
theorem Linked.leaves (h : Linked settings s) (thread : CallThread) :
    Linked settings (s.leaves thread) := by
  have hcall : ∀ other, (s.leaves thread).call other = .idle ∨
      (s.leaves thread).call other = s.call other := by
    intro other
    by_cases heq : other = thread
    · exact Or.inl (heq ▸ s.leaves_self thread)
    · exact Or.inr (s.leaves_of_ne heq)
  refine ⟨h.served, h.asked, h.inHand, ?_, h.drawn, ?_, ?_, ?_⟩
  · intro hnone
    refine ⟨(h.unarmed hnone).1, ?_⟩
    rcases hcall .beater with hidle | hsame
    · rw [hidle]
      rfl
    · rw [hsame]
      exact (h.unarmed hnone).2
  · intro request hrequest
    rcases hcall .beater with hidle | hsame
    · rw [hidle] at hrequest
      cases hrequest
    · exact h.beats request (hsame ▸ hrequest)
  · intro token hbeat
    rcases hcall .main with hidle | hsame
    · rw [hidle] at hbeat
      cases hbeat
    · exact h.noBeat token (hsame ▸ hbeat)
  · intro response token hanswered
    rcases hcall .main with hidle | hsame
    · rw [hidle] at hanswered
      cases hanswered
    · exact h.granted response token (hsame ▸ hanswered)

/-- The token of a new lease was drawn by the call that is answered. -/
theorem response_token {hosts : List ReservableHost} {drawn : String} {now : Int}
    (h : (request.response (s.serve (request.call ask hosts drawn) now).1).token = some token) :
    token ∈ drawnTokens (s.serve (request.call ask hosts drawn) now).2.served := by
  have hserved : (s.serve (request.call ask hosts drawn) now).2.served = s.served ++
      [⟨request.call ask hosts drawn, now, (s.serve (request.call ask hosts drawn) now).1⟩] := rfl
  rw [hserved, drawnTokens_append]
  refine List.mem_append_right _ ?_
  generalize (s.serve (request.call ask hosts drawn) now).1 = answer at h
  unfold LeaseRequest.response at h
  split at h
  · cases h
  · next lease =>
    cases h
    exact List.mem_cons_self
  · cases h

theorem Linked.arrive (h : Linked settings s)
    (harrive : s.arrive ask request arrival = some (response, a)) : Linked settings a := by
  rcases arrive_cases harrive with ⟨now, hosts, drawn, -, -, rfl⟩ | ⟨-, -, -, -, rfl⟩
  · exact (h.serve _ _).congr rfl rfl rfl rfl rfl
  · exact h

theorem arrive_client (harrive : s.arrive ask request arrival = some (response, a)) :
    a.call = s.call ∧ a.token = s.token := by
  rcases arrive_cases harrive with ⟨now, hosts, drawn, -, -, rfl⟩ | ⟨-, -, -, -, rfl⟩
  · exact ⟨rfl, rfl⟩
  · exact ⟨rfl, rfl⟩

theorem Linked.arrives (h : Linked settings s) (hcall : s.call thread = .sent request)
    (harrive : s.arrive ask request arrival = some (response, a)) :
    Linked settings { a with call := Function.update a.call thread (.answered request response) } := by
  have ha := h.arrive harrive
  obtain ⟨hcalls, htoken⟩ := arrive_client harrive
  refine ⟨ha.served, ha.asked, ha.inHand, ?_, ha.drawn, ?_, ?_, ?_⟩
  · intro hnone
    refine ⟨(ha.unarmed hnone).1, ?_⟩
    by_cases heq : CallThread.beater = thread
    · have hrequest := (h.unarmed (htoken ▸ hnone)).2
      rw [heq, hcall] at hrequest
      cases hrequest
    · dsimp only
      rw [Function.update_of_ne heq]
      exact (ha.unarmed hnone).2
  · intro sent hsent
    dsimp only at hsent ⊢
    by_cases heq : CallThread.beater = thread
    · rw [← heq, Function.update_self] at hsent
      rw [htoken]
      refine h.beats sent ?_
      rw [heq, hcall]
      exact hsent
    · rw [Function.update_of_ne heq] at hsent
      exact ha.beats sent hsent
  · intro token hbeat
    dsimp only at hbeat
    by_cases heq : CallThread.main = thread
    · rw [← heq, Function.update_self] at hbeat
      refine h.noBeat token ?_
      rw [heq, hcall]
      exact hbeat
    · rw [Function.update_of_ne heq] at hbeat
      exact ha.noBeat token hbeat
  · intro answer token hanswered hsome
    dsimp only at hanswered
    by_cases heq : CallThread.main = thread
    · rw [← heq, Function.update_self] at hanswered
      cases hanswered
      rcases arrive_cases harrive with ⟨now, hosts, drawn, -, rfl, rfl⟩ | ⟨status, -, -, rfl, -⟩
      · exact response_token hsome
      · cases hsome
    · rw [Function.update_of_ne heq] at hanswered
      exact ha.granted answer token hanswered hsome

/-! ## Runs -/

theorem reserve_granted (h : OrchestratorLeaseApi.reserve response = .granted token) :
    response.token = some token := by
  unfold OrchestratorLeaseApi.reserve at h
  split at h
  · cases h
  · split at h
    · cases h
    · split at h
      · next hsome =>
        cases h
        exact hsome
      · cases h

theorem aborted_not {ending : ApiEnding} (h : ApiCall.event.aborted ending request = some e) :
    (∀ token, e ≠ .reserve (.granted token)) ∧ e ≠ .heartbeat .lost := by
  unfold ApiCall.event.aborted at h
  split at h <;> cases h <;> simp

theorem event_granted {call : ApiCall} {ending : ApiEnding}
    (h : call.event ending = some (.reserve (.granted token))) :
    ∃ response, call = .answered .reserve response ∧ response.token = some token := by
  unfold ApiCall.event at h
  split at h
  · cases h
  · exact absurd rfl ((aborted_not h).1 token)
  · next request response =>
    split at h
    · refine ⟨response, rfl, reserve_granted ?_⟩
      simpa using h
    · cases h
    · cases h
    · exact absurd rfl ((aborted_not h).1 token)

theorem linked_start (settings : LeaseSettings) (command : List String) :
    Linked settings (start settings command) where
  served := .nil
  asked _ := rfl
  inHand token htoken := by
    simp only [start, Wrapper.start] at htoken
    split at htoken <;> cases htoken
  unarmed _ := ⟨rfl, rfl⟩
  drawn _ htoken := by cases htoken
  beats _ hrequest := by cases hrequest
  noBeat token hbeat := by
    simp only [start] at hbeat
    split at hbeat <;> cases hbeat
  granted _ _ hanswered := by
    simp only [start] at hanswered
    split at hanswered <;> cases hanswered

theorem Linked.step (h : Linked settings s) {event : ExchangeEvent}
    (hstep : step ask s event = some t) : Linked settings t := by
  cases step_change hstep with
  | runs hofApi hmove =>
    refine h.moves hmove ?_
    rintro token rfl
    cases hofApi
  | @ends thread ending e _ hevent hmove =>
    refine (h.leaves thread).moves hmove ?_
    rintro token rfl
    obtain ⟨response, hcall, htoken⟩ := event_granted hevent
    cases thread with
    | main => exact h.granted response token hcall htoken
    | beater =>
      obtain ⟨_, -, hbeat⟩ := h.beats .reserve (by rw [hcall]; rfl)
      cases hbeat
  | arrives hcall harrive => exact h.arrives hcall harrive
  | strayArrives _ harrive => exact (h.arrive harrive).congr rfl rfl rfl rfl rfl
  | other => exact h.serve _ _

theorem linked_run (hrun : Run (Fires (step ask)) (start settings command) es s) :
    Linked settings s :=
  hrun.invariant _ (linked_start settings command) fun _ _ _ hstep h => h.step hstep

end Exchange

end LlmHomeLab
