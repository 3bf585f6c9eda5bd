import LlmHomeLab.Gateway.Slots
import LlmHomeLab.Gateway.Waiting

/-! # The lifetime of a chat request

`RequestLifetimeMiddleware` of `api/lifetime.py`. It runs the request and a pump of its ASGI
messages as two tasks, waits for the first of them to end, cancels the other and joins both.
Here it is put around one request of the gateway; everything else in the gateway goes on
beside it.
-/

namespace LlmHomeLab

/-! ## Model -/

inductive AsgiMessage where
  | request (body : String) (moreBody : Bool)
  | disconnect
deriving DecidableEq, Repr

/-- Where `pump` is: in `receive()`, in `messages.put(message)`, or at its end. -/
inductive Pump where
  | receiving
  | putting (message : AsgiMessage)
  | finished
deriving DecidableEq, Repr

/-- Where `__call__` is: in `asyncio.wait`, in the `gather` of its `finally`, or at its end. -/
inductive Main where
  | waiting
  | joining
  | returned
deriving DecidableEq, Repr

/-- The middleware around one request. `raw` and `delivered` record the messages that
`receive()` has returned and that the app side has got. -/
structure Lifetime where
  gateway : State
  raw : List AsgiMessage := []
  delivered : List AsgiMessage := []
  mailbox : Option AsgiMessage := none
  pump : Pump := .receiving
  taskDone : Bool := false
  cancelled : Bool := false
  main : Main := .waiting

inductive LifetimeEvent where
  /-- A step of the gateway, of this request or of anything else. -/
  | gateway (e : Event)
  | receive (message : AsgiMessage)
  | receiveRaises
  | put
  | get
  /-- `self.app` returns or raises. -/
  | taskEnds
  /-- `asyncio.wait` returns, and what is not done is cancelled. -/
  | proceed
  /-- The cancellation reaches the pump. -/
  | pumpCancelled
  | returns

/-- The signals a cancelled request is resumed with. -/
def Signal.interrupts : Signal → Bool
  | .listed (.error .raised) => true
  | .interrupted .raised => true
  | .completed (.error .raised) => true
  | .sent _ (.error .raised) => true
  | .chunk (.error .raised) => true
  | .closed _ => true
  | _ => false

namespace Lifetime

/-- The steps the request's own task takes: none after its end, and only interrupted ones once
it is cancelled. -/
def allows (requestId : String) (l : Lifetime) : Event → Bool
  | .admin _ => true
  | .arrive id _ _ _ => id ≠ requestId || (!l.taskDone && !l.cancelled)
  | .resume id signal _ =>
    id ≠ requestId || (!l.taskDone && (!l.cancelled || signal.interrupts))

/-- The handler of the request is not running. -/
def handlerEnded (requestId : String) (l : Lifetime) : Bool :=
  match l.gateway.requests.get? requestId with
  | none => true
  | some req =>
    match req.phase with
    | .ended _ => true
    | _ => false

def step (cfg : Config) (requestId : String) (l : Lifetime) : LifetimeEvent → Option Lifetime
  | .gateway e =>
    if l.allows requestId e then
      (LlmHomeLab.step cfg l.gateway e).map fun gateway => { l with gateway }
    else none
  | .receive message =>
    match l.pump with
    | .receiving => some { l with pump := .putting message, raw := l.raw ++ [message] }
    | _ => none
  | .receiveRaises =>
    match l.pump with
    | .receiving => some { l with pump := .finished }
    | _ => none
  | .put =>
    match l.pump, l.mailbox with
    | .putting message, none =>
      some { l with
        mailbox := some message
        pump := if message = .disconnect then .finished else .receiving }
    | _, _ => none
  | .get =>
    match l.mailbox with
    | some message =>
      if l.taskDone then none
      else some { l with mailbox := none, delivered := l.delivered ++ [message] }
    | none => none
  | .taskEnds =>
    if !l.taskDone && l.handlerEnded requestId then some { l with taskDone := true } else none
  | .proceed =>
    if l.main = .waiting && (l.taskDone || l.pump = .finished) then
      some { l with main := .joining, cancelled := true }
    else none
  | .pumpCancelled =>
    if l.cancelled && l.pump ≠ .finished then some { l with pump := .finished } else none
  | .returns =>
    if l.main = .joining && l.taskDone && l.pump = .finished then
      some { l with main := .returned }
    else none

/-- The middleware as it is called. -/
def start (gateway : State) : Lifetime := { gateway }

end Lifetime

/-! ## The steps of the gateway in a lifetime -/

variable {cfg : Config} {s s' s₀ : State} {e : Event} {es : List Event}
  {requestId hostId : String} {req req' : Request} {l l' l₀ : Lifetime} {fs : List LifetimeEvent}

/-- The host of the request is not deregistered while the request has a slot on it. -/
def KeepsHost (requestId : String) (s : State) : Event → Prop
  | .admin (.deregister hostId) => ∀ req, s.requests.get? requestId = some req →
      req.holdsSlot hostId = false
  | _ => True

def Lifetime.KeepsHost (requestId : String) (l : Lifetime) : LifetimeEvent → Prop
  | .gateway e => LlmHomeLab.KeepsHost requestId l.gateway e
  | _ => True

/-- The events of the gateway among those of a lifetime. -/
def gatewayEvents : List LifetimeEvent → List Event :=
  List.filterMap fun
    | .gateway e => some e
    | _ => none

/-- Only a gateway event changes the gateway. -/
theorem Lifetime.step_gateway {f : LifetimeEvent} (h : Lifetime.step cfg requestId l f = some l') :
    (∃ e, f = .gateway e ∧ l.allows requestId e = true ∧
        LlmHomeLab.step cfg l.gateway e = some l'.gateway ∧ l'.taskDone = l.taskDone) ∨
      (gatewayEvents [f] = [] ∧ l'.gateway = l.gateway) := by
  cases f with
  | gateway e =>
    simp only [Lifetime.step] at h
    split at h
    · next hallows =>
      rcases Option.map_eq_some_iff.mp h with ⟨gateway, hstep, rfl⟩
      exact Or.inl ⟨e, rfl, hallows, hstep, rfl⟩
    · cases h
  | _ =>
    simp only [Lifetime.step] at h
    repeat' split at h
    all_goals cases h <;> exact Or.inr ⟨rfl, rfl⟩

/-- The gateway in a lifetime runs as the gateway does. -/
theorem gateway_run
    (hrun : Run (Guarded (Lifetime.KeepsHost requestId) (Fires (Lifetime.step cfg requestId)))
      l₀ fs l) :
    Run (Guarded (KeepsHost requestId) (Fires (step cfg))) l₀.gateway (gatewayEvents fs)
      l.gateway := by
  induction hrun with
  | nil => exact .nil
  | @snoc fs l l' f hrun hnext ih =>
    rcases hnext with ⟨hkeeps, hstep⟩
    have happ : gatewayEvents (fs ++ [f]) = gatewayEvents fs ++ gatewayEvents [f] :=
      List.filterMap_append
    rw [happ]
    rcases Lifetime.step_gateway hstep with ⟨e, rfl, -, hgateway, -⟩ | ⟨hnone, hgateway⟩
    · exact .snoc ih ⟨hkeeps, hgateway⟩
    · rw [hnone, hgateway, List.append_nil]
      exact ih

/-! ## Interruption -/

theorem releaseThen_fail_ended (core : Core) (req : Request) (hostId : String) (err : Exn) :
    ∃ outcome, (releaseThen core req hostId fun core req => (core, req.fail err)).2.phase =
      .ended outcome := by
  unfold releaseThen
  split
  · exact ⟨_, rfl⟩
  · exact ⟨_, rfl⟩

/-- Wherever it reaches a request, an interruption ends it, or leaves it with its stream to
close. -/
theorem interrupted_ends {core core' : Core} {signal : Signal} {now : Int}
    (hsignal : signal.interrupts = true)
    (h : resume cfg requestId now core req signal = some (core', req')) :
    (∃ outcome, req'.phase = .ended outcome) ∨
      ∃ hostId err, req'.phase = .streaming hostId (.closing err) ∧
        ∀ err', req.phase ≠ .streaming hostId (.closing err') := by
  have hrelease : ∀ {hostId err},
      some (releaseThen core req hostId fun core req => (core, req.fail err)) = some (core', req') →
      ∃ outcome, req'.phase = .ended outcome := by
    intro hostId err heq
    rcases releaseThen_fail_ended core req hostId err with ⟨outcome, hended⟩
    rw [Option.some.inj heq] at hended
    exact ⟨outcome, hended⟩
  unfold resume at h
  split at h
  · cases h
    exact Or.inl ⟨_, rfl⟩
  · cases hsignal
  · cases hsignal
  · cases h
    exact Or.inl ⟨_, rfl⟩
  · next hostId failoverInPlay result hphase =>
    -- a cancellation is no `BackendError`
    cases result with
    | ok response => cases hsignal
    | error err =>
      cases err with
      | raised => exact Or.inl (hrelease h)
      | _ => cases hsignal
  · next hostId phase signal hphase =>
    unfold resumeStream at h
    split at h
    · cases hsignal
    · exact Or.inl (hrelease h)
    · cases h
      exact Or.inr ⟨_, _, rfl, by simp [hphase]⟩
    · cases hsignal
    · cases hsignal
    · cases hsignal
    · cases h
      exact Or.inr ⟨_, _, rfl, by simp [hphase]⟩
    · cases hsignal
    · exact Or.inl (hrelease h)
    · exact Or.inl (hrelease h)
    · exact Or.inl (hrelease h)
    · cases hsignal
    · cases h
      exact Or.inl ⟨_, rfl⟩
    · cases h
  · cases h

/-! ## The host of the request stays registered -/

/-- While the request has a slot its host is registered, and no release of it has raised. -/
structure HostKept (requestId : String) (s : State) : Prop where
  registered : ∀ {req hostId}, s.requests.get? requestId = some req →
    req.phase.stage = .holding hostId → s.core.registry.inFlight hostId ≠ none
  neverRaises : ∀ {req}, s.requests.get? requestId = some req → false ∉ req.releases

/-- A slot operation does not deregister a host. -/
theorem registered_addInFlight {reg reg' : HostRegistry} {id : String} {d : Int}
    (h : reg.addInFlight id d = some reg') (hreg : reg.inFlight hostId ≠ none) :
    reg'.inFlight hostId ≠ none := by
  rw [HostRegistry.inFlight_addInFlight h]
  split
  · next hid =>
    rw [hid] at hreg
    simpa using hreg
  · exact hreg

theorem SlotMove.registered {reg reg' : HostRegistry} (h : SlotMove reg req reg' req')
    (hreg : reg.inFlight hostId ≠ none) : reg'.inFlight hostId ≠ none := by
  cases h with
  | keep | releaseRaises => exact hreg
  | acquire before acquired => exact registered_addInFlight acquired hreg
  | bounce before acquired released =>
    exact registered_addInFlight released (registered_addInFlight acquired hreg)
  | release before released => exact registered_addInFlight released hreg

/-- The host a request holds a slot of after its move is registered. -/
theorem SlotMove.holding {reg reg' : HostRegistry} (h : SlotMove reg req reg' req')
    (hkept : ∀ hostId, req.phase.stage = .holding hostId → reg.inFlight hostId ≠ none)
    (hafter : req'.phase.stage = .holding hostId) : reg'.inFlight hostId ≠ none := by
  cases h with
  | keep stage =>
    -- a request that goes on holding its host held it before
    rcases stage with hstage | ⟨-, hover⟩
    · exact hkept hostId (hstage.symm.trans hafter)
    · rw [hover] at hafter
      cases hafter
  | acquire before acquired after =>
    -- whoever could acquire can be counted again, so the host is registered
    rw [after] at hafter
    cases hafter
    intro hnone
    rcases HostRegistry.addInFlight_again acquired 0 with ⟨reg'', hagain⟩
    rw [HostRegistry.addInFlight_eq_none.mpr hnone] at hagain
    cases hagain
  | bounce before acquired released after =>
    rw [after] at hafter
    cases hafter
  | release before released after =>
    rw [after] at hafter
    cases hafter
  | releaseRaises before released after =>
    rw [after] at hafter
    cases hafter

theorem HostKept.admin (h : HostKept requestId s) (hfit : SlotsFit s) {e : AdminEvent} {core : Core}
    (hkeeps : KeepsHost requestId s (.admin e)) (hcore : adminStep cfg s.core e = some core) :
    HostKept requestId { s with core } := by
  constructor
  · intro req hostId hreq hstage
    simp only [(admin_queue hcore).2]
    have hne : e ≠ .deregister hostId := by
      rintro rfl
      rcases slotFits_holding (hfit requestId req hreq) hstage with ⟨hslot, hnil⟩
      have hnot : req.holdsSlot hostId = false := hkeeps req hreq
      simp [Request.holdsSlot, hslot, hnil] at hnot
    rcases inFlight_registryAfter s.core.registry hne with hafter | hafter
    · rw [hafter]
      exact h.registered hreq hstage
    · simp [hafter]
  · exact h.neverRaises

theorem HostKept.own (h : HostKept requestId s) {id : String} {core : Core}
    (hactor : Actor s id req e) (hmoves : Moves cfg id s.core req core req') :
    HostKept requestId ⟨core, s.requests.set id req'⟩ := by
  by_cases hid : requestId = id
  · subst hid
    -- the request's own move
    have hbefore : (∀ hostId, req.phase.stage = .holding hostId →
        s.core.registry.inFlight hostId ≠ none) ∧ false ∉ req.releases := by
      cases hactor with
      | arrives absent new =>
        refine ⟨?_, by simp [new.releases]⟩
        intro hostId hstage
        rw [new.phase] at hstage
        cases hstage
      | resumes present => exact ⟨fun _ => h.registered present, h.neverRaises present⟩
    constructor
    · intro r hostId hr hstage
      rw [Dict.get?_set_self] at hr
      cases hr
      exact hmoves.slot.holding hbefore.1 hstage
    · intro r hr
      rw [Dict.get?_set_self] at hr
      cases hr
      exact hmoves.slot.neverRaises hbefore.1 hbefore.2
  · constructor
    · intro r hostId hr hstage
      rw [Dict.get?_set_of_ne _ hid] at hr
      exact hmoves.slot.registered (h.registered hr hstage)
    · intro r hr
      rw [Dict.get?_set_of_ne _ hid] at hr
      exact h.neverRaises hr

/-- The three invariants of a run in which the host of the request stays registered. -/
theorem hostKept_run (hfit : SlotsFit s₀) (hbook : s₀.core.scratch.book.Consistent)
    (hkept : HostKept requestId s₀)
    (hrun : Run (Guarded (KeepsHost requestId) (Fires (step cfg))) s₀ es s) :
    HostKept requestId s := by
  have hall : SlotsFit s ∧ s.core.scratch.book.Consistent ∧ HostKept requestId s := by
    refine hrun.invariant
      (fun s => SlotsFit s ∧ s.core.scratch.book.Consistent ∧ HostKept requestId s)
      ⟨hfit, hbook, hkept⟩ ?_
    rintro s e s' ⟨hkeeps, hstep⟩ ⟨hfit, hbook, hkept⟩
    have hsteps := steps_of_step hbook hstep
    refine ⟨?_, hsteps.consistent hbook, ?_⟩
    · cases hsteps with
      | admin hcore => exact hfit
      | own actor moves => exact hfit.own actor moves
    · cases hsteps with
      | admin hcore => exact hkept.admin hfit hkeeps hcore
      | own actor moves => exact hkept.own actor moves
  exact hall.2.2

/-! ## Tasks and messages -/

/-- The message the pump holds. -/
def Pump.inHand : Pump → List AsgiMessage
  | .putting message => [message]
  | _ => []

structure LifetimeInv (requestId : String) (l : Lifetime) : Prop where
  /-- The task ends after the handler, and the handler does not start again. -/
  task : l.taskDone = true → l.handlerEnded requestId = true
  joined : l.main = .returned → l.taskDone = true ∧ l.pump = .finished
  /-- While the pump runs, every message is delivered or on its way. -/
  inTransit : l.pump ≠ .finished → l.raw = l.delivered ++ l.mailbox.toList ++ l.pump.inHand
  inOrder : l.delivered ++ l.mailbox.toList <+: l.raw

/-- A step that a finished task allows leaves the request as it is. -/
theorem requests_of_allows (hdone : l.taskDone = true) (hallows : l.allows requestId e = true)
    (h : step cfg s e = some s') : s'.requests.get? requestId = s.requests.get? requestId := by
  rcases step_cases h with ⟨a, core, -, -, rfl⟩ | ⟨id, req, core, req', hran, rfl⟩
  · rfl
  · -- the step is one of another request
    have hid : requestId ≠ id := by
      rintro rfl
      cases hran <;> simp [Lifetime.allows, hdone] at hallows
    exact Dict.get?_set_of_ne _ hid

theorem lifetimeInv_step {f : LifetimeEvent} (h : LifetimeInv requestId l)
    (hstep : Lifetime.step cfg requestId l f = some l') : LifetimeInv requestId l' := by
  cases f with
  | gateway e =>
    -- the handler is over once the task is, whatever the gateway does after that
    simp only [Lifetime.step] at hstep
    split at hstep
    · next hallows =>
      rcases Option.map_eq_some_iff.mp hstep with ⟨gateway, hgateway, rfl⟩
      refine ⟨?_, h.joined, h.inTransit, h.inOrder⟩
      intro hdone
      have hold := h.task hdone
      have hsame := requests_of_allows hdone hallows hgateway
      simpa only [Lifetime.handlerEnded, hsame] using hold
    · cases hstep
  | receive message =>
    -- one more message in the pump's hand
    simp only [Lifetime.step] at hstep
    split at hstep
    · next hpump =>
      cases hstep
      have hraw := h.inTransit (by simp [hpump])
      rw [hpump] at hraw
      refine ⟨h.task, ?_, ?_, ?_⟩
      · intro hmain
        have hfinished := (h.joined hmain).2
        rw [hpump] at hfinished
        cases hfinished
      · intro _
        simp [hraw, Pump.inHand]
      · exact h.inOrder.trans (List.prefix_append _ _)
    · cases hstep
  | receiveRaises =>
    simp only [Lifetime.step] at hstep
    split at hstep
    · next hpump =>
      cases hstep
      exact ⟨h.task, fun hmain => ⟨(h.joined hmain).1, rfl⟩, fun hnot => absurd rfl hnot, h.inOrder⟩
    · cases hstep
  | put =>
    -- the message in hand is delivered, and the pump stops at a disconnect
    simp only [Lifetime.step] at hstep
    split at hstep
    · next message hpump hmailbox =>
      cases hstep
      have hraw := h.inTransit (by simp [hpump])
      rw [hpump, hmailbox] at hraw
      have hmoved : l.raw = l.delivered ++ [message] := by simpa [Pump.inHand] using hraw
      refine ⟨h.task, ?_, ?_, ?_⟩
      · intro hmain
        have hfinished := (h.joined hmain).2
        rw [hpump] at hfinished
        cases hfinished
      · intro hnot
        simp only at hnot ⊢
        split at hnot
        · exact absurd rfl hnot
        · next hne => simp [hmoved, hne, Pump.inHand]
      · simp [hmoved]
    · cases hstep
  | get =>
    -- the application takes the message from the mailbox
    simp only [Lifetime.step] at hstep
    split at hstep
    · next message hmailbox =>
      split at hstep
      · cases hstep
      · cases hstep
        have hraw := h.inTransit
        have horder := h.inOrder
        rw [hmailbox] at hraw horder
        exact ⟨h.task, h.joined, by simpa using hraw, by simpa using horder⟩
    · cases hstep
  | taskEnds =>
    simp only [Lifetime.step] at hstep
    split at hstep
    · next hcond =>
      cases hstep
      rw [Bool.and_eq_true] at hcond
      exact ⟨fun _ => hcond.2, fun hmain => ⟨rfl, (h.joined hmain).2⟩, h.inTransit, h.inOrder⟩
    · cases hstep
  | proceed =>
    simp only [Lifetime.step] at hstep
    split at hstep
    · cases hstep
      exact ⟨h.task, by simp, h.inTransit, h.inOrder⟩
    · cases hstep
  | pumpCancelled =>
    simp only [Lifetime.step] at hstep
    split at hstep
    · cases hstep
      exact ⟨h.task, fun hmain => ⟨(h.joined hmain).1, rfl⟩, fun hnot => absurd rfl hnot, h.inOrder⟩
    · cases hstep
  | returns =>
    -- the middleware returns when task and pump are both done
    simp only [Lifetime.step] at hstep
    split at hstep
    · next hcond =>
      cases hstep
      simp only [Bool.and_eq_true, decide_eq_true_eq] at hcond
      exact ⟨h.task, fun _ => ⟨hcond.1.2, hcond.2⟩, h.inTransit, h.inOrder⟩
    · cases hstep

theorem lifetimeInv_run {Next : Lifetime → LifetimeEvent → Lifetime → Prop}
    (hnext : ∀ a f b, Next a f b → Lifetime.step cfg requestId a f = some b)
    (hrun : Run Next (Lifetime.start s) fs l) : LifetimeInv requestId l := by
  refine hrun.invariant (LifetimeInv requestId) ?_ ?_
  · exact ⟨by simp [Lifetime.start], by simp [Lifetime.start], fun _ => rfl, List.nil_prefix⟩
  · intro a f b hab h
    exact lifetimeInv_step h (hnext a f b hab)

/-! ## Nothing leaks -/

/-- What is left of a request when the middleware has returned. -/
structure CleanedUp (requestId : String) (l : Lifetime) : Prop where
  taskDone : l.taskDone = true
  pumpDone : l.pump = .finished
  ended : ∀ req, l.gateway.requests.get? requestId = some req → ∃ outcome, req.phase = .ended outcome
  /-- The slot, if there was one, was released exactly once. -/
  released : ∀ req, l.gateway.requests.get? requestId = some req →
    (∀ hostId, req.slot = some hostId → req.releases = [true]) ∧
      (req.slot = none → req.releases = [])
  forgotten : l.gateway.core.queue.Forgets requestId

/-- In every run in which the host of the request stays registered while the request has a slot
on it: once the middleware has returned, nothing of the request is left, and at all times the
messages the app side has got are the first ones that came in. -/
theorem nothing_leaks (hstart : Started s₀) (hbefore : Run (Fires (step cfg)) s₀ es s)
    (hnew : s.requests.get? requestId = none)
    (hrun : Run (Guarded (Lifetime.KeepsHost requestId) (Fires (Lifetime.step cfg requestId)))
      (Lifetime.start s) fs l) :
    (l.main = .returned → CleanedUp requestId l) ∧ l.delivered <+: l.raw ∧
      (l.pump ≠ .finished → l.raw = l.delivered ++ l.mailbox.toList ++ l.pump.inHand) := by
  have hinv : LifetimeInv requestId l := lifetimeInv_run (fun _ _ _ h => h.2) hrun
  have hgateway := gateway_run hrun
  have hfull : Run (Fires (step cfg)) s₀ (es ++ gatewayEvents fs) l.gateway :=
    hbefore.append (hgateway.mono fun _ _ _ h => h.2)
  have hfit := slotsFit_run hstart hfull
  have hkept : HostKept requestId l.gateway := by
    refine hostKept_run (slotsFit_run hstart hbefore) (book_consistent hstart hbefore) ?_ hgateway
    -- the request is not there yet
    constructor
    · intro req hostId hreq
      rw [hnew] at hreq
      cases hreq
    · intro req hreq
      rw [hnew] at hreq
      cases hreq
  refine ⟨?_, (List.prefix_append _ _).trans hinv.inOrder, hinv.inTransit⟩
  intro hreturned
  rcases hinv.joined hreturned with ⟨htask, hpump⟩
  have hended : ∀ req, l.gateway.requests.get? requestId = some req →
      ∃ outcome, req.phase = .ended outcome := by
    intro req hreq
    have hhandler := hinv.task htask
    rw [Lifetime.handlerEnded, hreq] at hhandler
    simp only at hhandler
    split at hhandler
    · next outcome hphase => exact ⟨outcome, hphase⟩
    · cases hhandler
  refine ⟨htask, hpump, hended, ?_, ?_⟩
  · intro req hreq
    rcases hended req hreq with ⟨outcome, hphase⟩
    have hslots := hfit requestId req hreq
    have hnever := hkept.neverRaises hreq
    unfold SlotFits at hslots
    rw [hphase] at hslots
    rcases hslots with ⟨hslot, hnil⟩ | ⟨h, ok, hslot, hrel⟩
    · simp [hslot, hnil]
    · cases ok with
      | true => simp [hslot, hrel]
      | false => exact absurd (by simp [hrel]) hnever
  · refine (queueInv_run hstart hfull).forgets ?_
    rintro req hosts ⟨hreq, hwaits⟩
    rcases hended req hreq with ⟨outcome, hphase⟩
    rw [hphase] at hwaits
    cases hwaits

/-- A client asks and disconnects while the backend is at work. -/
def Lab.disconnects : List LifetimeEvent :=
  [.receive (.request "hi" false), .put, .get, .gateway (Lab.ask "a"), .receive .disconnect, .put,
    .proceed, .gateway (.resume "a" (.completed (.error .raised)) 0), .taskEnds, .returns]

/-- Its slot is given back, once, before the middleware returns. -/
theorem nothing_leaks_on_disconnect :
    ∃ s l req, Run (Fires (step Lab.config)) Lab.start [Lab.register "gpu-1" (some ["m"]) 1] s ∧
      Run (Guarded (Lifetime.KeepsHost "a") (Fires (Lifetime.step Lab.config "a")))
        (Lifetime.start s) Lab.disconnects l ∧
      l.main = .returned ∧ l.gateway.requests.get? "a" = some req ∧ req.slot = some "gpu-1" ∧
      CleanedUp "a" l := by
  have hshows : (exec (step Lab.config) Lab.start [Lab.register "gpu-1" (some ["m"]) 1]).map
      (fun s => ((s.requests.get? "a").isSome,
        (exec (Lifetime.step Lab.config "a") (Lifetime.start s) Lab.disconnects).map fun l =>
          (l.main, (l.gateway.requests.get? "a").map (·.slot)))) =
      some (false, some (.returned, some (some "gpu-1"))) := by decide +kernel
  rcases run_of_shows hshows with ⟨s, hbefore, hshown⟩
  rcases Prod.mk.inj hshown with ⟨hnew, hlifetime⟩
  rcases run_of_shows hlifetime with ⟨l, hrun, hend⟩
  rcases Prod.mk.inj hend with ⟨hreturned, hslot⟩
  rcases Option.map_eq_some_iff.mp hslot with ⟨req, hreq, hslot⟩
  have hguarded := hrun.guard (G := Lifetime.KeepsHost "a")
    (by simp [Lab.disconnects, Lab.ask, Lifetime.KeepsHost, KeepsHost])
  have hclean := nothing_leaks Lab.started hbefore (by simpa using hnew) hguarded
  exact ⟨s, l, req, hbefore, hguarded, hreturned, hreq, hslot, hclean.1 hreturned⟩

end LlmHomeLab
