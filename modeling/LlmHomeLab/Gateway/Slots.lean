import LlmHomeLab.Gateway.System

/-! # Slot accounting

The counter of a host lives in an object that `register` replaces and `deregister` drops, while
a request remembers only the id of its host. The counter agrees with the requests in flight as
long as no host is deregistered under a request that has a slot on it.
-/

namespace LlmHomeLab

variable {cfg : Config} {s s' : State} {e : Event} {es : List Event}

/-! ## The counter and its holders -/

/-- The request has acquired a slot of the host and not executed `release_slot`. -/
def Request.holdsSlot (req : Request) (hostId : String) : Bool :=
  req.slot = some hostId && req.releases = []

def State.slotHolders (s : State) (hostId : String) : Nat :=
  s.requests.count (·.holdsSlot hostId)

/-- The counters are exact, no release has raised, and whatever a backend still answers is
returned to the client. -/
structure SlotsAccounted (cfg : Config) (s : State) : Prop where
  exact : ∀ hostId n, s.core.registry.inFlight hostId = some n → n = s.slotHolders hostId
  nonneg : ∀ hostId n, s.core.registry.inFlight hostId = some n → 0 ≤ n
  neverRaises : ∀ requestId req, s.requests.get? requestId = some req → false ∉ req.releases
  answers : ∀ requestId req hostId failoverInPlay response now,
    s.requests.get? requestId = some req → req.phase = .completing hostId failoverInPlay →
    recordTokenUsage response.promptTokens response.completionTokens = .ok () →
    isLatin1 hostId = true →
    ∃ s' req', step cfg s (.resume requestId (.completed (.ok response)) now) = some s' ∧
      s'.requests.get? requestId = some req' ∧ req'.phase = .ended (.answered response)

/-- No host is deregistered while a request has a slot on it. -/
def KeepsHeldHosts (s : State) : Event → Prop
  | .admin (.deregister hostId) => s.slotHolders hostId = 0
  | _ => True

/-! ## A request and its slot -/

/-- Slot and releases of a request, by the stage it is in. -/
def SlotFits (req : Request) : Prop :=
  match req.phase.stage with
  | .before => req.slot = none ∧ req.releases = [] ∧ req.attempted = none
  | .holding hostId => req.slot = some hostId ∧ req.releases = []
  | .over => (req.slot = none ∧ req.releases = []) ∨
      ∃ hostId ok, req.slot = some hostId ∧ req.releases = [ok]

variable {reg reg' : HostRegistry} {req req' : Request}

theorem slotFits_before (h : SlotFits req) (hstage : req.phase.stage = .before) :
    req.slot = none ∧ req.releases = [] ∧ req.attempted = none := by
  simpa [SlotFits, hstage] using h

theorem slotFits_holding {hostId : String} (h : SlotFits req)
    (hstage : req.phase.stage = .holding hostId) : req.slot = some hostId ∧ req.releases = [] := by
  simpa [SlotFits, hstage] using h

theorem Moves.fits {requestId : String} {core core' : Core}
    (h : Moves cfg requestId core req core' req') (hfits : SlotFits req) : SlotFits req' := by
  have hmove := h.slot
  generalize core.registry = reg, core'.registry = reg' at hmove
  cases hmove with
  | keep stage slot releases =>
    rcases stage with hstage | ⟨hbefore, hover⟩
    · by_cases hbefore : req.phase.stage = .before
      · obtain ⟨hslot, hnil, hnone⟩ := slotFits_before hfits hbefore
        unfold SlotFits
        rw [hstage, hbefore, slot, releases]
        rcases h.attempt with hsame | ⟨_, -, hafter, -⟩
        · exact ⟨hslot, hnil, hsame.trans hnone⟩
        · exact absurd (hstage.trans hbefore) hafter
      · -- the stage is the same, and not `before`: nothing has changed
        unfold SlotFits at hfits ⊢
        rw [hstage, slot, releases]
        split at hfits
        · next hstage' => exact absurd hstage' hbefore
        · exact hfits
        · exact hfits
    · obtain ⟨hslot, hnil, -⟩ := slotFits_before hfits hbefore
      unfold SlotFits
      rw [hover, slot, releases]
      exact Or.inl ⟨hslot, hnil⟩
  | acquire before acquired after slot attempted releases =>
    unfold SlotFits
    rw [after, slot, releases]
    exact ⟨rfl, (slotFits_before hfits before).2.1⟩
  | bounce before acquired released after slot attempted releases =>
    unfold SlotFits
    rw [after, slot, releases, (slotFits_before hfits before).2.1]
    exact Or.inr ⟨_, true, rfl, rfl⟩
  | release before released after slot releases =>
    obtain ⟨hslot, hnil⟩ := slotFits_holding hfits before
    unfold SlotFits
    rw [after, slot, releases, hslot, hnil]
    exact Or.inr ⟨_, true, rfl, rfl⟩
  | releaseRaises before released after slot releases =>
    obtain ⟨hslot, hnil⟩ := slotFits_holding hfits before
    unfold SlotFits
    rw [after, slot, releases, hslot, hnil]
    exact Or.inr ⟨_, false, rfl, rfl⟩

/-- Every request's slot fits its stage. -/
def SlotsFit (s : State) : Prop :=
  ∀ requestId req, s.requests.get? requestId = some req → SlotFits req

theorem SlotsFit.actor (h : SlotsFit s) {requestId : String} (hactor : Actor s requestId req e) :
    SlotFits req := by
  cases hactor with
  | arrives absent new =>
    unfold SlotFits
    rw [new.phase]
    exact ⟨new.slot, new.releases, new.attempted⟩
  | resumes present => exact h _ _ present

theorem SlotsFit.own (h : SlotsFit s) {requestId : String} {core : Core}
    (hactor : Actor s requestId req e) (hmoves : Moves cfg requestId s.core req core req') :
    SlotsFit ⟨core, s.requests.set requestId req'⟩ := by
  intro id r hr
  rw [Dict.get?_set] at hr
  split at hr
  · cases hr
    exact hmoves.fits (h.actor hactor)
  · exact h id r hr

theorem slotsFit_run {s₀ : State} (hstart : Started s₀) (hrun : Run (Fires (step cfg)) s₀ es s) :
    SlotsFit s := by
  refine (run_steps hstart hrun).invariant SlotsFit ?_ ?_
  · intro id r hr
    simp [hstart.requests] at hr
  · intro s e s' hsteps hinv
    cases hsteps with
    | admin hcore => exact hinv
    | own actor moves => exact hinv.own actor moves

/-- What a request does to a counter it does to the number of its holders, unless its release
raises. -/
theorem SlotMove.counts (h : SlotMove reg req reg' req') (hfits : SlotFits req)
    (hkept : ∀ hostId, req.phase.stage = .holding hostId → reg.inFlight hostId ≠ none)
    (hostId : String) :
    (reg'.inFlight hostId).getD 0 + (req.holdsSlot hostId).toNat =
      (reg.inFlight hostId).getD 0 + (req'.holdsSlot hostId).toNat := by
  cases h with
  | keep stage slot releases => simp [Request.holdsSlot, slot, releases]
  | @acquire _ _ id before acquired after slot attempted releases =>
    -- one more in flight, one more holder
    obtain ⟨hslot, hnil, -⟩ := slotFits_before hfits before
    obtain ⟨ref, href, -⟩ := Option.map_eq_some_iff.mp acquired
    obtain ⟨n, hn⟩ := HostRegistry.inFlight_isSome_iff.mpr ⟨ref, href⟩
    rw [HostRegistry.inFlight_addInFlight acquired]
    by_cases hid : hostId = id
    · subst hid
      simp [Request.holdsSlot, slot, releases, hslot, hnil, hn]
    · simp [Request.holdsSlot, slot, releases, hslot, hid, Ne.symm hid]
  | @bounce reg₁ _ _ id before acquired released after slot attempted releases =>
    -- the slot goes back within the move
    obtain ⟨hslot, hnil, -⟩ := slotFits_before hfits before
    have hsame : reg'.inFlight hostId = reg.inFlight hostId := by
      rw [HostRegistry.inFlight_addInFlight released, HostRegistry.inFlight_addInFlight acquired,
        HostRegistry.inFlight_addInFlight acquired]
      by_cases hid : hostId = id
      · subst hid
        cases reg.inFlight hostId with
        | none => simp
        | some n => simp
      · simp [hid]
    simp [Request.holdsSlot, slot, releases, hslot, hsame]
  | @release _ _ id before released after slot releases =>
    -- one fewer in flight, one fewer holder
    obtain ⟨hslot, hnil⟩ := slotFits_holding hfits before
    obtain ⟨ref, href, -⟩ := Option.map_eq_some_iff.mp released
    obtain ⟨n, hn⟩ := HostRegistry.inFlight_isSome_iff.mpr ⟨ref, href⟩
    rw [HostRegistry.inFlight_addInFlight released]
    by_cases hid : hostId = id
    · subst hid
      simp [Request.holdsSlot, slot, releases, hslot, hnil, hn]
    · simp [Request.holdsSlot, slot, releases, hslot, hid, Ne.symm hid]
  | releaseRaises before released after slot releases =>
    -- excluded: the host of a holder is registered
    exact absurd (HostRegistry.addInFlight_eq_none.mp released) (hkept _ before)

/-! ## The invariant -/

/-- A counter stands for the slots held; a host that is not registered has none. -/
structure SlotInv (s : State) : Prop where
  fits : SlotsFit s
  counts : ∀ hostId, (s.core.registry.inFlight hostId).getD 0 = s.slotHolders hostId
  neverRaises : ∀ {requestId req}, s.requests.get? requestId = some req → false ∉ req.releases

theorem slotHolders_set (s : State) (core : Core) (requestId hostId : String) (req' : Request) :
    State.slotHolders ⟨core, s.requests.set requestId req'⟩ hostId +
        ((s.requests.get? requestId).elim 0 fun req => (req.holdsSlot hostId).toNat) =
      s.slotHolders hostId + (req'.holdsSlot hostId).toNat :=
  Dict.count_set s.requests _

/-- A host whose slot is held is registered. -/
theorem SlotInv.registered (h : SlotInv s) {requestId hostId : String}
    (hreq : s.requests.get? requestId = some req) (hstage : req.phase.stage = .holding hostId) :
    s.core.registry.inFlight hostId ≠ none := by
  obtain ⟨hslot, hnil⟩ := slotFits_holding (h.fits _ _ hreq) hstage
  have hpos : 0 < s.slotHolders hostId :=
    Dict.count_pos hreq (by simp [Request.holdsSlot, hslot, hnil])
  intro hnone
  have hzero := h.counts hostId
  simp only [hnone, Option.getD_none] at hzero
  omega

/-- A call other than `deregister` leaves the counter of a host alone, or starts it at zero. -/
theorem inFlight_registryAfter (reg : HostRegistry) {e : AdminEvent} {hostId : String}
    (h : e ≠ .deregister hostId) :
    (registryAfter reg e).inFlight hostId = reg.inFlight hostId ∨
      (registryAfter reg e).inFlight hostId = some ((reg.inFlight hostId).getD 0) := by
  -- a registration takes the counter of the old record over
  have hregister : ∀ id capabilities capacity now,
      (reg.register id capabilities capacity now).inFlight hostId = reg.inFlight hostId ∨
        (reg.register id capabilities capacity now).inFlight hostId =
          some ((reg.inFlight hostId).getD 0) := by
    intro id capabilities capacity now
    rw [HostRegistry.inFlight_register]
    split
    · next hid =>
      rw [hid]
      exact Or.inr rfl
    · exact Or.inl rfl
  cases e with
  | register id capabilities capacity now => exact hregister id capabilities capacity now
  | patch id fields now =>
    simp only [registryAfter]
    split
    · exact Or.inl rfl
    · exact hregister id _ _ now
  | heartbeat id now =>
    simp only [registryAfter]
    cases hbeat : reg.heartbeat id now with
    | none => exact Or.inl rfl
    | some reg' => exact Or.inl (HostRegistry.inFlight_heartbeat hbeat)
  | deregister id =>
    have hne : hostId ≠ id := fun hid => h (by rw [hid])
    simp [registryAfter, HostRegistry.inFlight_deregister, hne]
  | _ => exact Or.inl rfl

theorem SlotInv.admin (h : SlotInv s) {e : AdminEvent} {core : Core}
    (hkeeps : KeepsHeldHosts s (.admin e)) (hcore : adminStep cfg s.core e = some core) :
    SlotInv { s with core } := by
  refine ⟨h.fits, fun hostId => ?_, h.neverRaises⟩
  rw [(admin_queue hcore).2]
  by_cases he : e = .deregister hostId
  · -- the host goes, and nobody has a slot on it
    subst he
    have hnone : s.slotHolders hostId = 0 := hkeeps
    simp only [registryAfter, HostRegistry.inFlight_deregister, if_true, Option.getD_none]
    exact (congrArg Nat.cast hnone).symm
  · have hsame := h.counts hostId
    rcases inFlight_registryAfter s.core.registry he with hafter | hafter
    · rwa [hafter]
    · rwa [hafter, Option.getD_some]

/-- What is known of the request that takes a step. -/
theorem SlotInv.actor (h : SlotInv s) {requestId : String} (hactor : Actor s requestId req e) :
    false ∉ req.releases ∧
      (∀ hostId, req.phase.stage = .holding hostId → s.core.registry.inFlight hostId ≠ none) ∧
      ∀ hostId, ((s.requests.get? requestId).elim 0 fun req => (req.holdsSlot hostId).toNat) =
        (req.holdsSlot hostId).toNat := by
  cases hactor with
  | arrives absent new =>
    have hstage : req.phase.stage = .before := by rw [new.phase]; rfl
    refine ⟨by simp [new.releases], by simp [hstage], fun hostId => ?_⟩
    simp [absent, Request.holdsSlot, new.slot]
  | resumes present =>
    refine ⟨h.neverRaises present, fun _ hstage => h.registered present hstage, fun hostId => ?_⟩
    simp [present]

/-- A request whose host is registered does not see its release raise. -/
theorem SlotMove.neverRaises (h : SlotMove reg req reg' req')
    (hkept : ∀ hostId, req.phase.stage = .holding hostId → reg.inFlight hostId ≠ none)
    (hnever : false ∉ req.releases) : false ∉ req'.releases := by
  cases h with
  | keep stage slot releases => rwa [releases]
  | acquire before acquired after slot attempted releases => rwa [releases]
  | bounce before acquired released after slot attempted releases => simpa [releases] using hnever
  | release before released after slot releases => simpa [releases] using hnever
  | releaseRaises before released after slot releases =>
    exact absurd (HostRegistry.addInFlight_eq_none.mp released) (hkept _ before)

theorem SlotInv.own (h : SlotInv s) {requestId : String} {core : Core}
    (hactor : Actor s requestId req e) (hmoves : Moves cfg requestId s.core req core req') :
    SlotInv ⟨core, s.requests.set requestId req'⟩ := by
  obtain ⟨hnever, hkept, hcount⟩ := h.actor hactor
  refine ⟨h.fits.own hactor hmoves, fun hostId => ?_, ?_⟩
  · have hslots := slotHolders_set s core requestId hostId req'
    have hcounter := hmoves.slot.counts (h.fits.actor hactor) hkept hostId
    have hold := h.counts hostId
    rw [hcount hostId] at hslots
    change (core.registry.inFlight hostId).getD 0 = _
    omega
  · intro id r hr
    rw [Dict.get?_set] at hr
    split at hr
    · cases hr
      exact hmoves.slot.neverRaises hkept hnever
    · exact h.neverRaises hr

theorem SlotInv.init (h : Started s) : SlotInv s := by
  refine ⟨fun _ _ hreq => ?_, fun hostId => ?_, fun hreq => ?_⟩
  · simp [h.requests] at hreq
  · have hzero : s.slotHolders hostId = 0 := by
      simp [State.slotHolders, h.requests, Dict.count, Dict.empty]
    rw [hzero]
    cases hlookup : s.core.registry.lookup hostId with
    | none => simp [HostRegistry.inFlight, hlookup]
    | some info => simp [HostRegistry.inFlight, hlookup, h.idle hostId info hlookup]
  · simp [h.requests] at hreq

theorem slotInv_run {s₀ : State} (hstart : Started s₀)
    (hrun : Run (Guarded KeepsHeldHosts (Fires (step cfg))) s₀ es s) : SlotInv s := by
  have hboth : SlotInv s ∧ s.core.scratch.book.Consistent := by
    refine hrun.invariant (fun s => SlotInv s ∧ s.core.scratch.book.Consistent)
      ⟨.init hstart, hstart.consistent⟩ ?_
    rintro s e s' ⟨hkeeps, hstep⟩ ⟨hinv, hbook⟩
    have hsteps := steps_of_step hbook hstep
    refine ⟨?_, hsteps.consistent hbook⟩
    cases hsteps with
    | admin hcore => exact hinv.admin hkeeps hcore
    | own actor moves => exact hinv.own actor moves
  exact hboth.1

/-! ## Accounting over a run -/

/-- A request in flight on a registered host gets its backend's answer through. -/
theorem answered_of_registered {requestId hostId : String} {failoverInPlay : Bool}
    {response : BackendResponse} {now : Int} (hreq : s.requests.get? requestId = some req)
    (hphase : req.phase = .completing hostId failoverInPlay)
    (hregistered : s.core.registry.inFlight hostId ≠ none)
    (htokens : recordTokenUsage response.promptTokens response.completionTokens = .ok ())
    (hheader : isLatin1 hostId = true) :
    ∃ s' req', step cfg s (.resume requestId (.completed (.ok response)) now) = some s' ∧
      s'.requests.get? requestId = some req' ∧ req'.phase = .ended (.answered response) := by
  have hrelease : ∃ registry, s.core.registry.releaseSlot hostId = some registry := by
    rw [← Option.ne_none_iff_exists']
    exact fun hnone => hregistered (HostRegistry.addInFlight_eq_none.mp hnone)
  obtain ⟨registry, hrel⟩ := hrelease
  let core := s.core.withRegistry registry
  let released := { req with releases := req.releases ++ [true] }
  let answered := answer requestId now core released hostId failoverInPlay response
  have hstep : step cfg s (.resume requestId (.completed (.ok response)) now) =
      some ⟨answered.1, s.requests.set requestId answered.2⟩ := by
    simp [step, hreq, resume, hphase, afterComplete, releaseThen, hrel, answered, released, core]
  refine ⟨_, _, hstep, Dict.get?_set_self _, ?_⟩
  simp [answered, answer, htokens, hheader]

/-- In every run that deregisters no host under a request that has a slot on it, every counter
is the number of the slots held, no release raises, and every answer is returned. -/
theorem slots_accounted {s₀ : State} (hstart : Started s₀)
    (hrun : Run (Guarded KeepsHeldHosts (Fires (step cfg))) s₀ es s) : SlotsAccounted cfg s := by
  have hinv := slotInv_run hstart hrun
  have hexact : ∀ hostId n, s.core.registry.inFlight hostId = some n → n = s.slotHolders hostId := by
    intro hostId n hn
    have hcounts := hinv.counts hostId
    rwa [hn, Option.getD_some] at hcounts
  refine ⟨hexact, ?_, fun _ _ hreq => hinv.neverRaises hreq, ?_⟩
  · intro hostId n hn
    rw [hexact hostId n hn]
    exact Int.natCast_nonneg _
  · intro requestId req hostId failoverInPlay response now hreq hphase htokens hheader
    refine answered_of_registered hreq hphase (hinv.registered hreq ?_) htokens hheader
    rw [hphase]
    rfl

/-- A request that is answered and a node that gets a new limit meanwhile. -/
theorem slots_accounted_after_answer :
    ∃ s, Run (Guarded KeepsHeldHosts (Fires (step Lab.config))) Lab.start
        [Lab.register "gpu-1" (some ["m"]) 1, Lab.ask "a", Lab.limitTo "gpu-1" 2, Lab.reply "a"] s ∧
      SlotsAccounted Lab.config s := by
  have hshows : (exec (step Lab.config) Lab.start
      [Lab.register "gpu-1" (some ["m"]) 1, Lab.ask "a", Lab.limitTo "gpu-1" 2, Lab.reply "a"]).map
      (fun s => s.core.registry.inFlight "gpu-1") = some (some 0) := by decide +kernel
  obtain ⟨s, hrun, -⟩ := run_of_shows hshows
  have hguarded := hrun.guard (G := KeepsHeldHosts)
    (by simp [Lab.register, Lab.ask, Lab.limitTo, Lab.reply, KeepsHeldHosts])
  exact ⟨s, hguarded, slots_accounted Lab.started hguarded⟩

/-- A node is removed while a request is in flight on it. The answer of the backend is lost in a
`KeyError`; where the node has been registered again, the release takes its new counter below
zero. -/
theorem slots_not_accounted_after_deregister :
    (∃ s req, Run (Fires (step Lab.config)) Lab.start
        [Lab.register "gpu-1" (some ["m"]) 1, Lab.ask "a", .admin (.deregister "gpu-1"),
          Lab.reply "a"] s ∧
      s.requests.get? "a" = some req ∧ req.releases = [false]) ∧
    ¬ ∀ (es : List Event) (s : State), Run (Fires (step Lab.config)) Lab.start es s →
      SlotsAccounted Lab.config s := by
  constructor
  · have hshows : (exec (step Lab.config) Lab.start
        [Lab.register "gpu-1" (some ["m"]) 1, Lab.ask "a", .admin (.deregister "gpu-1"),
          Lab.reply "a"]).map
        (fun s => (s.requests.get? "a").map (·.releases)) = some (some [false]) := by
      decide +kernel
    obtain ⟨s, hrun, hreq⟩ := run_of_shows hshows
    obtain ⟨req, hreq, hreleases⟩ := Option.map_eq_some_iff.mp hreq
    exact ⟨s, req, hrun, hreq, hreleases⟩
  · intro hall
    have hshows : (exec (step Lab.config) Lab.start
        [Lab.register "gpu-1" (some ["m"]) 1, Lab.ask "a", .admin (.deregister "gpu-1"),
          Lab.register "gpu-1" (some ["m"]) 1, Lab.reply "a"]).map
        (fun s => s.core.registry.inFlight "gpu-1") = some (some (-1)) := by decide +kernel
    obtain ⟨s, hrun, hcounter⟩ := run_of_shows hshows
    exact absurd ((hall _ s hrun).nonneg _ _ hcounter) (by decide)

end LlmHomeLab
