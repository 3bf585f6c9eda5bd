import LlmHomeLab.Gateway.Slots

/-! # Lease isolation

Leases come, go and expire at every suspension of a request, and the polls of other requests
look at its eligibility too. A slot is acquired only in a step that has itself read the lease
clock and found the host allowed; otherwise the request ends without one.
-/

namespace LlmHomeLab

variable {cfg : Config} {s s' s₀ : State} {e : Event} {es : List Event}
  {requestId hostId : String} {req req' : Request} {core core' : Core}

/-! ## Admission under the lease rules -/

/-- At a clock reading of the step, with the leases as they are then, the lease rules allow the
host, and nobody but the request has it leased. -/
def AllowedInStep (cfg : Config) (s s' : State) (token : Option String) (hostId : String) : Prop :=
  ∃ st, Later cfg s.core.scratch st ∧ st.readings < s'.core.scratch.readings ∧
    LeaseAllows st.book token hostId (cfg.leaseClock st.readings) ∧
    ∀ lease, st.book.byHost.get? hostId = some lease →
      lease.live (cfg.leaseClock st.readings) = true → token = some lease.token

/-- The lease rules allow a host to nobody but the holder of its lease. -/
theorem LeaseAllows.own {book : NodeLeaseBook} {token : Option String} {now : Int}
    (h : LeaseAllows book token hostId now) (hbook : book.Consistent) {lease : NodeLease}
    (hlease : book.byHost.get? hostId = some lease) (hlive : lease.live now = true) :
    token = some lease.token := by
  cases token with
  | none => exact absurd ⟨lease, hlease, hlive⟩ h
  | some token =>
    obtain ⟨own, hown, -, hid⟩ := h
    obtain ⟨htoken, hhost⟩ := hbook.ofToken hown
    rw [hid, hlease] at hhost
    cases hhost
    rw [htoken]

/-- A move that gives the request a slot has chosen its host. -/
theorem Moves.chosen_of_slot (h : Moves cfg requestId core req core' req') (hfits : SlotFits req)
    (hold : req.slot ≠ some hostId) (hslot : req'.slot = some hostId) :
    Chosen cfg core req hostId core'.scratch := by
  have hattempted : req.phase.stage = .before ∧ req'.attempted = some hostId := by
    have hmove := h.slot
    generalize core.registry = reg, core'.registry = reg' at hmove
    cases hmove with
    | keep stage slot releases => exact absurd (slot ▸ hslot) hold
    | acquire before acquired after slot attempted releases =>
      exact ⟨before, attempted.trans (slot.symm.trans hslot)⟩
    | bounce before acquired released after slot attempted releases =>
      exact ⟨before, attempted.trans (slot.symm.trans hslot)⟩
    | release before released after slot releases => exact absurd (slot ▸ hslot) hold
    | releaseRaises before released after slot releases => exact absurd (slot ▸ hslot) hold
  obtain ⟨hbefore, hattempted⟩ := hattempted
  rcases h.attempt with hsame | ⟨id, -, -, hid, hchosen⟩
  · rw [hsame, (slotFits_before hfits hbefore).2.2] at hattempted
    cases hattempted
  · rw [hid] at hattempted
    cases hattempted
    exact hchosen

/-- The request has a slot on the host. -/
def HasSlot (requestId hostId : String) (token : Option String) (s : State) : Prop :=
  ∃ req, s.requests.get? requestId = some req ∧ req.slot = some hostId ∧ req.token = token

/-- A request gets its slot in a step that the lease rules allow. -/
theorem Steps.allowed {token : Option String} (h : Steps cfg s e s') (hfit : SlotsFit s)
    (hbook : s.core.scratch.book.Consistent) (hold : ¬ HasSlot requestId hostId token s)
    (hnew : HasSlot requestId hostId token s') : AllowedInStep cfg s s' token hostId := by
  obtain ⟨r, hr, hslot, rfl⟩ := hnew
  cases h with
  | admin hcore => exact absurd ⟨r, hr, hslot, rfl⟩ hold
  | @own _ id req req' core actor moves =>
    simp only [Dict.get?_set] at hr
    split at hr
    · next heq =>
      subst heq
      cases hr
      have hnot : req.slot ≠ some hostId := by
        cases actor with
        | arrives absent new => simp [new.slot]
        | resumes present =>
          exact fun hreq => hold ⟨req, present, hreq, moves.params.token.symm⟩
      obtain ⟨-, -, -, -, -, st, hlater, hread, hallows⟩ :=
        moves.chosen_of_slot (hfit.actor actor) hnot hslot
      rw [← moves.params.token] at hallows
      exact ⟨st, hlater, hread, hallows, fun _ => hallows.own (hlater.consistent hbook)⟩
    · exact absurd ⟨r, hr, hslot, rfl⟩ hold

/-! ## The wait for a host is bounded -/

theorem releaseThen_waitingHosts (core : Core) (req : Request)
    {next : Core → Request → Core × Request} (hnext : Settles next) :
    (releaseThen core req hostId next).2.phase.waitingHosts = none := by
  unfold releaseThen
  split
  · exact waitingHosts_of_not_before (by simp [(hnext _ _).2.2])
  · rfl

theorem route_waitingHosts (core : Core) (req : Request) (candidates : List RoutingCandidate)
    (failoverInPlay : Bool) :
    (route requestId core req candidates failoverInPlay).2.phase.waitingHosts = none := by
  unfold route openStream
  simp only
  split
  · rfl
  · split
    · split
      · rfl
      · split
        · split
          · rfl
          · exact releaseThen_waitingHosts _ _ (settles_fail _)
        · rfl
    · rfl

theorem sleepAgain_waits {w w' : Wait}
    (h : (sleepAgain cfg requestId core req w).2.phase = .waiting w') :
    w' = w ∧ w.waited < cfg.dispatchWaitTimeout := by
  unfold sleepAgain at h
  split at h
  · next hlt =>
    cases h
    exact ⟨rfl, hlt⟩
  · cases h

theorem not_waiting {phase : Phase} {w : Wait} (h : phase.waitingHosts = none) :
    phase ≠ .waiting w := by
  rintro rfl
  cases h

theorem afterDiscovery_waits {capable : List Nat} {budgetBlocked : Bool} {w : Wait}
    (h : (afterDiscovery cfg requestId core req capable budgetBlocked).2.phase = .waiting w) :
    w.waited < cfg.dispatchWaitTimeout := by
  unfold afterDiscovery at h
  simp only at h
  split at h
  · cases h
  · split at h
    · cases h
    · obtain ⟨rfl, hlt⟩ := sleepAgain_waits h
      exact hlt
    · exact absurd h (not_waiting (route_waitingHosts _ _ _ _))

theorem continueDiscovery_waits {d : Discovery} {w : Wait}
    (h : (continueDiscovery cfg requestId core req d).2.phase = .waiting w) :
    w.waited < cfg.dispatchWaitTimeout := by
  unfold continueDiscovery at h
  split at h
  · cases h
  · cases h
  · exact afterDiscovery_waits h

theorem begin_waits {w : Wait} (h : (begin cfg requestId core req).2.phase = .waiting w) :
    w.waited < cfg.dispatchWaitTimeout := by
  unfold begin at h
  simp only at h
  split at h
  · exact continueDiscovery_waits h
  · split at h
    · cases h
    · exact continueDiscovery_waits h

/-- A turn of the loop after which the request goes on waiting has added the poll interval. -/
theorem poll_waits {w w' : Wait} (h : (poll cfg requestId core req w).2.phase = .waiting w') :
    w'.waited = w.waited + cfg.dispatchPollInterval ∧ w'.waited < cfg.dispatchWaitTimeout := by
  unfold poll at h
  simp only at h
  split at h
  · cases h
  · obtain ⟨rfl, hlt⟩ := sleepAgain_waits h
    exact ⟨rfl, hlt⟩
  · split at h
    · cases h
    · split at h
      · exact absurd h (not_waiting (route_waitingHosts _ _ _ _))
      · obtain ⟨rfl, hlt⟩ := sleepAgain_waits h
        exact ⟨rfl, hlt⟩

/-- A request in the middle of a backend call does not go back to waiting. -/
theorem SlotMove.before_of_before {reg reg' : HostRegistry} (h : SlotMove reg req reg' req')
    (hafter : req'.phase.stage = .before) : req.phase.stage = .before := by
  cases h with
  | keep stage =>
    rcases stage with hstage | ⟨-, hover⟩
    · rwa [← hstage]
    · rw [hover] at hafter
      cases hafter
  | acquire before | bounce before => exact before
  | release before released after =>
    rw [after] at hafter
    cases hafter
  | releaseRaises before released after =>
    rw [after] at hafter
    cases hafter

theorem streaming_not_before (hostId : String) (phase : StreamPhase) :
    (Phase.streaming hostId phase).stage ≠ .before := by
  cases phase <;> simp [Phase.stage]

theorem resume_waits {signal : Signal} {now : Int} {w : Wait}
    (hbook : core.scratch.book.Consistent)
    (h : resume cfg requestId now core req signal = some (core', req'))
    (hw : req'.phase = .waiting w) : w.waited < cfg.dispatchWaitTimeout := by
  have hbefore : req.phase.stage = .before :=
    (resume_moves hbook h).slot.before_of_before (by rw [hw]; rfl)
  unfold resume at h
  split at h
  · -- a failed `list_models` ends the request
    cases h
    cases hw
  · have hres := Option.some.inj h
    rw [show req' = _ from congrArg Prod.snd hres.symm] at hw
    exact continueDiscovery_waits hw
  · have hres := Option.some.inj h
    rw [show req' = _ from congrArg Prod.snd hres.symm] at hw
    exact (poll_waits hw).2
  · cases h
    cases hw
  · next hphase =>
    -- after the slot is acquired nobody waits any more
    rw [hphase] at hbefore
    cases hbefore
  · next hphase =>
    rw [hphase] at hbefore
    exact absurd hbefore (streaming_not_before _ _)
  · cases h

/-- A request that waits has waited less than the timeout. -/
theorem waits_run (hstart : Started s₀) (hrun : Run (Fires (step cfg)) s₀ es s) {w : Wait}
    (hreq : s.requests.get? requestId = some req) (hw : req.phase = .waiting w) :
    w.waited < cfg.dispatchWaitTimeout := by
  have hinv : s.core.scratch.book.Consistent ∧ ∀ id r w, s.requests.get? id = some r →
      r.phase = .waiting w → w.waited < cfg.dispatchWaitTimeout := by
    -- the book stays consistent on the way, which `resume_waits` needs
    refine hrun.invariant (fun s => s.core.scratch.book.Consistent ∧ ∀ id r w,
      s.requests.get? id = some r → r.phase = .waiting w → w.waited < cfg.dispatchWaitTimeout) ?_ ?_
    · refine ⟨hstart.consistent, fun id r w hr => ?_⟩
      simp [hstart.requests] at hr
    · rintro s e s' hstep ⟨hbook, hwaits⟩
      refine ⟨(steps_of_step hbook hstep).consistent hbook, fun id r w hr hw => ?_⟩
      rcases step_cases hstep with ⟨a, core, -, -, rfl⟩ | ⟨rid, old, core, new, hran, rfl⟩
      · exact hwaits id r w hr hw
      · simp only [Dict.get?_set] at hr
        split at hr
        · cases hr
          cases hran with
          | begins absent => exact begin_waits hw
          | resumes present returns => exact resume_waits hbook returns hw
        · exact hwaits id r w hr hw
  exact hinv.2 _ _ _ hreq hw

/-! ## A lease that has ended -/

/-- The token has no live lease at the next clock reading. -/
def LeaseOver (cfg : Config) (st : Scratch) (token : String) : Prop :=
  ∀ lease, st.book.byToken.get? token = some lease →
    lease.live (cfg.leaseClock st.readings) = false

theorem LeaseOver.require {st : Scratch} {token : String} (h : LeaseOver cfg st token) :
    ∃ e book, st.book.require token (cfg.leaseClock st.readings) = (.error e, book) := by
  generalize hres : st.book.require token _ = res
  obtain ⟨result, book⟩ := res
  cases result with
  | error e => exact ⟨e, book, rfl⟩
  | ok lease =>
    obtain ⟨hlease, hlive, -⟩ := NodeLeaseBook.require_ok hres
    rw [h lease hlease] at hlive
    cases hlive

theorem poll_of_leaseOver {token : String} {w : Wait} (htoken : req.token = some token)
    (hover : LeaseOver cfg core.scratch token) :
    ∃ e, (poll cfg requestId core req w).2 = req.fail e := by
  obtain ⟨e, book, hrequire⟩ := hover.require
  exact ⟨.lease e, by simp [poll, currentCandidates, leaseNow, htoken, hrequire]⟩

/-- The discovery reads no clock; the check after it finds the lease ended. -/
theorem continueDiscovery_of_leaseOver {token : String} {d : Discovery}
    (htoken : req.token = some token) (hover : LeaseOver cfg core.scratch token) :
    (∃ e, (continueDiscovery cfg requestId core req d).2 = req.fail e) ∨
      ∃ ref d', (continueDiscovery cfg requestId core req d).2 =
        { req with phase := .discovering ref d' } := by
  have hsame := discover_same cfg core.registry req.body.model d.pending d.capable
    d.anyBudgetBlocked core.scratch
  unfold continueDiscovery
  split
  · exact Or.inl ⟨_, rfl⟩
  · exact Or.inr ⟨_, _, rfl⟩
  · next capable budgetBlocked st hdone =>
    rw [hdone] at hsame
    obtain ⟨e, book, hrequire⟩ := hover.require
    rw [← hsame.1, ← hsame.2] at hrequire
    refine Or.inl ⟨.lease e, ?_⟩
    simp [afterDiscovery, leaseNow, usableHosts, Core.withScratch, htoken, hrequire]

/-- Whatever a request with an ended lease is resumed with before it has a slot, it goes on
with its discovery or fails. -/
theorem resume_of_leaseOver {token : String} {signal : Signal} {now : Int}
    (hbefore : req.phase.stage = .before) (htoken : req.token = some token)
    (hover : LeaseOver cfg core.scratch token)
    (h : resume cfg requestId now core req signal = some (core', req')) :
    (∃ e, req' = req.fail e) ∨ ∃ ref d, req' = { req with phase := .discovering ref d } := by
  unfold resume at h
  split at h
  · cases h
    exact Or.inl ⟨_, rfl⟩
  · rw [show req' = _ from congrArg Prod.snd (Option.some.inj h).symm]
    exact continueDiscovery_of_leaseOver htoken hover
  · rw [show req' = _ from congrArg Prod.snd (Option.some.inj h).symm]
    exact Or.inl (poll_of_leaseOver htoken hover)
  · cases h
    exact Or.inl ⟨_, rfl⟩
  · next hphase =>
    rw [hphase] at hbefore
    cases hbefore
  · next hphase =>
    rw [hphase] at hbefore
    exact absurd hbefore (streaming_not_before _ _)
  · cases h

/-! ## Isolation over a run -/

/-- What the lease rules mean for a request in the run `es` from `s₀` to `s`. -/
structure LeaseIsolated (cfg : Config) (s₀ : State) (es : List Event) (s : State)
    (requestId : String) (req : Request) : Prop where
  /-- Its slot was acquired in a step in which the lease rules allowed the host. -/
  admitted : ∀ hostId, req.slot = some hostId → ∃ pre e post t t', es = pre ++ e :: post ∧
    Run (Fires (step cfg)) s₀ pre t ∧ step cfg t e = some t' ∧ Run (Fires (step cfg)) t' post s ∧
    ¬ HasSlot requestId hostId req.token t ∧ HasSlot requestId hostId req.token t' ∧
    AllowedInStep cfg t t' req.token hostId
  /-- Without a slot it calls no backend. -/
  slotless : req.slot = none → ∀ hostId, req.phase.stage ≠ .holding hostId
  /-- Its wait is limited: every turn that does not end it takes a part of the timeout. -/
  bounded : ∀ w, req.phase = .waiting w → w.waited < cfg.dispatchWaitTimeout ∧
    ∀ now s' req' w', step cfg s (.resume requestId .slept now) = some s' →
      s'.requests.get? requestId = some req' → req'.phase = .waiting w' →
      w'.waited = w.waited + cfg.dispatchPollInterval
  /-- Without a live lease of its token it does not get any further than its discovery. -/
  refused : ∀ token, req.phase.stage = .before → req.token = some token →
    LeaseOver cfg s.core.scratch token →
    ∀ signal now s', step cfg s (.resume requestId signal now) = some s' →
      ∃ req', s'.requests.get? requestId = some req' ∧ req'.slot = none ∧
        ((∃ e, req'.phase = .ended (.failed e)) ∨ ∃ ref d, req'.phase = .discovering ref d)

/-- In every run, every request is isolated by the leases. -/
theorem lease_isolation (hstart : Started s₀) (hrun : Run (Fires (step cfg)) s₀ es s)
    (hreq : s.requests.get? requestId = some req) : LeaseIsolated cfg s₀ es s requestId req := by
  have hfits := slotsFit_run hstart hrun requestId req hreq
  refine ⟨fun hostId hslot => ?_, fun hnone hostId hstage => ?_, fun w hw => ?_, ?_⟩
  · -- the slot was acquired in some step of the run, and the lease rules allowed it there
    have hinit : ¬ HasSlot requestId hostId req.token s₀ := by
      rintro ⟨r, hr, -⟩
      simp [hstart.requests] at hr
    obtain ⟨pre, e, post, t, t', rfl, hpre, hstep, hpost, hold, hnew⟩ :=
      hrun.exists_step hinit ⟨req, hreq, hslot, rfl⟩
    have hbook := book_consistent hstart hpre
    have hallowed := (steps_of_step hbook hstep).allowed (slotsFit_run hstart hpre) hbook hold hnew
    exact ⟨pre, e, post, t, t', rfl, hpre, hstep, hpost, hold, hnew, hallowed⟩
  · rw [(slotFits_holding hfits hstage).1] at hnone
    cases hnone
  · refine ⟨waits_run hstart hrun hreq hw, fun now s' req' w' hstep hreq' hw' => ?_⟩
    rw [step_slept hreq hw] at hstep
    cases hstep
    rw [Dict.get?_set_self] at hreq'
    cases hreq'
    exact (poll_waits hw').1
  · intro token hbefore htoken hover signal now s' hstep
    simp only [step, hreq, Option.bind_eq_bind, Option.bind_some] at hstep
    obtain ⟨⟨core', req'⟩, hres, hstep⟩ := Option.bind_eq_some_iff.mp hstep
    cases hstep
    have hslot := (slotFits_before hfits hbefore).1
    refine ⟨req', Dict.get?_set_self _, ?_⟩
    rcases resume_of_leaseOver hbefore htoken hover hres with ⟨e, rfl⟩ | ⟨ref, d, rfl⟩
    · exact ⟨hslot, Or.inl ⟨e, rfl⟩⟩
    · exact ⟨hslot, Or.inr ⟨ref, d, rfl⟩⟩

/-- The holder of a lease is admitted to its node. -/
theorem lease_isolation_of_holder :
    ∃ s req, Run (Fires (step Lab.config)) Lab.start
        [Lab.register "gpu-1" (some ["m"]) 1, Lab.register "gpu-2" (some ["m"]) 1,
          Lab.reserve "gpu-1" "t", Lab.ask "a" (some "t")] s ∧
      s.requests.get? "a" = some req ∧ req.slot = some "gpu-1" ∧
      LeaseIsolated Lab.config Lab.start
        [Lab.register "gpu-1" (some ["m"]) 1, Lab.register "gpu-2" (some ["m"]) 1,
          Lab.reserve "gpu-1" "t", Lab.ask "a" (some "t")] s "a" req := by
  have hshows : (exec (step Lab.config) Lab.start
      [Lab.register "gpu-1" (some ["m"]) 1, Lab.register "gpu-2" (some ["m"]) 1,
        Lab.reserve "gpu-1" "t", Lab.ask "a" (some "t")]).map
      (fun s => (s.requests.get? "a").map (·.slot)) = some (some (some "gpu-1")) := by
    decide +kernel
  obtain ⟨s, hrun, hshown⟩ := run_of_shows hshows
  obtain ⟨req, hreq, hslot⟩ := Option.map_eq_some_iff.mp hshown
  exact ⟨s, req, hrun, hreq, hslot, lease_isolation Lab.started hrun hreq⟩

end LlmHomeLab
