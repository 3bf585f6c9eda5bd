import LlmHomeLab.Gateway.System

/-! # Capacity

A chat request tests the `HostInfo` objects it captured when it arrived, and acquires its slot
by host id. The two are the same object as long as the host is not registered, patched or
deregistered while the request holds on to a record of it.
-/

namespace LlmHomeLab

variable {cfg : Config} {s s' : State} {e : Event} {es : List Event}
  {requestId hostId : String} {req req' : Request} {reg reg' : HostRegistry}

/-! ## Registrations and captured records -/

/-- The host whose record a call replaces or drops. -/
def AdminEvent.changes : AdminEvent → Option String
  | .register hostId _ _ _ => some hostId
  | .patch hostId _ _ => some hostId
  | .deregister hostId => some hostId
  | _ => none

/-- The request holds a record of the host. -/
def State.Captures (s : State) (requestId hostId : String) : Prop :=
  ∃ req, s.requests.get? requestId = some req ∧
    ∃ ref ∈ req.captured, (s.core.registry.heap ref).hostId = hostId

/-- The host is not registered, patched or deregistered while the request holds a record of it. -/
def KeepsCaptured (requestId hostId : String) (s : State) : Event → Prop
  | .admin e => e.changes = some hostId → ¬ s.Captures requestId hostId
  | _ => True

/-- The request executes `acquire_slot(host_id)` in this step. -/
structure Attempts (requestId hostId : String) (s s' : State) : Prop where
  before : (s.requests.get? requestId).bind (·.attempted) = none
  after : (s'.requests.get? requestId).bind (·.attempted) = some hostId

/-- The objects that exist go on existing, with the settings they have. -/
structure KeepsObjects (reg reg' : HostRegistry) : Prop where
  next : reg.next ≤ reg'.next
  settings : ∀ {ref}, ref < reg.next → SameSettings (reg.heap ref) (reg'.heap ref)

theorem KeepsObjects.refl (reg : HostRegistry) : KeepsObjects reg reg :=
  ⟨le_refl _, fun _ => .refl _⟩

theorem keepsObjects_addInFlight {d : Int} (h : reg.addInFlight hostId d = some reg') :
    KeepsObjects reg reg' ∧ reg'.hosts = reg.hosts :=
  ⟨⟨(HostRegistry.hosts_addInFlight h).2.ge, fun _ => HostRegistry.heap_addInFlight h _⟩,
    (HostRegistry.hosts_addInFlight h).1⟩

/-- A move of a request replaces no record. -/
theorem SlotMove.keepsObjects (h : SlotMove reg req reg' req') :
    KeepsObjects reg reg' ∧ reg'.hosts = reg.hosts := by
  cases h with
  | keep | releaseRaises => exact ⟨.refl reg, rfl⟩
  | acquire before acquired => exact keepsObjects_addInFlight acquired
  | @bounce reg₁ _ _ _ before acquired released =>
    obtain ⟨⟨hnext, hsettings⟩, hhosts⟩ := keepsObjects_addInFlight acquired
    obtain ⟨⟨hnext', hsettings'⟩, hhosts'⟩ := keepsObjects_addInFlight released
    refine ⟨⟨hnext.trans hnext', fun href => ?_⟩, hhosts'.trans hhosts⟩
    exact (hsettings href).trans (hsettings' (lt_of_lt_of_le href hnext))
  | release before released => exact keepsObjects_addInFlight released

theorem keepsObjects_register (reg : HostRegistry) (id : String) (capabilities : HostCapabilities)
    (capacity : HostCapacity) (now : Int) :
    KeepsObjects reg (reg.register id capabilities capacity now) :=
  ⟨Nat.le_succ _, fun href => by rw [HostRegistry.heap_register href]; exact .refl _⟩

theorem keepsObjects_registryAfter (reg : HostRegistry) (e : AdminEvent) :
    KeepsObjects reg (registryAfter reg e) := by
  cases e with
  | register id capabilities capacity now => exact keepsObjects_register reg id _ _ now
  | patch id fields now =>
    simp only [registryAfter]
    split
    · exact .refl reg
    · exact keepsObjects_register reg id _ _ now
  | heartbeat id now =>
    simp only [registryAfter]
    cases hbeat : reg.heartbeat id now with
    | none => exact .refl reg
    | some reg' =>
      exact ⟨(HostRegistry.hosts_heartbeat hbeat).2.ge,
        fun _ => HostRegistry.heap_heartbeat hbeat _⟩
  | deregister id => exact ⟨le_refl _, fun _ => .refl _⟩
  | _ => exact .refl reg

theorem hosts_register_of_ne {id : String} (hne : hostId ≠ id) (reg : HostRegistry)
    (capabilities : HostCapabilities) (capacity : HostCapacity) (now : Int) :
    (reg.register id capabilities capacity now).hosts.get? hostId = reg.hosts.get? hostId :=
  Dict.get?_set_of_ne _ hne

/-- A call that does not change a host's registration leaves its record in place. -/
theorem hosts_registryAfter (reg : HostRegistry) {e : AdminEvent} (h : e.changes ≠ some hostId) :
    (registryAfter reg e).hosts.get? hostId = reg.hosts.get? hostId := by
  cases e with
  | register id capabilities capacity now =>
    exact hosts_register_of_ne (fun hid => h (by rw [hid]; rfl)) reg _ _ _
  | patch id fields now =>
    simp only [registryAfter]
    split
    · rfl
    · exact hosts_register_of_ne (fun hid => h (by rw [hid]; rfl)) reg _ _ _
  | heartbeat id now =>
    simp only [registryAfter]
    cases hbeat : reg.heartbeat id now with
    | none => rfl
    | some reg' => rw [Option.getD_some, (HostRegistry.hosts_heartbeat hbeat).1]
  | deregister id => exact Dict.get?_pop_of_ne _ fun hid => h (by rw [hid]; rfl)
  | _ => rfl

/-! ## The invariant -/

/-- The captured records exist, and the request's records of the host are the one registered. -/
structure CapturesCurrent (requestId hostId : String) (s : State) : Prop where
  exist : ∀ {id req}, s.requests.get? id = some req → ∀ ref ∈ req.captured,
    ref < s.core.registry.next
  current : ∀ {req}, s.requests.get? requestId = some req → ∀ ref ∈ req.captured,
    (s.core.registry.heap ref).hostId = hostId → s.core.registry.hosts.get? hostId = some ref

theorem CapturesCurrent.admin (h : CapturesCurrent requestId hostId s) {e : AdminEvent}
    {core : Core} (hkeeps : KeepsCaptured requestId hostId s (.admin e))
    (hcore : adminStep cfg s.core e = some core) :
    CapturesCurrent requestId hostId { s with core } := by
  have hobjects := keepsObjects_registryAfter s.core.registry e
  refine ⟨fun hreq ref href => ?_, fun hreq ref href hid => ?_⟩
  · simp only [(admin_queue hcore).2]
    exact lt_of_lt_of_le (h.exist hreq ref href) hobjects.next
  · simp only [(admin_queue hcore).2] at hid ⊢
    rw [(hobjects.settings (h.exist hreq ref href)).hostId] at hid
    rw [hosts_registryAfter]
    · exact h.current hreq ref href hid
    · exact fun hchanges => hkeeps hchanges ⟨_, hreq, ref, href, hid⟩

/-- The records of the request that takes a step. -/
theorem CapturesCurrent.actor (h : CapturesCurrent requestId hostId s) {id : String}
    (hactor : Actor s id req e) :
    (∀ ref ∈ req.captured, ref < s.core.registry.next) ∧
      (id = requestId → ∀ ref ∈ req.captured, (s.core.registry.heap ref).hostId = hostId →
        s.core.registry.hosts.get? hostId = some ref) := by
  cases hactor with
  | arrives absent new =>
    have hcaptured : req.captured = s.core.registry.hostRefs := by
      simp [Request.captured, new.phase, new.snapshot]
    rw [hcaptured]
    refine ⟨fun ref href => HostRegistry.hostRefs_lt href, ?_⟩
    rintro - ref href rfl
    exact HostRegistry.mem_hostRefs href
  | resumes present =>
    refine ⟨h.exist present, ?_⟩
    rintro rfl
    exact h.current present

/-- The captured records go on existing: a request that moves captures no others. -/
theorem Moves.captured_exist {id : String} {core : Core}
    (hmoves : Moves cfg id s.core req core req')
    (hexist : ∀ ref ∈ req.captured, ref < s.core.registry.next)
    (hothers : ∀ {id' r}, s.requests.get? id' = some r → ∀ ref ∈ r.captured,
      ref < s.core.registry.next) {id' : String} {r : Request}
    (hr : (s.requests.set id req').get? id' = some r) :
    ∀ ref ∈ r.captured, ref < core.registry.next := by
  intro ref href
  refine lt_of_lt_of_le ?_ hmoves.slot.keepsObjects.1.next
  rw [Dict.get?_set] at hr
  split at hr
  · cases hr
    exact hexist ref (hmoves.captured ref href)
  · exact hothers hr ref href

theorem CapturesCurrent.own (h : CapturesCurrent requestId hostId s) {id : String} {core : Core}
    (hactor : Actor s id req e) (hmoves : Moves cfg id s.core req core req') :
    CapturesCurrent requestId hostId ⟨core, s.requests.set id req'⟩ := by
  obtain ⟨hexist, hcurrent⟩ := h.actor hactor
  obtain ⟨hobjects, hhosts⟩ := hmoves.slot.keepsObjects
  refine ⟨hmoves.captured_exist hexist h.exist, fun {r} hr ref href hid => ?_⟩
  simp only at hid ⊢
  rw [hhosts]
  rw [Dict.get?_set] at hr
  split at hr
  · next heq =>
    -- its own records: it has gained none
    cases hr
    have hold := hmoves.captured ref href
    rw [(hobjects.settings (hexist ref hold)).hostId] at hid
    exact hcurrent heq.symm ref hold hid
  · rw [(hobjects.settings (h.exist hr ref href)).hostId] at hid
    exact h.current hr ref href hid

theorem capturesCurrent_run {s₀ : State} (hstart : Started s₀)
    (hrun : Run (Guarded (KeepsCaptured requestId hostId) (Fires (step cfg))) s₀ es s) :
    CapturesCurrent requestId hostId s ∧ s.core.scratch.book.Consistent := by
  refine hrun.invariant
    (fun s => CapturesCurrent requestId hostId s ∧ s.core.scratch.book.Consistent) ?_ ?_
  · exact ⟨⟨fun h => by simp [hstart.requests] at h, fun h => by simp [hstart.requests] at h⟩,
      hstart.consistent⟩
  · rintro s e s' ⟨hkeeps, hstep⟩ ⟨hinv, hbook⟩
    have hsteps := steps_of_step hbook hstep
    refine ⟨?_, hsteps.consistent hbook⟩
    cases hsteps with
    | admin hcore => exact hinv.admin hkeeps hcore
    | own actor moves => exact hinv.own actor moves

/-! ## Capacity safety -/

/-- A step that executes `acquire_slot` is a move of the request, for a host it has chosen. -/
theorem Attempts.chosen (h : Attempts requestId hostId s s') (hsteps : Steps cfg s e s') :
    ∃ req, Actor s requestId req e ∧ Chosen cfg s.core req hostId s'.core.scratch := by
  obtain ⟨hbefore, hafter⟩ := h
  cases hsteps with
  | admin hcore =>
    rw [hbefore] at hafter
    cases hafter
  | @own _ id req req' core actor moves =>
    simp only [Dict.get?_set] at hafter
    split at hafter
    · next heq =>
      subst heq
      refine ⟨req, actor, ?_⟩
      rcases moves.attempt with hsame | ⟨h', -, -, hattempt, hchosen⟩
      · -- nothing was attempted in this move: then it was not attempted before either
        have hnone : req.attempted = none := by
          cases actor with
          | arrives absent new => exact new.attempted
          | resumes present => simpa [present] using hbefore
        rw [Option.bind_some, hsame, hnone] at hafter
        cases hafter
      · rw [Option.bind_some, hattempt] at hafter
        cases hafter
        exact hchosen
    · rw [hbefore] at hafter
      cases hafter

/-- In every run in which a host is not registered, patched or deregistered while a request
holds a record of it, the request acquires a slot of the host only while the host is registered
and below its limit. -/
theorem acquires_below_limit {s₀ : State} (hstart : Started s₀)
    (hrun : Run (Guarded (KeepsCaptured requestId hostId) (Fires (step cfg))) s₀ es s)
    (hstep : step cfg s e = some s') (hattempts : Attempts requestId hostId s s') :
    ∃ info, s.core.registry.lookup hostId = some info ∧ info.Free := by
  obtain ⟨hinv, hbook⟩ := capturesCurrent_run hstart hrun
  obtain ⟨req, hactor, ref, href, hid, hfree, -⟩ := hattempts.chosen (steps_of_step hbook hstep)
  have hcurrent := (hinv.actor hactor).2 rfl ref href hid
  exact ⟨_, HostRegistry.lookup_eq_some.mpr ⟨ref, hcurrent, rfl⟩, hfree⟩

/-- A request that acquires its slot after its discovery. -/
theorem acquires_below_limit_after_discovery :
    ∃ s s', Run (Guarded (KeepsCaptured "a" "gpu-1") (Fires (step Lab.config))) Lab.start
        [Lab.register "gpu-1" none 1, Lab.ask "a"] s ∧
      step Lab.config s (Lab.list "a") = some s' ∧ Attempts "a" "gpu-1" s s' ∧
      ∃ info, s.core.registry.lookup "gpu-1" = some info ∧ info.Free := by
  have hshows : (exec (step Lab.config) Lab.start [Lab.register "gpu-1" none 1, Lab.ask "a"]).map
      (fun s => ((s.requests.get? "a").bind (·.attempted), (step Lab.config s (Lab.list "a")).map
        fun s' => (s'.requests.get? "a").bind (·.attempted))) = some (none, some (some "gpu-1")) := by
    decide +kernel
  obtain ⟨s, hrun, hshown⟩ := run_of_shows hshows
  obtain ⟨hbefore, hafter⟩ := Prod.mk.inj hshown
  obtain ⟨s', hstep, hafter⟩ := Option.map_eq_some_iff.mp hafter
  obtain ⟨t, hfirst, hrest⟩ := hrun.of_cons
  -- the node is registered before the request is there
  have hguarded : Run (Guarded (KeepsCaptured "a" "gpu-1") (Fires (step Lab.config))) Lab.start
      ([Lab.register "gpu-1" none 1] ++ [Lab.ask "a"]) s := by
    refine .append (.single ⟨?_, hfirst⟩) (hrest.guard ?_)
    · simp [Lab.register, KeepsCaptured, State.Captures, Lab.start]
    · simp [Lab.ask, KeepsCaptured]
  have hattempts : Attempts "a" "gpu-1" s s' := ⟨hbefore, hafter⟩
  exact ⟨s, s', hguarded, hstep, hattempts,
    acquires_below_limit Lab.started hguarded hstep hattempts⟩

/-- A node is patched while a request is asking it for its models, and another request takes its
only slot. The first request still sees the old record, and acquires a second slot. -/
theorem acquires_above_limit_after_patch :
    ¬ ∀ (es : List Event) (e : Event) (s s' : State) (requestId hostId : String),
      Run (Fires (step Lab.config)) Lab.start es s → step Lab.config s e = some s' →
      Attempts requestId hostId s s' →
      ∃ info, s.core.registry.lookup hostId = some info ∧ info.Free := by
  intro hall
  have hshows : (exec (step Lab.config) Lab.start
      [Lab.register "gpu-1" none 1, Lab.ask "a", Lab.limitTo "gpu-1" 1, Lab.ask "b",
        Lab.list "b"]).map
      (fun s => ((s.requests.get? "a").bind (·.attempted),
        (step Lab.config s (Lab.list "a")).map fun s' => (s'.requests.get? "a").bind (·.attempted),
        (s.core.registry.lookup "gpu-1").map fun info => decide info.Free)) =
      some (none, some (some "gpu-1"), some false) := by decide +kernel
  obtain ⟨s, hrun, hshown⟩ := run_of_shows hshows
  simp only [Prod.mk.injEq] at hshown
  obtain ⟨hbefore, hafter, hfull⟩ := hshown
  obtain ⟨s', hstep, hafter⟩ := Option.map_eq_some_iff.mp hafter
  obtain ⟨info, hinfo, hfree⟩ := hall _ _ s s' "a" "gpu-1" hrun hstep ⟨hbefore, hafter⟩
  simp [hinfo, hfree] at hfull

end LlmHomeLab
