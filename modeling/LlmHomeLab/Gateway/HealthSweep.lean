import LlmHomeLab.Gateway.Sound
import LlmHomeLab.Observability.Readable

/-! # The health sweep

`_probe_all_hosts` of `api/app.py`: one coroutine for each host, gathered, and after them the
snapshot that the alert rules are evaluated on. A sweep runs beside the gateway; between two of its
`await`s anything else may happen, other sweeps included.
-/

namespace LlmHomeLab

/-! ## Model -/

/-- Where the coroutine of a host is in `_probe_one_host`: before `_backend_for`, in `check_health`,
or in the probe of the external load. -/
inductive ProbePc where
  | starting
  | checking
  | measuring
  | done
  | failed (e : Exn)
deriving DecidableEq, Repr

/-- The host records with their coroutines, and the hosts `record_probe` was called for. -/
structure HealthSweep where
  probes : List (Nat × ProbePc)
  recorded : List String := []

structure Swept where
  gateway : State
  sweep : Option HealthSweep

inductive SweptEvent where
  | gateway (e : Event)
  | start
  | build (i : Nat)
  | checked (i : Nat) (result : Except Exn Bool) (now : Int)
  | measured (i : Nat) (result : Except Exn Unit)
  | finish

/-- Why a sweep raises. -/
inductive SweepError where
  | probe (e : Exn)
  | snapshot (e : NumError)

namespace HealthSweep

def go (sw : HealthSweep) (i ref : Nat) (pc : ProbePc) : HealthSweep :=
  { sw with probes := sw.probes.set i (ref, pc) }

/-- What `gather` raises, if one of the coroutines has raised. -/
def raised (sw : HealthSweep) : Option Exn :=
  sw.probes.findSome? fun probe =>
    match probe.2 with
    | .failed e => some e
    | _ => none

def allDone (sw : HealthSweep) : Bool := sw.probes.all fun probe => probe.2 = .done

/-- The snapshot `evaluate` is called with, or what the sweep raises before; none as long as
`gather` waits. -/
def result {V : Type} [PyFloat V] (sw : HealthSweep) (metrics : MetricsRegistry V) (now : Int)
    (core : Core) : Option (Except SweepError (SliSnapshot V)) :=
  match sw.raised with
  | some e => some (.error (.probe e))
  | none =>
    if sw.allDone then
      some (match metrics.snapshot now core.registry core.queue with
        | .ok (_, snapshot) => .ok snapshot
        | .error e => .error (.snapshot e))
    else none

end HealthSweep

namespace Swept

variable (cfg : Config)

/-- The coroutine with this number, if it is there. -/
def probe? (s : Swept) (i : Nat) (pc : ProbePc) : Option (HealthSweep × Nat) := do
  let sw ← s.sweep
  let probe ← sw.probes[i]?
  if probe.2 = pc then some (sw, probe.1) else none

def step (s : Swept) : SweptEvent → Option Swept
  | .gateway e => (LlmHomeLab.step cfg s.gateway e).map fun gateway => { s with gateway }
  | .start =>
    match s.sweep with
    | some _ => none
    | none =>
      (LlmHomeLab.step cfg s.gateway (.admin .prune)).map fun gateway =>
        ⟨gateway, some { probes := gateway.core.registry.hostRefs.map (·, .starting) }⟩
  | .build i => do
    let (sw, ref) ← s.probe? i .starting
    let host := s.gateway.core.registry.heap ref
    let pc :=
      match (backendFor cfg host.hostId host.capabilities s.gateway.core.scratch).1 with
      | .ok _ => .checking
      | .error e => .failed e
    let gateway ← LlmHomeLab.step cfg s.gateway (.admin (.backendFor ref))
    return ⟨gateway, some (sw.go i ref pc)⟩
  | .checked i result now => do
    let (sw, ref) ← s.probe? i .checking
    match result with
    | .error e => return { s with sweep := some (sw.go i ref (.failed e)) }
    | .ok healthy =>
      let hostId := (s.gateway.core.registry.heap ref).hostId
      let gateway ← LlmHomeLab.step cfg s.gateway (.admin (.recordProbe hostId healthy now))
      return ⟨gateway, some { sw.go i ref .measuring with recorded := sw.recorded ++ [hostId] }⟩
  | .measured i result => do
    let (sw, ref) ← s.probe? i .measuring
    let pc :=
      match result with
      | .ok () => .done
      | .error e => .failed e
    return { s with sweep := some (sw.go i ref pc) }
  | .finish => do
    let sw ← s.sweep
    if sw.raised.isSome || sw.allDone then some { s with sweep := none } else none

/-! ## Statement -/

/-- What is stored is sound, and neither `check_health` nor the probe of the load raises. -/
def StoresSound (s : Swept) : SweptEvent → Prop
  | .gateway e => LlmHomeLab.StoresSound cfg s.gateway e
  | .checked _ (.error _) _ | .measured _ (.error _) => False
  | _ => True

/-- No coroutine has raised; those whose host was checked have recorded it; and where all have come
to their end, the rules are evaluated, unless the metrics could not be read without any host or
there are more requests than a float can count. -/
structure SweepGoesOn (V : Type) [PyFloat V] (s : Swept) (sw : HealthSweep) : Prop where
  unfailed : sw.raised = none
  recorded : ∀ ref pc, (ref, pc) ∈ sw.probes → pc = .measuring ∨ pc = .done →
    (s.gateway.core.registry.heap ref).hostId ∈ sw.recorded
  evaluates : sw.allDone = true → ∀ (metrics : MetricsRegistry V) (now : Int),
    (∃ r, metrics.snapshot now .empty s.gateway.core.queue = .ok r) →
    s.gateway.requests.entries.length < PyFloat.overflow →
    ∃ snapshot, sw.result metrics now s.gateway.core = some (.ok snapshot)

/-! ## Steps -/

variable {cfg : Config} {s s' s₀ : Swept} {f : SweptEvent} {es : List SweptEvent}
  {reg reg' : HostRegistry} {sw : HealthSweep} {i ref : Nat} {pc : ProbePc}

theorem probe?_eq_some (h : s.probe? i pc = some (sw, ref)) :
    s.sweep = some sw ∧ (ref, pc) ∈ sw.probes := by
  obtain ⟨own, hsweep, h⟩ := Option.bind_eq_some_iff.mp h
  obtain ⟨⟨r, p⟩, hprobe, h⟩ := Option.bind_eq_some_iff.mp h
  split at h
  · next hpc =>
    cases h
    rw [← hpc]
    exact ⟨hsweep, List.mem_of_getElem? hprobe⟩
  · cases h

/-- What a step does to the gateway, and to the sweep in progress. -/
inductive Steps (cfg : Config) (s : Swept) : SweptEvent → Swept → Prop
  | gateway {e : Event} {gateway : State} (h : LlmHomeLab.step cfg s.gateway e = some gateway) :
      Steps cfg s (.gateway e) { s with gateway }
  | start {gateway : State} (none : s.sweep = none)
      (h : LlmHomeLab.step cfg s.gateway (.admin .prune) = some gateway) :
      Steps cfg s .start
        ⟨gateway, some { probes := gateway.core.registry.hostRefs.map (·, .starting) }⟩
  | build {i ref : Nat} {sw : HealthSweep} {backend : Backend} {gateway : State}
      (probe : s.probe? i .starting = some (sw, ref))
      (built : (backendFor cfg (s.gateway.core.registry.heap ref).hostId
        (s.gateway.core.registry.heap ref).capabilities s.gateway.core.scratch).1 = .ok backend)
      (h : LlmHomeLab.step cfg s.gateway (.admin (.backendFor ref)) = some gateway) :
      Steps cfg s (.build i) ⟨gateway, some (sw.go i ref .checking)⟩
  | buildRaises {i ref : Nat} {sw : HealthSweep} {e : Exn} {gateway : State}
      (probe : s.probe? i .starting = some (sw, ref))
      (raised : (backendFor cfg (s.gateway.core.registry.heap ref).hostId
        (s.gateway.core.registry.heap ref).capabilities s.gateway.core.scratch).1 = .error e)
      (h : LlmHomeLab.step cfg s.gateway (.admin (.backendFor ref)) = some gateway) :
      Steps cfg s (.build i) ⟨gateway, some (sw.go i ref (.failed e))⟩
  | checked {i ref : Nat} {sw : HealthSweep} {healthy : Bool} {now : Int} {gateway : State}
      (probe : s.probe? i .checking = some (sw, ref))
      (h : LlmHomeLab.step cfg s.gateway (.admin (.recordProbe
        (s.gateway.core.registry.heap ref).hostId healthy now)) = some gateway) :
      Steps cfg s (.checked i (.ok healthy) now)
        ⟨gateway, some { sw.go i ref .measuring with
          recorded := sw.recorded ++ [(s.gateway.core.registry.heap ref).hostId] }⟩
  | measured {i ref : Nat} {sw : HealthSweep} (probe : s.probe? i .measuring = some (sw, ref)) :
      Steps cfg s (.measured i (.ok ())) { s with sweep := some (sw.go i ref .done) }
  | raises {f : SweptEvent} {sweep : Option HealthSweep} (h : ¬ s.StoresSound cfg f) :
      Steps cfg s f { s with sweep }
  | finish : Steps cfg s .finish { s with sweep := none }

theorem steps_of_step (h : s.step cfg f = some s') : Steps cfg s f s' := by
  cases f with
  | gateway e =>
    obtain ⟨gateway, hgateway, rfl⟩ := Option.map_eq_some_iff.mp h
    exact .gateway hgateway
  | start =>
    simp only [step] at h
    split at h
    · cases h
    · next hnone =>
      obtain ⟨gateway, hgateway, rfl⟩ := Option.map_eq_some_iff.mp h
      exact .start hnone hgateway
  | build i =>
    obtain ⟨⟨sw, ref⟩, hprobe, h⟩ := Option.bind_eq_some_iff.mp h
    obtain ⟨gateway, hgateway, h⟩ := Option.bind_eq_some_iff.mp h
    cases h
    split
    · next hbuilt => exact .build hprobe hbuilt hgateway
    · next hraised => exact .buildRaises hprobe hraised hgateway
  | checked i result now =>
    obtain ⟨⟨sw, ref⟩, hprobe, h⟩ := Option.bind_eq_some_iff.mp h
    cases result with
    | error e =>
      cases h
      exact .raises id
    | ok healthy =>
      obtain ⟨gateway, hgateway, h⟩ := Option.bind_eq_some_iff.mp h
      cases h
      exact .checked hprobe hgateway
  | measured i result =>
    obtain ⟨⟨sw, ref⟩, hprobe, h⟩ := Option.bind_eq_some_iff.mp h
    cases h
    cases result with
    | error e => exact .raises id
    | ok => exact .measured hprobe
  | finish =>
    obtain ⟨sw, hsweep, h⟩ := Option.bind_eq_some_iff.mp h
    split at h
    · cases h
      exact .finish
    · cases h

/-- The gateway beside a sweep runs as the gateway does. -/
theorem gateway_run (hrun : Run (Guarded (StoresSound cfg) (Fires (step cfg))) s₀ es s) :
    ∃ es', Run (Guarded (LlmHomeLab.StoresSound cfg) (Fires (LlmHomeLab.step cfg))) s₀.gateway es'
      s.gateway := by
  induction hrun with
  | nil => exact ⟨[], .nil⟩
  | snoc _ hstep ih =>
    obtain ⟨hstores, hfires⟩ := hstep
    obtain ⟨es', hrun⟩ := ih
    cases steps_of_step hfires with
    | gateway h => exact ⟨_, .snoc hrun ⟨hstores, h⟩⟩
    | start _ h => exact ⟨_, .snoc hrun ⟨by trivial, h⟩⟩
    | build _ _ h => exact ⟨_, .snoc hrun ⟨by trivial, h⟩⟩
    | buildRaises _ _ h => exact ⟨_, .snoc hrun ⟨by trivial, h⟩⟩
    | checked _ h => exact ⟨_, .snoc hrun ⟨by trivial, h⟩⟩
    | measured => exact ⟨es', hrun⟩
    | raises => exact ⟨es', hrun⟩
    | finish => exact ⟨es', hrun⟩

/-! ## The coroutines -/

/-- The records are there, no coroutine has raised, and those past `check_health` have recorded what
it said. -/
structure Tracked (reg : HostRegistry) (sw : HealthSweep) : Prop where
  exist : ∀ ref pc, (ref, pc) ∈ sw.probes → ref < reg.next
  unfailed : ∀ ref pc, (ref, pc) ∈ sw.probes → ∀ e, pc ≠ .failed e
  recorded : ∀ ref pc, (ref, pc) ∈ sw.probes → pc = .measuring ∨ pc = .done →
    (reg.heap ref).hostId ∈ sw.recorded

theorem Tracked.keeps (h : Tracked reg sw) (hobjects : KeepsObjects reg reg') :
    Tracked reg' sw := by
  refine ⟨fun ref pc hmem => ?_, h.unfailed, fun ref pc hmem hpc => ?_⟩
  · exact lt_of_lt_of_le (h.exist ref pc hmem) hobjects.next
  · rw [(hobjects.settings (h.exist ref pc hmem)).hostId]
    exact h.recorded ref pc hmem hpc

/-- One coroutine goes on. -/
theorem Tracked.go (h : Tracked reg sw) (hexists : ref < reg.next) {recorded : List String}
    (hkept : ∀ id ∈ sw.recorded, id ∈ recorded) (hunfailed : ∀ e, pc ≠ .failed e)
    (hrecorded : pc = .measuring ∨ pc = .done → (reg.heap ref).hostId ∈ recorded) :
    Tracked reg { sw.go i ref pc with recorded } := by
  have hcases : ∀ r p, (r, p) ∈ (sw.go i ref pc).probes →
      (r, p) ∈ sw.probes ∨ r = ref ∧ p = pc := by
    intro r p hmem
    rcases List.mem_or_eq_of_mem_set hmem with hold | hnew
    · exact Or.inl hold
    · cases hnew
      exact Or.inr ⟨rfl, rfl⟩
  refine ⟨fun r p hmem => ?_, fun r p hmem => ?_, fun r p hmem hpast => ?_⟩
  · rcases hcases r p hmem with hold | ⟨rfl, rfl⟩
    · exact h.exist r p hold
    · exact hexists
  · rcases hcases r p hmem with hold | ⟨rfl, rfl⟩
    · exact h.unfailed r p hold
    · exact hunfailed
  · rcases hcases r p hmem with hold | ⟨rfl, rfl⟩
    · exact hkept _ (h.recorded r p hold hpast)
    · exact hrecorded hpast

/-- A step of the gateway goes on with the records there are. -/
theorem step_keepsObjects {s s' : State} {e : Event} (hbook : s.core.scratch.book.Consistent)
    (h : LlmHomeLab.step cfg s e = some s') : KeepsObjects s.core.registry s'.core.registry := by
  cases LlmHomeLab.steps_of_step hbook h with
  | admin hcore =>
    simp only [(admin_queue hcore).2]
    exact keepsObjects_registryAfter _ _
  | own actor moves => exact moves.slot.keepsObjects.1

theorem tracked_step (hstores : s.StoresSound cfg f) (hgateway : SoundState cfg s.gateway)
    (hsteps : Steps cfg s f s') (h : ∀ sw, s.sweep = some sw → Tracked s.gateway.core.registry sw) :
    ∀ sw, s'.sweep = some sw → Tracked s'.gateway.core.registry sw := by
  have hkeeps : ∀ {e gateway sw}, LlmHomeLab.step cfg s.gateway e = some gateway →
      s.sweep = some sw → Tracked gateway.core.registry sw := fun hstep hsweep =>
    (h _ hsweep).keeps (step_keepsObjects hgateway.core.book hstep)
  intro own hown
  cases hsteps with
  | gateway hstep => exact hkeeps hstep hown
  | start hnone hstep =>
    cases hown
    refine ⟨fun ref pc hmem => ?_, fun ref pc hmem e => ?_, fun ref pc hmem hpc => ?_⟩
    · obtain ⟨r, hr, heq⟩ := List.mem_map.mp hmem
      cases heq
      exact HostRegistry.hostRefs_lt hr
    · obtain ⟨r, hr, heq⟩ := List.mem_map.mp hmem
      cases heq
      exact ProbePc.noConfusion
    · obtain ⟨r, hr, heq⟩ := List.mem_map.mp hmem
      cases heq
      rcases hpc with hpc | hpc <;> cases hpc
  | build hprobe hbuilt hstep =>
    cases hown
    obtain ⟨hsweep, hmem⟩ := probe?_eq_some hprobe
    have htracked := hkeeps hstep hsweep
    refine htracked.go (htracked.exist _ _ hmem) (fun _ => id) (fun e => ProbePc.noConfusion) ?_
    rintro (hpc | hpc) <;> cases hpc
  | @buildRaises i ref sw e gateway hprobe hraised hstep =>
    -- the backend of a sound record can be built
    obtain ⟨hsweep, hmem⟩ := probe?_eq_some hprobe
    have hsound := hgateway.core.registry.sound ref ((h sw hsweep).exist _ _ hmem)
    obtain ⟨backend, st, hb⟩ := backendFor_of_factory (s.gateway.core.registry.heap ref).hostId
      hsound.builds s.gateway.core.scratch
    rw [hb] at hraised
    cases hraised
  | @checked i ref sw healthy now gateway hprobe hstep =>
    cases hown
    obtain ⟨hsweep, hmem⟩ := probe?_eq_some hprobe
    have hobjects := step_keepsObjects hgateway.core.book hstep
    have hold := (h sw hsweep).exist _ _ hmem
    have htracked := hkeeps hstep hsweep
    refine htracked.go (htracked.exist _ _ hmem) (fun id hid => List.mem_append_left _ hid)
      (fun e => ProbePc.noConfusion) fun _ => ?_
    rw [(hobjects.settings hold).hostId]
    exact List.mem_append_right _ (List.mem_singleton_self _)
  | measured hprobe =>
    cases hown
    obtain ⟨hsweep, hmem⟩ := probe?_eq_some hprobe
    have htracked := h _ hsweep
    refine htracked.go (htracked.exist _ _ hmem) (fun _ => id) (fun e => ProbePc.noConfusion) ?_
    exact fun _ => htracked.recorded _ _ hmem (Or.inl rfl)
  | raises hnot => exact absurd hstores hnot
  | finish => cases hown

/-! ## The evaluation -/

theorem raised_eq_none (h : ∀ ref pc, (ref, pc) ∈ sw.probes → ∀ e, pc ≠ .failed e) :
    sw.raised = none := by
  unfold HealthSweep.raised
  rw [List.findSome?_eq_none_iff]
  rintro ⟨ref, pc⟩ hmem
  cases pc with
  | failed e => exact absurd rfl (h ref _ hmem e)
  | _ => rfl

/-- Limits that can be divided by are all that the hosts add to a snapshot. -/
theorem snapshot_of_hosts {V : Type} [PyFloat V] (hV : PyFloat.Divides V)
    (metrics : MetricsRegistry V) (now : Int) {ε : Type} (queue : SchedulingQueue ε)
    (halone : ∃ r, metrics.snapshot now .empty queue = .ok r)
    (hdivisible : ∀ hostId info, reg.lookup hostId = some info → info.Divisible) :
    ∃ r, metrics.snapshot now reg queue = .ok r := by
  obtain ⟨availability, p95LatencyMs, failoverSuccessRate, -, -, hsummarized⟩ :=
    MetricsRegistry.summarized hV (metrics.evicted now)
  have heq := fun reg : HostRegistry =>
    MetricsRegistry.snapshot_of_summarized hsummarized reg queue
  have hsaturation : ∃ d : Dict String V,
      MetricsRegistry.hostSaturation (reg.hostRefs.map reg.heap) .empty = .ok d := by
    rw [MetricsRegistry.hostSaturation_ok_iff]
    intro info hinfo
    obtain ⟨ref, href, rfl⟩ := List.mem_map.mp hinfo
    have hlookup := HostRegistry.lookup_eq_some.mpr ⟨ref, HostRegistry.mem_hostRefs href, rfl⟩
    obtain ⟨limit, hlimit, hzero, hbound⟩ := hdivisible _ _ hlookup
    exact ⟨limit, hlimit, (hV.intDiv_ok_iff _ _).mpr ⟨hzero, hbound⟩⟩
  obtain ⟨saturation, hsaturation⟩ := hsaturation
  obtain ⟨r, hr⟩ := halone
  rw [heq] at hr ⊢
  obtain ⟨_, _, hr⟩ := Json.except_bind_ok hr
  obtain ⟨stats, hstats, hr⟩ := Json.except_bind_ok hr
  rw [hsaturation, hstats]
  exact ⟨_, rfl⟩

/-- As many slots are taken of a host as there are requests, at most. -/
theorem slotHolders_le (s : State) (hostId : String) :
    s.slotHolders hostId ≤ s.requests.entries.length :=
  List.countP_le_length

theorem divisible_of_sound {s : State} (hsound : SoundState cfg s) (hslots : SlotInv s)
    (hfew : s.requests.entries.length < PyFloat.overflow) {hostId : String} {info : HostInfo}
    (hinfo : s.core.registry.lookup hostId = some info) : info.Divisible := by
  obtain ⟨ref, href, rfl⟩ := HostRegistry.lookup_eq_some.mp hinfo
  obtain ⟨limit, hlimit, hzero⟩ :=
    (hsound.core.registry.sound ref (s.core.registry.refs_lt href)).limit
  refine ⟨limit, hlimit, hzero, ?_⟩
  have hcounts := hslots.counts hostId
  simp only [HostRegistry.inFlight, hinfo, Option.map_some, Option.getD_some] at hcounts
  have hone : 1 ≤ limit.natAbs := Int.natAbs_pos.mpr hzero
  rw [hcounts, Int.natAbs_natCast]
  calc s.slotHolders hostId ≤ s.requests.entries.length := slotHolders_le s hostId
    _ < PyFloat.overflow := hfew
    _ ≤ PyFloat.overflow * limit.natAbs := Nat.le_mul_of_pos_right _ hone

/-- A sweep goes on to the evaluation of the rules. -/
theorem sweepGoesOn_run {V : Type} [PyFloat V] (hV : PyFloat.Divides V)
    (hstart : SoundStart cfg s₀.gateway) (hidle : s₀.sweep = none)
    (hrun : Run (Guarded (StoresSound cfg) (Fires (step cfg))) s₀ es s) :
    ∀ sw, s.sweep = some sw → SweepGoesOn V s sw := by
  have htracked : ∀ sw, s.sweep = some sw → Tracked s.gateway.core.registry sw := by
    induction hrun with
    | nil =>
      intro sw hsw
      rw [hidle] at hsw
      cases hsw
    | snoc hrun hstep ih =>
      obtain ⟨es', hgateway⟩ := gateway_run hrun
      exact tracked_step hstep.1 (soundState_run hstart hgateway) (steps_of_step hstep.2) ih
  intro sw hsw
  obtain ⟨es', hgateway⟩ := gateway_run hrun
  have hsound := soundState_run hstart hgateway
  have hslots := slotInv_run hstart.toStarted
    (hgateway.mono fun _ _ _ h => ⟨keepsHeldHosts_of_storesSound h.1, h.2⟩)
  have hraised := raised_eq_none (htracked sw hsw).unfailed
  refine ⟨hraised, (htracked sw hsw).recorded, fun hdone metrics now halone hfew => ?_⟩
  obtain ⟨⟨metrics', snapshot⟩, hsnapshot⟩ := snapshot_of_hosts hV metrics now
    s.gateway.core.queue halone fun hostId info => divisible_of_sound hsound hslots hfew
  refine ⟨snapshot, ?_⟩
  unfold HealthSweep.result
  simp only [hraised, hdone, if_true, hsnapshot]

end Swept

end LlmHomeLab
