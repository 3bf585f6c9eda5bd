import LlmHomeLab.Registry.Persistence

/-! # Writes that fail

`register`, `heartbeat` and `deregister` of `registry/registry.py` change the record in memory and
then the row in the table. Where the second raises, the first stays done. The registry is then as
it was before only if the call said what it had already.
-/

namespace LlmHomeLab

/-! ## The calls -/

/-- The calls of a registry that write to its table. -/
inductive RegistryWrite where
  | register (hostId : String) (capabilities : HostCapabilities) (capacity : HostCapacity)
      (now : Int)
  | heartbeat (hostId : String) (now : Int)
  | deregister (hostId : String)

/-- `HostNotRegisteredError`, or what the store raises. -/
inductive RegistryError where
  | hostNotRegistered (hostId : String)
  | store
deriving DecidableEq, Repr

namespace StoredRegistry

/-- The store operation at the end of a call; where it raises the table stays as it is. -/
def write (s : StoredRegistry) (works : Bool) (change : List HostRow → List HostRow) :
    Except RegistryError Unit × StoredRegistry :=
  if works then (.ok (), { s with rows := change s.rows }) else (.error .store, s)

/-- A call, of which the store operation works or raises. -/
def perform (nextRowid : List HostRow → ℕ) (works : Bool) (s : StoredRegistry) :
    RegistryWrite → Except RegistryError Unit × StoredRegistry
  | .register hostId capabilities capacity now =>
    write { s with registry := s.registry.register hostId capabilities capacity now } works
      (upsert nextRowid hostId capabilities capacity now)
  | .heartbeat hostId now =>
    match s.registry.heartbeat hostId now with
    | none => (.error (.hostNotRegistered hostId), s)
    | some registry => write { s with registry } works (updateLastSeen hostId now)
  | .deregister hostId =>
    write { s with registry := s.registry.deregister hostId } works (deleteRow hostId)

end StoredRegistry

/-- What happens to a registry: writes that work or fail, slots taken and given back, and opening
the database again. -/
inductive StoredEvent where
  | write (call : RegistryWrite) (works : Bool)
  | acquireSlot (hostId : String)
  | releaseSlot (hostId : String)
  | reopen

def StoredRegistry.happen (nextRowid : List HostRow → ℕ) (s : StoredRegistry) :
    StoredEvent → StoredRegistry
  | .write call works => (s.perform nextRowid works call).2
  | .acquireSlot hostId => s.step nextRowid (.acquireSlot hostId)
  | .releaseSlot hostId => s.step nextRowid (.releaseSlot hostId)
  | .reopen => s.step nextRowid .reopen

/-- A registry on a new database, after these events. -/
def StoredRegistry.after (nextRowid : List HostRow → ℕ) (events : List StoredEvent) :
    StoredRegistry :=
  events.foldl (StoredRegistry.happen nextRowid) ⟨.empty, []⟩

/-! ## Statement -/

/-- The call, of which the store operation raises, raises and leaves everything as it is: the hosts
in memory with their order and records, the table, and that the two say the same. -/
structure StoredRegistry.FailsCleanly (nextRowid : List HostRow → ℕ) (s : StoredRegistry)
    (call : RegistryWrite) : Prop where
  raises : ∃ e, (s.perform nextRowid false call).1 = .error e
  memory : (s.perform nextRowid false call).2.registry.view = s.registry.view
  database : (s.perform nextRowid false call).2.rows = s.rows
  agree : Mirrors s.registry s.rows →
    Mirrors (s.perform nextRowid false call).2.registry (s.perform nextRowid false call).2.rows

/-- The call says what the registry has already. -/
def HostRegistry.Redundant (reg : HostRegistry) : RegistryWrite → Prop
  | .register hostId capabilities capacity now => ∃ info, reg.lookup hostId = some info ∧
      info.capabilities = capabilities ∧ info.capacity = capacity ∧ info.lastSeen = now
  | .heartbeat hostId now => ∀ info, reg.lookup hostId = some info → info.lastSeen = now
  | .deregister hostId => reg.lookup hostId = none

/-! ## What a call leaves in memory -/

namespace HostRegistry

variable {reg reg' : HostRegistry} {id : String} {info : HostInfo}

/-- The registry in memory after a call, whatever the store does. -/
def afterWrite (reg : HostRegistry) : RegistryWrite → HostRegistry
  | .register hostId capabilities capacity now => reg.register hostId capabilities capacity now
  | .heartbeat hostId now => (reg.heartbeat hostId now).getD reg
  | .deregister hostId => reg.deregister hostId

theorem lookup_iff_view : reg.lookup id = some info ↔ (id, info) ∈ reg.view := by
  rw [lookup_eq_some, view, List.mem_map]
  constructor
  · rintro ⟨ref, href, rfl⟩
    exact ⟨(id, ref), (Dict.get?_eq_some _).mp href, rfl⟩
  · rintro ⟨⟨id', ref⟩, hmem, heq⟩
    cases heq
    exact ⟨ref, (Dict.get?_eq_some _).mpr hmem, rfl⟩

theorem lookup_hostId (h : reg.lookup id = some info) : info.hostId = id :=
  view_hostId (lookup_iff_view.mp h)

/-- Where two registries have the same hosts, apart from the slots, so do their records. -/
theorem lookup_of_idle
    (h : reg'.view.map (fun kv => (kv.1, kv.2.idle)) = reg.view.map fun kv => (kv.1, kv.2.idle))
    (hinfo : reg'.lookup id = some info) :
    ∃ old, reg.lookup id = some old ∧ old.idle = info.idle := by
  have hmem : (id, info.idle) ∈ reg'.view.map fun kv => (kv.1, kv.2.idle) :=
    List.mem_map_of_mem (f := fun kv : String × HostInfo => (kv.1, kv.2.idle))
      (lookup_iff_view.mp hinfo)
  rw [h] at hmem
  obtain ⟨⟨id', old⟩, hold, heq⟩ := List.mem_map.mp hmem
  obtain ⟨rfl, hidle⟩ := Prod.mk.injEq .. ▸ heq
  exact ⟨old, lookup_iff_view.mpr hold, hidle⟩

theorem lookup_heartbeat_self {now : Int} (h : reg.heartbeat id now = some reg')
    (hinfo : reg.lookup id = some info) : reg'.lookup id = some (info.seen now) := by
  obtain ⟨ref, href, rfl⟩ := Option.map_eq_some_iff.mp h
  obtain ⟨ref', href', rfl⟩ := lookup_eq_some.mp hinfo
  rw [href] at href'
  cases href'
  exact lookup_eq_some.mpr ⟨ref, href, by simp [update]⟩

/-- A call that changes none of the records has said what was there. -/
theorem redundant_of_idle {call : RegistryWrite}
    (h : (reg.afterWrite call).view.map (fun kv => (kv.1, kv.2.idle)) =
      reg.view.map fun kv => (kv.1, kv.2.idle)) : reg.Redundant call := by
  cases call with
  | register hostId capabilities capacity now =>
    have hnew : (reg.register hostId capabilities capacity now).lookup hostId = _ :=
      lookup_register capabilities capacity now
    rw [if_pos rfl] at hnew
    obtain ⟨old, hold, hidle⟩ := lookup_of_idle h hnew
    simp only [HostInfo.idle, HostInfo.mk.injEq] at hidle
    exact ⟨old, hold, hidle.2.1, hidle.2.2.1, hidle.2.2.2.2⟩
  | heartbeat hostId now =>
    intro info hinfo
    cases hbeat : reg.heartbeat hostId now with
    | none =>
      obtain ⟨ref, href, -⟩ := lookup_eq_some.mp hinfo
      simp [heartbeat, href] at hbeat
    | some reg' =>
      simp only [afterWrite, hbeat, Option.getD_some] at h
      obtain ⟨old, hold, hidle⟩ := lookup_of_idle h (lookup_heartbeat_self hbeat hinfo)
      rw [hinfo] at hold
      cases hold
      simpa [HostInfo.idle, HostInfo.seen] using hidle
  | deregister hostId =>
    cases hinfo : reg.lookup hostId with
    | none => exact hinfo
    | some info =>
      obtain ⟨old, hold, -⟩ := lookup_of_idle h.symm hinfo
      have hgone : (reg.deregister hostId).lookup hostId = _ := lookup_deregister
      rw [if_pos rfl] at hgone
      rw [afterWrite, hgone] at hold
      cases hold

theorem seen_self {now : Int} (h : info.lastSeen = now) : info.seen now = info := by
  subst h
  rfl

/-- A call that says what was there changes nothing. -/
theorem view_of_redundant {call : RegistryWrite} (h : reg.Redundant call) :
    (reg.afterWrite call).view = reg.view := by
  cases call with
  | register hostId capabilities capacity now =>
    obtain ⟨info, hinfo, rfl, rfl, rfl⟩ := h
    have hmem := lookup_iff_view.mp hinfo
    have hin : hostId ∈ reg.view.map Prod.fst := List.mem_map_of_mem (f := Prod.fst) hmem
    have hslots : reg.inFlight hostId = some info.inFlight := by rw [inFlight, hinfo]; rfl
    have hnew : (⟨hostId, info.capabilities, info.capacity, (reg.inFlight hostId).getD 0,
        info.lastSeen⟩ : HostInfo) = info := by
      rw [hslots, ← lookup_hostId hinfo]
      rfl
    rw [afterWrite, register_eq_put, view_put, hnew, lookup_hostId hinfo,
      Dict.insertList_of_mem _ reg.nodup_view hin]
    refine (List.map_congr_left fun kv hkv => ?_).trans (List.map_id _)
    split
    · next hid =>
      have hsame := lookup_iff_view.mpr (show (kv.1, kv.2) ∈ reg.view from hkv)
      rw [hid, hinfo] at hsame
      cases hsame
      rw [← hid]
      rfl
    · rfl
  | heartbeat hostId now =>
    cases hbeat : reg.heartbeat hostId now with
    | none => simp [afterWrite, hbeat]
    | some reg' =>
      obtain ⟨ref, href, rfl⟩ := Option.map_eq_some_iff.mp hbeat
      simp only [afterWrite, hbeat, Option.getD_some]
      rw [view_update href]
      refine (List.map_congr_left fun kv hkv => ?_).trans (List.map_id _)
      split
      · next hid =>
        have hsame := lookup_iff_view.mpr (show (kv.1, kv.2) ∈ reg.view from hkv)
        rw [hid] at hsame
        rw [seen_self (h kv.2 hsame)]
        rfl
      · rfl
  | deregister hostId =>
    rw [afterWrite, view_deregister, List.filter_eq_self]
    intro kv hkv
    have hsame := lookup_iff_view.mpr (show (kv.1, kv.2) ∈ reg.view from hkv)
    rw [Bool.not_eq_true', decide_eq_false_iff_not]
    intro hid
    rw [hid, show reg.lookup hostId = none from h] at hsame
    cases hsame

end HostRegistry

/-! ## A call and its store operation -/

namespace StoredRegistry

variable {nextRowid : List HostRow → ℕ} {s : StoredRegistry} {call : RegistryWrite}

theorem perform_failing (nextRowid : List HostRow → ℕ) (s : StoredRegistry) (call : RegistryWrite) :
    ∃ e, s.perform nextRowid false call = (.error e, ⟨s.registry.afterWrite call, s.rows⟩) := by
  cases call with
  | register hostId capabilities capacity now => exact ⟨.store, rfl⟩
  | deregister hostId => exact ⟨.store, rfl⟩
  | heartbeat hostId now =>
    cases hbeat : s.registry.heartbeat hostId now with
    | none =>
      -- it raises before it comes to the store
      exact ⟨.hostNotRegistered hostId, by simp [perform, HostRegistry.afterWrite, hbeat]⟩
    | some registry =>
      exact ⟨.store, by simp [perform, HostRegistry.afterWrite, hbeat, write]⟩

/-- A call whose write works keeps memory and table in step. -/
theorem mirrors_perform (hnext : ∀ rows, ∀ row ∈ rows, row.rowid < nextRowid rows)
    (h : Mirrors s.registry s.rows) (call : RegistryWrite) :
    Mirrors (s.perform nextRowid true call).2.registry (s.perform nextRowid true call).2.rows := by
  cases call with
  | register hostId capabilities capacity now => exact h.register hnext capabilities capacity now
  | deregister hostId => exact h.deregister
  | heartbeat hostId now =>
    cases hbeat : s.registry.heartbeat hostId now with
    | none => simpa [perform, hbeat] using h
    | some registry => simpa [perform, hbeat, write] using h.heartbeat hbeat

/-- A registry with the same hosts is mirrored by the same table. -/
theorem mirrors_congr {reg reg' : HostRegistry} {rows : List HostRow}
    (hview : reg'.view = reg.view) (h : Mirrors reg rows) : Mirrors reg' rows :=
  ⟨h.rowids, by rw [hview]; exact h.content⟩

/-- Two registries mirrored by one table have the same hosts, apart from the slots. -/
theorem idle_of_mirrors {reg reg' : HostRegistry} {rows : List HostRow} (h : Mirrors reg rows)
    (h' : Mirrors reg' rows) :
    reg'.view.map (fun kv => (kv.1, kv.2.idle)) = reg.view.map fun kv => (kv.1, kv.2.idle) := by
  have hsome : Function.Injective fun kv : String × HostInfo => (kv.1, some kv.2) := by
    rintro ⟨k, x⟩ ⟨k', x'⟩ heq
    simpa using heq
  refine List.map_injective_iff.mpr hsome ?_
  rw [List.map_map, List.map_map]
  exact h'.content.symm.trans h.content

/-- Where the two say the same, a failing call that leaves them so was redundant. -/
theorem redundant_of_mirrors (h : Mirrors s.registry s.rows)
    (h' : Mirrors (s.perform nextRowid false call).2.registry
      (s.perform nextRowid false call).2.rows) : s.registry.Redundant call := by
  obtain ⟨e, hperform⟩ := perform_failing nextRowid s call
  rw [hperform] at h'
  exact HostRegistry.redundant_of_idle (idle_of_mirrors h h')

theorem failsCleanly_iff : s.FailsCleanly nextRowid call ↔ s.registry.Redundant call := by
  obtain ⟨e, hperform⟩ := perform_failing nextRowid s call
  constructor
  · intro h
    have hmemory := h.memory
    rw [hperform] at hmemory
    exact HostRegistry.redundant_of_idle (by rw [hmemory])
  · intro h
    have hview := HostRegistry.view_of_redundant h
    refine ⟨⟨e, by rw [hperform]⟩, ?_, ?_, ?_⟩
    all_goals rw [hperform]
    · exact hview
    · exact mirrors_congr hview

/-! ## Runs -/

/-- What happens keeps memory and table in step, unless it is a call that fails and is not
redundant. -/
theorem mirrors_happen_iff (hnext : ∀ rows, ∀ row ∈ rows, row.rowid < nextRowid rows)
    (h : Mirrors s.registry s.rows) (event : StoredEvent) :
    Mirrors (s.happen nextRowid event).registry (s.happen nextRowid event).rows ↔
      ∀ call, event = .write call false → s.registry.Redundant call := by
  cases event with
  | acquireSlot hostId => exact iff_of_true (h.step hnext (.acquireSlot hostId)) (by simp)
  | releaseSlot hostId => exact iff_of_true (h.step hnext (.releaseSlot hostId)) (by simp)
  | reopen => exact iff_of_true (h.step hnext .reopen) (by simp)
  | write call works =>
    cases works with
    | true => exact iff_of_true (mirrors_perform hnext h call) (by simp)
    | false =>
      constructor
      · intro h' call' heq
        cases heq
        exact redundant_of_mirrors h h'
      · intro hall
        exact (failsCleanly_iff.mpr (hall call rfl)).agree h

/-- Memory and table say the same after every event. -/
def InStep (nextRowid : List HostRow → ℕ) (events : List StoredEvent) : Prop :=
  ∀ before, before <+: events →
    Mirrors (after nextRowid before).registry (after nextRowid before).rows

/-- Every call that fails has said what the registry had. -/
def FailsRedundantly (nextRowid : List HostRow → ℕ) (events : List StoredEvent) : Prop :=
  ∀ before call, before ++ [.write call false] <+: events →
    (after nextRowid before).registry.Redundant call

theorem inStep_iff (hnext : ∀ rows, ∀ row ∈ rows, row.rowid < nextRowid rows)
    (events : List StoredEvent) :
    InStep nextRowid events ↔ FailsRedundantly nextRowid events := by
  have hsnoc : ∀ before event, after nextRowid (before ++ [event]) =
      (after nextRowid before).happen nextRowid event := by
    intro before event
    rw [after, List.foldl_append]
    rfl
  constructor
  · intro h before call hprefix
    have hbefore := h before ((List.prefix_append _ _).trans hprefix)
    have hafter := h _ hprefix
    rw [hsnoc, mirrors_happen_iff hnext hbefore] at hafter
    exact hafter call rfl
  · intro h before
    -- along the run, up to this state
    induction before using List.reverseRecOn with
    | nil => exact fun _ => ⟨.nil, rfl⟩
    | append_singleton before event ih =>
      intro hprefix
      rw [hsnoc, mirrors_happen_iff hnext (ih ((List.prefix_append _ _).trans hprefix))]
      rintro call rfl
      exact h before call hprefix

/-- A call whose store operation raises leaves memory and table as they were exactly if it is
redundant; and the two say the same all along a run exactly if every call of it that fails is. -/
theorem atomic_iff (hnext : ∀ rows, ∀ row ∈ rows, row.rowid < nextRowid rows) :
    (∀ s call, FailsCleanly nextRowid s call ↔ s.registry.Redundant call) ∧
      ∀ events, InStep nextRowid events ↔ FailsRedundantly nextRowid events :=
  ⟨fun _ _ => failsCleanly_iff, inStep_iff hnext⟩

theorem atomic_iff_maxRowid :
    (∀ s call, FailsCleanly maxRowid s call ↔ s.registry.Redundant call) ∧
      ∀ events, InStep maxRowid events ↔ FailsRedundantly maxRowid events :=
  atomic_iff lt_maxRowid

/-- A host whose row could not be written is there in memory. -/
theorem unwritten_host_stays :
    ¬ FailsCleanly maxRowid ⟨.empty, []⟩
      (.register "gpu-1" ⟨some "lmstudio", some 8, some "http://a", none, none, none, none, none⟩
        ⟨some 2⟩ 0) := by
  intro h
  have hlength := congrArg List.length h.memory
  revert hlength
  decide

end StoredRegistry

end LlmHomeLab
