import LlmHomeLab.Lib.Dict
import LlmHomeLab.Lib.Json

/-! # The host registry

`registry/models.py` and `registry/registry.py`. `hosts()` hands out the `HostInfo` objects
themselves, `register` puts a new object in the place of the old one, and the slot counters are
updated in place. The model therefore keeps a heap of the objects ever created; the registry
maps ids to references into it, and a caller may go on holding a reference that the registry
has dropped.
-/

namespace LlmHomeLab

/-! ## Data -/

/-- The fields a PATCH may set to null are optional here. -/
structure HostCapabilities where
  backendType : Option String
  contextWindow : Option Int
  baseUrl : Option String
  allowedModels : Option (List String) := none
  memoryBudgetGb : Option ℚ := none
  modelSizesGb : Option (Dict String ℚ) := none
  modelAliases : Option (Dict String (List String)) := none
  position : Option Int := none
deriving Inhabited

structure HostCapacity where
  maxConcurrentRequests : Option Int
deriving DecidableEq, Inhabited

structure HostInfo where
  hostId : String
  capabilities : HostCapabilities
  capacity : HostCapacity
  inFlight : Int
  lastSeen : Int
deriving Inhabited

/-- `==` of two optional dictionaries; the order of the items does not count. -/
def sameItems {ν : Type} [DecidableEq ν] : Option (Dict String ν) → Option (Dict String ν) → Bool
  | none, none => true
  | some d, some e => d.keys.all (fun k => d.get? k = e.get? k) && e.keys.all (d.contains ·)
  | _, _ => false

/-- `==` of the dataclass. -/
def HostCapabilities.same (a b : HostCapabilities) : Bool :=
  a.backendType = b.backendType && a.contextWindow = b.contextWindow && a.baseUrl = b.baseUrl &&
    a.allowedModels = b.allowedModels && a.memoryBudgetGb = b.memoryBudgetGb &&
    sameItems a.modelSizesGb b.modelSizesGb && sameItems a.modelAliases b.modelAliases &&
    a.position = b.position

theorem sameItems_iff {ν : Type} [DecidableEq ν] {a b : Option (Dict String ν)} :
    sameItems a b = true ↔
      a.isSome = b.isSome ∧ ∀ k, a.bind (·.get? k) = b.bind (·.get? k) := by
  cases a with
  | none => cases b <;> simp [sameItems]
  | some d =>
    cases b with
    | none => simp [sameItems]
    | some e =>
      simp only [sameItems, Bool.and_eq_true, List.all_eq_true, decide_eq_true_eq,
        Option.isSome_some, Option.bind_some, true_and]
      constructor
      · rintro ⟨hde, hed⟩ k
        by_cases hd : k ∈ d.keys
        · exact hde k hd
        · -- a key of neither dictionary, since every key of `e` is one of `d`
          have hnone : d.get? k = none := by
            cases hget : d.get? k with
            | none => rfl
            | some x => exact absurd (d.mem_keys.mpr ⟨x, hget⟩) hd
          cases hget : e.get? k with
          | none => exact hnone
          | some x =>
            have hcontains := hed k (e.mem_keys.mpr ⟨x, hget⟩)
            simp [Dict.contains, hnone] at hcontains
      · intro h
        refine ⟨fun k _ => h k, fun k hk => ?_⟩
        rcases e.mem_keys.mp hk with ⟨x, hx⟩
        simp [Dict.contains, h k, hx]

/-- Two dictionaries with the same items look the same from everywhere. -/
theorem sameItems_congr {ν : Type} [DecidableEq ν] {a b : Option (Dict String ν)}
    (h : sameItems a b = true) (c : Option (Dict String ν)) : sameItems a c = sameItems b c := by
  obtain ⟨hsome, hget⟩ := sameItems_iff.mp h
  rw [Bool.eq_iff_iff, sameItems_iff, sameItems_iff, hsome]
  simp only [hget]

namespace HostCapabilities

variable {a b : HostCapabilities}

theorem same_refl (a : HostCapabilities) : a.same a = true := by
  have hsizes : sameItems a.modelSizesGb a.modelSizesGb = true :=
    sameItems_iff.mpr ⟨rfl, fun _ => rfl⟩
  have haliases : sameItems a.modelAliases a.modelAliases = true :=
    sameItems_iff.mpr ⟨rfl, fun _ => rfl⟩
  simp [same, hsizes, haliases]

/-- Equal records are equal to the same records. -/
theorem same_congr (h : a.same b = true) (c : HostCapabilities) : a.same c = b.same c := by
  simp only [same, Bool.and_eq_true, decide_eq_true_eq] at h
  obtain ⟨⟨⟨⟨⟨⟨⟨htype, hwindow⟩, hurl⟩, hallowed⟩, hbudget⟩, hsizes⟩, haliases⟩, hposition⟩ := h
  simp only [same, htype, hwindow, hurl, hallowed, hbudget, sameItems_congr hsizes,
    sameItems_congr haliases, hposition]

theorem same_baseUrl (h : a.same b = true) : a.baseUrl = b.baseUrl := by
  simp only [same, Bool.and_eq_true, decide_eq_true_eq] at h
  exact h.1.1.1.1.1.2

theorem same_contextWindow (h : a.same b = true) : a.contextWindow = b.contextWindow := by
  simp only [same, Bool.and_eq_true, decide_eq_true_eq] at h
  exact h.1.1.1.1.1.1.2

end HostCapabilities

/-- `host.in_flight < host.capacity.max_concurrent_requests`. -/
def HostInfo.belowLimit (host : HostInfo) : Except PyError Bool :=
  match host.capacity.maxConcurrentRequests with
  | some limit => .ok (host.inFlight < limit)
  | none => .error .typeError

/-- The host has a limit and is below it. -/
def HostInfo.Free (host : HostInfo) : Prop :=
  ∃ limit, host.capacity.maxConcurrentRequests = some limit ∧ host.inFlight < limit

instance (host : HostInfo) : Decidable host.Free :=
  match h : host.capacity.maxConcurrentRequests with
  | some limit =>
    if hlt : host.inFlight < limit then isTrue ⟨limit, h, hlt⟩
    else isFalse fun ⟨l, hl, hlt'⟩ => by
      rw [h] at hl
      cases hl
      exact hlt hlt'
  | none => isFalse fun ⟨l, hl, _⟩ => by
      rw [h] at hl
      cases hl

theorem HostInfo.belowLimit_eq_true {host : HostInfo} :
    host.belowLimit = .ok true ↔ host.Free := by
  unfold belowLimit Free
  cases host.capacity.maxConcurrentRequests <;> simp

def HostInfo.addInFlight (info : HostInfo) (d : Int) : HostInfo :=
  { info with inFlight := info.inFlight + d }

def HostInfo.seen (info : HostInfo) (now : Int) : HostInfo := { info with lastSeen := now }

/-- Neither the id nor the settings of an object change while it exists. -/
structure SameSettings (a b : HostInfo) : Prop where
  hostId : b.hostId = a.hostId
  capabilities : b.capabilities = a.capabilities
  capacity : b.capacity = a.capacity

theorem SameSettings.refl (a : HostInfo) : SameSettings a a := ⟨rfl, rfl, rfl⟩

theorem SameSettings.trans {a b c : HostInfo} (hab : SameSettings a b) (hbc : SameSettings b c) :
    SameSettings a c :=
  ⟨hbc.hostId.trans hab.hostId, hbc.capabilities.trans hab.capabilities,
    hbc.capacity.trans hab.capacity⟩

theorem SameSettings.addInFlight (a : HostInfo) (d : Int) : SameSettings a (a.addInFlight d) :=
  ⟨rfl, rfl, rfl⟩

theorem SameSettings.seen (a : HostInfo) (now : Int) : SameSettings a (a.seen now) :=
  ⟨rfl, rfl, rfl⟩

/-- The registry: the objects created so far, and the object registered under each id. -/
structure HostRegistry where
  heap : Nat → HostInfo
  next : Nat
  hosts : Dict String Nat
  refs_lt : ∀ {id ref}, hosts.get? id = some ref → ref < next
  hostId_eq : ∀ {id ref}, hosts.get? id = some ref → (heap ref).hostId = id

namespace HostRegistry

/-! ## Operations -/

def empty : HostRegistry where
  heap _ := default
  next := 0
  hosts := .empty
  refs_lt h := by simp at h
  hostId_eq h := by simp at h

variable (reg : HostRegistry)

/-- The current record of an id. -/
def lookup (id : String) : Option HostInfo := (reg.hosts.get? id).map reg.heap

/-- `hosts()`: the objects registered, in registration order. -/
def hostRefs : List Nat := reg.hosts.values

/-- `in_flight(host_id)`; `none` is a `KeyError`. -/
def inFlight (id : String) : Option Int := (reg.lookup id).map (·.inFlight)

def register (id : String) (capabilities : HostCapabilities) (capacity : HostCapacity)
    (now : Int) : HostRegistry where
  heap ref :=
    if ref = reg.next then ⟨id, capabilities, capacity, (reg.inFlight id).getD 0, now⟩
    else reg.heap ref
  next := reg.next + 1
  hosts := reg.hosts.set id reg.next
  refs_lt {id' ref} h := by
    rw [Dict.get?_set] at h
    split at h
    · cases h
      exact Nat.lt_succ_self _
    · exact Nat.lt_succ_of_lt (reg.refs_lt h)
  hostId_eq {id' ref} h := by
    rw [Dict.get?_set] at h
    split at h
    · next heq =>
      cases h
      simp [heq]
    · have hlt := reg.refs_lt h
      rw [if_neg (Nat.ne_of_lt hlt)]
      exact reg.hostId_eq h

/-- Change the object behind a reference in place; its settings stay. -/
def update (ref : Nat) (f : HostInfo → HostInfo) (hf : ∀ info, SameSettings info (f info)) :
    HostRegistry where
  heap ref' := if ref' = ref then f (reg.heap ref') else reg.heap ref'
  next := reg.next
  hosts := reg.hosts
  refs_lt := reg.refs_lt
  hostId_eq {id' ref'} h := by
    split
    · exact (hf _).hostId.trans (reg.hostId_eq h)
    · exact reg.hostId_eq h

/-- `self._hosts[host_id].in_flight += d`; `none` is a `KeyError`. -/
def addInFlight (id : String) (d : Int) : Option HostRegistry :=
  (reg.hosts.get? id).map fun ref =>
    reg.update ref (·.addInFlight d) fun info => .addInFlight info d

def acquireSlot (id : String) : Option HostRegistry := reg.addInFlight id 1

def releaseSlot (id : String) : Option HostRegistry := reg.addInFlight id (-1)

/-- `none` is a `HostNotRegisteredError`. -/
def heartbeat (id : String) (now : Int) : Option HostRegistry :=
  (reg.hosts.get? id).map fun ref =>
    reg.update ref (·.seen now) fun info => .seen info now

def deregister (id : String) : HostRegistry where
  heap := reg.heap
  next := reg.next
  hosts := reg.hosts.pop id
  refs_lt {id' ref} h := by
    rw [Dict.get?_pop] at h
    split at h
    · cases h
    · exact reg.refs_lt h
  hostId_eq {id' ref} h := by
    rw [Dict.get?_pop] at h
    split at h
    · cases h
    · exact reg.hostId_eq h

/-! ## The record of an id after an operation -/

variable {reg}
variable {reg' : HostRegistry} {id id' : String} {d : Int}

theorem mem_hostRefs {ref : Nat} (h : ref ∈ reg.hostRefs) :
    reg.hosts.get? (reg.heap ref).hostId = some ref := by
  obtain ⟨id, hid⟩ := (Dict.mem_values reg.hosts).mp h
  rw [reg.hostId_eq hid]
  exact hid

theorem hostRefs_lt {ref : Nat} (h : ref ∈ reg.hostRefs) : ref < reg.next :=
  reg.refs_lt (mem_hostRefs h)

theorem lookup_eq_some {info : HostInfo} :
    reg.lookup id = some info ↔ ∃ ref, reg.hosts.get? id = some ref ∧ reg.heap ref = info := by
  simp [lookup]

theorem lookup_register (capabilities : HostCapabilities) (capacity : HostCapacity) (now : Int) :
    (reg.register id capabilities capacity now).lookup id' =
      if id' = id then some ⟨id, capabilities, capacity, (reg.inFlight id).getD 0, now⟩
      else reg.lookup id' := by
  unfold lookup register
  simp only [Dict.get?_set]
  split
  · simp
  · cases h : reg.hosts.get? id' with
    | none => rfl
    | some ref => simp [Nat.ne_of_lt (reg.refs_lt h)]

theorem lookup_deregister :
    (reg.deregister id).lookup id' = if id' = id then none else reg.lookup id' := by
  unfold lookup deregister
  simp only [Dict.get?_pop]
  split <;> rfl

/-- A slot operation changes the counter of one registered host. -/
theorem lookup_addInFlight (h : reg.addInFlight id d = some reg') :
    reg'.lookup id' =
      if id' = id then (reg.lookup id).map (·.addInFlight d) else reg.lookup id' := by
  obtain ⟨ref, href, rfl⟩ := Option.map_eq_some_iff.mp h
  unfold lookup update
  by_cases hid : id' = id
  · subst hid
    simp [href]
  · cases h' : reg.hosts.get? id' with
    | none => simp [hid]
    | some ref' =>
      have hne : ref' ≠ ref := by
        rintro rfl
        exact hid ((reg.hostId_eq h').symm.trans (reg.hostId_eq href))
      simp [hid, hne]

theorem lookup_heartbeat {now : Int} (h : reg.heartbeat id now = some reg') :
    (reg'.lookup id').map (·.inFlight) = (reg.lookup id').map (·.inFlight) := by
  obtain ⟨ref, href, rfl⟩ := Option.map_eq_some_iff.mp h
  unfold lookup update
  cases reg.hosts.get? id' with
  | none => rfl
  | some ref' => by_cases hr : ref' = ref <;> simp [hr, HostInfo.seen]

/-! ## The counter of an id after an operation -/

theorem inFlight_addInFlight (h : reg.addInFlight id d = some reg') :
    reg'.inFlight id' = if id' = id then (reg.inFlight id).map (· + d) else reg.inFlight id' := by
  unfold inFlight
  rw [lookup_addInFlight h]
  split
  · cases reg.lookup id <;> rfl
  · rfl

theorem inFlight_register (capabilities : HostCapabilities) (capacity : HostCapacity) (now : Int) :
    (reg.register id capabilities capacity now).inFlight id' =
      if id' = id then some ((reg.inFlight id).getD 0) else reg.inFlight id' := by
  unfold inFlight
  rw [lookup_register]
  split <;> rfl

theorem inFlight_deregister :
    (reg.deregister id).inFlight id' = if id' = id then none else reg.inFlight id' := by
  unfold inFlight
  rw [lookup_deregister]
  split <;> rfl

theorem inFlight_heartbeat {now : Int} (h : reg.heartbeat id now = some reg') :
    reg'.inFlight id' = reg.inFlight id' := lookup_heartbeat h

theorem inFlight_isSome_iff :
    (∃ n, reg.inFlight id = some n) ↔ ∃ ref, reg.hosts.get? id = some ref := by
  simp [inFlight, lookup]

theorem addInFlight_eq_none : reg.addInFlight id d = none ↔ reg.inFlight id = none := by
  simp [addInFlight, inFlight, lookup]

/-! ## What an operation does to the objects -/

theorem heap_update {f : HostInfo → HostInfo} {hf : ∀ info, SameSettings info (f info)}
    (ref ref' : Nat) : SameSettings (reg.heap ref') ((reg.update ref f hf).heap ref') := by
  unfold update
  by_cases hr : ref' = ref
  · simp only [hr, if_true]
    exact hf _
  · simp only [hr, if_false]
    exact .refl _

theorem heap_addInFlight (h : reg.addInFlight id d = some reg') (ref : Nat) :
    SameSettings (reg.heap ref) (reg'.heap ref) := by
  obtain ⟨ref', _, rfl⟩ := Option.map_eq_some_iff.mp h
  exact heap_update ref' ref

theorem heap_heartbeat {now : Int} (h : reg.heartbeat id now = some reg') (ref : Nat) :
    SameSettings (reg.heap ref) (reg'.heap ref) := by
  obtain ⟨ref', _, rfl⟩ := Option.map_eq_some_iff.mp h
  exact heap_update ref' ref

theorem hosts_addInFlight (h : reg.addInFlight id d = some reg') :
    reg'.hosts = reg.hosts ∧ reg'.next = reg.next := by
  obtain ⟨ref', _, rfl⟩ := Option.map_eq_some_iff.mp h
  exact ⟨rfl, rfl⟩

/-- A host whose counter was changed is still registered. -/
theorem addInFlight_again (h : reg.addInFlight id d = some reg') (d' : Int) :
    ∃ reg'', reg'.addInFlight id d' = some reg'' := by
  obtain ⟨ref, href, _⟩ := Option.map_eq_some_iff.mp h
  rw [addInFlight, (hosts_addInFlight h).1, href]
  exact ⟨_, rfl⟩

theorem hosts_heartbeat {now : Int} (h : reg.heartbeat id now = some reg') :
    reg'.hosts = reg.hosts ∧ reg'.next = reg.next := by
  obtain ⟨ref', _, rfl⟩ := Option.map_eq_some_iff.mp h
  exact ⟨rfl, rfl⟩

theorem heap_register {capabilities : HostCapabilities} {capacity : HostCapacity} {now : Int}
    {ref : Nat} (h : ref < reg.next) :
    (reg.register id capabilities capacity now).heap ref = reg.heap ref :=
  if_neg (Nat.ne_of_lt h)

end HostRegistry

/-- The ids of the hosts are distinct. -/
theorem nodup_hostIds (reg : HostRegistry) :
    (reg.hostRefs.map fun ref => (reg.heap ref).hostId).Nodup := by
  have hids : reg.hostRefs.map (fun ref => (reg.heap ref).hostId) = reg.hosts.keys := by
    unfold HostRegistry.hostRefs Dict.values Dict.keys
    rw [List.map_map]
    refine List.map_congr_left fun kv hkv => ?_
    exact reg.hostId_eq ((Dict.get?_eq_some _).mpr hkv)
  rw [hids]
  exact reg.hosts.nodup

end LlmHomeLab
