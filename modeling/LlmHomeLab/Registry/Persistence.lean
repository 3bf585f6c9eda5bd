import LlmHomeLab.Gateway.System

/-! # The registry on disk

`registry/store.py` and the constructor of `HostRegistry`. Every change of the registry is
written to one SQLite table, and a new registry reads that table back. The settings are written
as JSON objects; `json.dumps` and `json.loads`, and `isoformat` and `fromisoformat`, undo each
other, so a row holds what they are given. A scan visits the rows by rowid.
-/

namespace LlmHomeLab

/-! ## The columns -/

namespace Column

def ofOption {α : Type} (f : α → Json) : Option α → Json
  | none => .null
  | some x => f x

def ofDict {ν : Type} (f : ν → Json) (d : Dict String ν) : Json :=
  .obj (d.entries.map fun kv => (kv.1, f kv.2))

def toOption {α : Type} (f : Json → Option α) : Json → Option (Option α)
  | .null => some none
  | v => (f v).map some

def toStr : Json → Option String
  | .str s => some s
  | _ => none

def toNum : Json → Option ℚ
  | .num q => some q
  | _ => none

def toInt : Json → Option Int
  | .num q => if q.den = 1 then some q.num else none
  | _ => none

def toList {α : Type} (f : Json → Option α) : Json → Option (List α)
  | .arr items => items.mapM f
  | _ => none

def toDict {ν : Type} (f : Json → Option ν) : Json → Option (Dict String ν)
  | .obj fields => do
    let entries ← fields.mapM fun kv => (f kv.2).map (Prod.mk kv.1)
    if h : (entries.map Prod.fst).Nodup then some ⟨entries, h⟩ else none
  | _ => none

/-! ## Reading back what was written -/

theorem toInt_num (n : Int) : toInt (.num n) = some n := by
  simp [toInt]

theorem toOption_ofOption {α : Type} {f : α → Json} {g : Json → Option α}
    (h : ∀ x, g (f x) = some x) (hnull : ∀ x, f x ≠ .null) (x : Option α) :
    toOption g (ofOption f x) = some x := by
  cases x with
  | none => rfl
  | some x =>
    have hx := hnull x
    simp only [ofOption]
    cases hf : f x with
    | null => exact absurd hf hx
    | _ => simp [toOption, ← hf, h]

theorem toList_arr {α : Type} {f : α → Json} {g : Json → Option α} (h : ∀ x, g (f x) = some x)
    (l : List α) : toList g (.arr (l.map f)) = some l :=
  Json.mapM_map_some fun x _ => h x

theorem toDict_ofDict {ν : Type} {f : ν → Json} {g : Json → Option ν}
    (h : ∀ x, g (f x) = some x) (d : Dict String ν) : toDict g (ofDict f d) = some d := by
  have hentries : (d.entries.map fun kv => (kv.1, f kv.2)).mapM
      (fun kv => (g kv.2).map (Prod.mk kv.1)) = some d.entries :=
    Json.mapM_map_some fun kv _ => by simp [h]
  simp [ofDict, toDict, hentries, d.nodup]

end Column

open Column

/-- `asdict`. -/
def HostCapabilities.asdict (c : HostCapabilities) : Json :=
  .obj
    [("backend_type", ofOption .str c.backendType),
      ("context_window", ofOption (fun n : Int => .num n) c.contextWindow),
      ("base_url", ofOption .str c.baseUrl),
      ("allowed_models", ofOption (fun l => .arr (l.map .str)) c.allowedModels),
      ("memory_budget_gb", ofOption .num c.memoryBudgetGb),
      ("model_sizes_gb", ofOption (ofDict .num) c.modelSizesGb),
      ("model_aliases", ofOption (ofDict fun l => .arr (l.map .str)) c.modelAliases),
      ("position", ofOption (fun n : Int => .num n) c.position)]

/-- `HostCapabilities(**value)`. -/
def HostCapabilities.ofJson (value : Json) : Option HostCapabilities := do
  let backendType ← (value.field? "backend_type").bind (toOption toStr)
  let contextWindow ← (value.field? "context_window").bind (toOption toInt)
  let baseUrl ← (value.field? "base_url").bind (toOption toStr)
  let allowedModels ← (value.field? "allowed_models").bind (toOption (toList toStr))
  let memoryBudgetGb ← (value.field? "memory_budget_gb").bind (toOption toNum)
  let modelSizesGb ← (value.field? "model_sizes_gb").bind (toOption (toDict toNum))
  let modelAliases ← (value.field? "model_aliases").bind (toOption (toDict (toList toStr)))
  let position ← (value.field? "position").bind (toOption toInt)
  return ⟨backendType, contextWindow, baseUrl, allowedModels, memoryBudgetGb, modelSizesGb,
    modelAliases, position⟩

def HostCapacity.asdict (c : HostCapacity) : Json :=
  .obj [("max_concurrent_requests", ofOption (fun n : Int => .num n) c.maxConcurrentRequests)]

def HostCapacity.ofJson (value : Json) : Option HostCapacity :=
  ((value.field? "max_concurrent_requests").bind (toOption toInt)).map HostCapacity.mk

theorem HostCapacity.ofJson_asdict (c : HostCapacity) : ofJson c.asdict = some c := by
  have hlimit := toOption_ofOption toInt_num (fun _ => Json.noConfusion) c.maxConcurrentRequests
  have hfield : c.asdict.field? "max_concurrent_requests" =
      some (ofOption (fun n : Int => .num n) c.maxConcurrentRequests) := rfl
  rw [ofJson, hfield, Option.bind_some, hlimit]
  rfl

/-- A record is read back as it was written. -/
theorem HostCapabilities.ofJson_asdict (c : HostCapabilities) : ofJson c.asdict = some c := by
  have hstr : ∀ s, toStr (.str s) = some s := fun _ => rfl
  have hnum : ∀ q, toNum (.num q) = some q := fun _ => rfl
  have htype : (c.asdict.field? "backend_type").bind (toOption toStr) = some c.backendType :=
    toOption_ofOption hstr (fun _ => Json.noConfusion) c.backendType
  have hwindow : (c.asdict.field? "context_window").bind (toOption toInt) =
      some c.contextWindow :=
    toOption_ofOption toInt_num (fun _ => Json.noConfusion) c.contextWindow
  have hurl : (c.asdict.field? "base_url").bind (toOption toStr) = some c.baseUrl :=
    toOption_ofOption hstr (fun _ => Json.noConfusion) c.baseUrl
  have hmodels : (c.asdict.field? "allowed_models").bind (toOption (toList toStr)) =
      some c.allowedModels :=
    toOption_ofOption (toList_arr hstr) (fun _ => Json.noConfusion) c.allowedModels
  have hbudget : (c.asdict.field? "memory_budget_gb").bind (toOption toNum) =
      some c.memoryBudgetGb :=
    toOption_ofOption hnum (fun _ => Json.noConfusion) c.memoryBudgetGb
  have hsizes : (c.asdict.field? "model_sizes_gb").bind (toOption (toDict toNum)) =
      some c.modelSizesGb :=
    toOption_ofOption (toDict_ofDict hnum) (fun _ => Json.noConfusion) c.modelSizesGb
  have haliases : (c.asdict.field? "model_aliases").bind (toOption (toDict (toList toStr))) =
      some c.modelAliases :=
    toOption_ofOption (toDict_ofDict (toList_arr hstr)) (fun _ => Json.noConfusion) c.modelAliases
  have hposition : (c.asdict.field? "position").bind (toOption toInt) = some c.position :=
    toOption_ofOption toInt_num (fun _ => Json.noConfusion) c.position
  rw [ofJson, htype, hwindow, hurl, hmodels, hbudget, hsizes, haliases, hposition]
  rfl

/-! ## The table -/

structure HostRow where
  rowid : ℕ
  hostId : String
  capabilities : Json
  capacity : Json
  lastSeen : Int

/-- The `HostInfo` that `load_hosts` makes of a row. -/
def HostRow.toInfo (row : HostRow) : Option HostInfo := do
  let capabilities ← HostCapabilities.ofJson row.capabilities
  let capacity ← HostCapacity.ofJson row.capacity
  return ⟨row.hostId, capabilities, capacity, 0, row.lastSeen⟩

/-- `load_hosts`: a full scan. -/
def loadHosts (rows : List HostRow) : Option (List HostInfo) :=
  (rows.insertionSort fun a b => a.rowid ≤ b.rowid).mapM HostRow.toInfo

/-- `INSERT ... ON CONFLICT(host_id) DO UPDATE`: the row of the host keeps its rowid, and a new
row gets the one that `nextRowid` gives. -/
def upsert (nextRowid : List HostRow → ℕ) (hostId : String) (capabilities : HostCapabilities)
    (capacity : HostCapacity) (lastSeen : Int) (rows : List HostRow) : List HostRow :=
  if rows.any (·.hostId = hostId) then
    rows.map fun row =>
      if row.hostId = hostId then
        ⟨row.rowid, row.hostId, capabilities.asdict, capacity.asdict, lastSeen⟩
      else row
  else rows ++ [⟨nextRowid rows, hostId, capabilities.asdict, capacity.asdict, lastSeen⟩]

/-- `UPDATE hosts SET last_seen = ? WHERE host_id = ?`. -/
def updateLastSeen (hostId : String) (lastSeen : Int) (rows : List HostRow) : List HostRow :=
  rows.map fun row => if row.hostId = hostId then { row with lastSeen } else row

/-- `DELETE FROM hosts WHERE host_id = ?`. -/
def deleteRow (hostId : String) (rows : List HostRow) : List HostRow :=
  rows.filter (·.hostId ≠ hostId)

/-! ## The registry over the table -/

namespace HostRegistry

/-- Put a new object under its id. -/
def put (reg : HostRegistry) (info : HostInfo) : HostRegistry where
  heap ref := if ref = reg.next then info else reg.heap ref
  next := reg.next + 1
  hosts := reg.hosts.set info.hostId reg.next
  refs_lt {id' ref} h := by
    rw [Dict.get?_set] at h
    split at h
    · cases h
      exact Nat.lt_succ_self _
    · exact Nat.lt_succ_of_lt (reg.refs_lt h)
  hostId_eq {id' ref} h := by
    rw [Dict.get?_set] at h
    split at h
    · next heq =>
      cases h
      simp [heq]
    · have hlt := reg.refs_lt h
      rw [if_neg (Nat.ne_of_lt hlt)]
      exact reg.hostId_eq h

/-- `HostRegistry(db_path)` on a database with this table. -/
def opened (rows : List HostRow) : Option HostRegistry :=
  (loadHosts rows).map fun infos => infos.foldl put empty

/-- `hosts()`, as the records the objects hold. -/
def infos (reg : HostRegistry) : List HostInfo := reg.hostRefs.map reg.heap

end HostRegistry

/-- A record without its slots. -/
def HostInfo.idle (info : HostInfo) : HostInfo := { info with inFlight := 0 }

/-- What is done with a registry: the calls of the node endpoints, the slots taken and given
back by requests, and opening the database again. -/
inductive RegistryCall where
  | node (e : AdminEvent)
  | acquireSlot (hostId : String)
  | releaseSlot (hostId : String)
  | reopen

/-- A registry and the table of its database. -/
structure StoredRegistry where
  registry : HostRegistry
  rows : List HostRow

/-- What a call of a node endpoint writes. A PATCH and a heartbeat write nothing for an unknown
host; they raise before they do. -/
def rowsAfter (nextRowid : List HostRow → ℕ) (reg : HostRegistry) (rows : List HostRow) :
    AdminEvent → List HostRow
  | .register hostId capabilities capacity now =>
    upsert nextRowid hostId capabilities capacity now rows
  | .patch hostId fields now =>
    match reg.lookup hostId with
    | none => rows
    | some existing =>
      upsert nextRowid hostId (fields.capabilities existing.capabilities)
        (fields.capacity existing.capacity) now rows
  | .heartbeat hostId now =>
    if reg.hosts.contains hostId then updateLastSeen hostId now rows else rows
  | .deregister hostId => deleteRow hostId rows
  | _ => rows

/-- One call; where it raises, nothing changes. -/
def StoredRegistry.step (nextRowid : List HostRow → ℕ) (s : StoredRegistry) :
    RegistryCall → StoredRegistry
  | .node e => ⟨registryAfter s.registry e, rowsAfter nextRowid s.registry s.rows e⟩
  | .acquireSlot hostId => { s with registry := (s.registry.acquireSlot hostId).getD s.registry }
  | .releaseSlot hostId => { s with registry := (s.registry.releaseSlot hostId).getD s.registry }
  | .reopen => { s with registry := (HostRegistry.opened s.rows).getD s.registry }

/-- A registry on a new database, after these calls. -/
def StoredRegistry.run (nextRowid : List HostRow → ℕ) (calls : List RegistryCall) :
    StoredRegistry :=
  calls.foldl (StoredRegistry.step nextRowid) ⟨.empty, []⟩

/-! ## The table mirrors the registry -/

namespace HostRegistry

variable {reg reg' : HostRegistry} {id : String}

/-- The ids and records, in the order of the registry. -/
def view (reg : HostRegistry) : List (String × HostInfo) :=
  reg.hosts.entries.map fun kv => (kv.1, reg.heap kv.2)

theorem infos_eq_view : reg.infos = reg.view.map Prod.snd := by
  simp [infos, view, hostRefs, Dict.values]

theorem view_ids : reg.view.map Prod.fst = reg.hosts.keys := by
  simp [view, Dict.keys]

theorem nodup_view : (reg.view.map Prod.fst).Nodup := by
  rw [view_ids]
  exact reg.hosts.nodup

theorem view_hostId {kv : String × HostInfo} (h : kv ∈ reg.view) : kv.2.hostId = kv.1 := by
  rcases List.mem_map.mp h with ⟨entry, hentry, rfl⟩
  exact reg.hostId_eq ((Dict.get?_eq_some _).mpr hentry)

theorem view_put (reg : HostRegistry) (info : HostInfo) :
    (reg.put info).view = Dict.insertList info.hostId info reg.view := by
  have hold : reg.hosts.entries.map (fun kv => (kv.1, (reg.put info).heap kv.2)) = reg.view := by
    refine List.map_congr_left fun kv hkv => ?_
    have hlt := reg.refs_lt ((Dict.get?_eq_some _).mpr hkv)
    simp [put, Nat.ne_of_lt hlt]
  have hnew : (reg.put info).heap reg.next = info := by simp [put]
  have hinsert := Dict.map_insertList (reg.put info).heap info.hostId reg.next reg.hosts.entries
  rw [hold, hnew] at hinsert
  exact hinsert

theorem register_eq_put (capabilities : HostCapabilities) (capacity : HostCapacity) (now : Int) :
    reg.register id capabilities capacity now =
      reg.put ⟨id, capabilities, capacity, (reg.inFlight id).getD 0, now⟩ := rfl

/-- Changes to the one object registered under an id. -/
theorem view_update {ref : Nat} {f : HostInfo → HostInfo} {hf : ∀ info, SameSettings info (f info)}
    (href : reg.hosts.get? id = some ref) :
    (reg.update ref f hf).view = reg.view.map fun kv =>
      (kv.1, if kv.1 = id then f kv.2 else kv.2) := by
  rw [view, view, List.map_map]
  refine List.map_congr_left fun kv hkv => ?_
  have hget : reg.hosts.get? kv.1 = some kv.2 := (Dict.get?_eq_some _).mpr hkv
  by_cases hid : kv.1 = id
  · rw [hid, href] at hget
    cases hget
    simp [update, hid]
  · have hne : kv.2 ≠ ref := by
      intro heq
      have hid' := reg.hostId_eq hget
      rw [heq, reg.hostId_eq href] at hid'
      exact hid hid'.symm
    simp [update, hid, hne]

theorem view_deregister :
    (reg.deregister id).view = reg.view.filter fun kv => !decide (kv.1 = id) := by
  simp [view, deregister, Dict.pop, Dict.filter, List.filter_map, Function.comp_def]

end HostRegistry

/-- Row by row the table says what the registry has in memory, apart from the slots. -/
structure Mirrors (reg : HostRegistry) (rows : List HostRow) : Prop where
  rowids : rows.Pairwise fun a b => a.rowid < b.rowid
  content : rows.map (fun row => (row.hostId, row.toInfo)) =
    reg.view.map fun kv => (kv.1, some kv.2.idle)

namespace Mirrors

variable {reg reg' : HostRegistry} {rows : List HostRow} {hostId : String}

theorem hostIds (h : Mirrors reg rows) : rows.map (·.hostId) = reg.view.map Prod.fst := by
  have hfst := congrArg (List.map Prod.fst) h.content
  simpa [Function.comp_def] using hfst

theorem registered_iff (h : Mirrors reg rows) :
    rows.any (·.hostId = hostId) = true ↔ hostId ∈ reg.view.map Prod.fst := by
  rw [← h.hostIds]
  simp

theorem addInFlight {d : Int} (h : Mirrors reg rows) (hadd : reg.addInFlight hostId d = some reg') :
    Mirrors reg' rows := by
  rcases Option.map_eq_some_iff.mp hadd with ⟨ref, href, rfl⟩
  refine ⟨h.rowids, h.content.trans ?_⟩
  rw [HostRegistry.view_update href, List.map_map]
  refine List.map_congr_left fun kv _ => ?_
  by_cases hid : kv.1 = hostId <;> simp [hid, HostInfo.addInFlight, HostInfo.idle]

theorem toInfo_row (rowid : ℕ) (hostId : String) (capabilities : HostCapabilities)
    (capacity : HostCapacity) (lastSeen : Int) :
    HostRow.toInfo ⟨rowid, hostId, capabilities.asdict, capacity.asdict, lastSeen⟩ =
      some ⟨hostId, capabilities, capacity, 0, lastSeen⟩ := by
  simp only [HostRow.toInfo, HostCapabilities.ofJson_asdict, HostCapacity.ofJson_asdict]
  rfl

theorem register {nextRowid : List HostRow → ℕ}
    (hnext : ∀ rows, ∀ row ∈ rows, row.rowid < nextRowid rows) (h : Mirrors reg rows)
    (capabilities : HostCapabilities) (capacity : HostCapacity) (now : Int) :
    Mirrors (reg.register hostId capabilities capacity now)
      (upsert nextRowid hostId capabilities capacity now rows) := by
  have hview := HostRegistry.view_put reg
    ⟨hostId, capabilities, capacity, (reg.inFlight hostId).getD 0, now⟩
  have hnodup := reg.nodup_view
  by_cases hin : hostId ∈ reg.view.map Prod.fst
  · -- the entry and the row are both overwritten in their place
    have hany := h.registered_iff.mpr hin
    rw [upsert, if_pos hany]
    constructor
    · rw [List.pairwise_map]
      refine h.rowids.imp ?_
      intro a b hab
      split <;> split <;> exact hab
    · rw [HostRegistry.register_eq_put, hview, Dict.insertList_of_mem _ hnodup hin, List.map_map,
        List.map_map]
      have hrows := congrArg (List.map fun kv : String × Option HostInfo =>
        if kv.1 = hostId then (hostId, some ⟨hostId, capabilities, capacity, 0, now⟩) else kv)
        h.content
      rw [List.map_map, List.map_map] at hrows
      refine Eq.trans (List.map_congr_left fun row _ => ?_)
        (hrows.trans (List.map_congr_left fun kv _ => ?_))
      · by_cases hid : row.hostId = hostId
        · simp [hid, toInfo_row]
        · simp [hid]
      · by_cases hid : kv.1 = hostId
        · simp [hid, HostInfo.idle]
        · simp [hid]
  · -- both go to the end
    have hany := mt h.registered_iff.mp hin
    rw [upsert, if_neg hany]
    constructor
    · rw [List.pairwise_append]
      refine ⟨h.rowids, List.pairwise_singleton _ _, ?_⟩
      intro row hrow new hnew
      rw [List.mem_singleton.mp hnew]
      exact hnext rows row hrow
    · rw [HostRegistry.register_eq_put, hview, Dict.insertList_of_notMem _ hin, List.map_append,
        List.map_append, h.content]
      simp [toInfo_row, HostInfo.idle]

theorem heartbeat {now : Int} (h : Mirrors reg rows) (hbeat : reg.heartbeat hostId now = some reg') :
    Mirrors reg' (updateLastSeen hostId now rows) := by
  constructor
  · rw [updateLastSeen, List.pairwise_map]
    refine h.rowids.imp ?_
    intro a b hab
    split <;> split <;> exact hab
  · rcases Option.map_eq_some_iff.mp hbeat with ⟨ref, href, rfl⟩
    rw [HostRegistry.view_update href, updateLastSeen, List.map_map, List.map_map]
    have hrows := congrArg (List.map fun kv : String × Option HostInfo =>
      (kv.1, if kv.1 = hostId then kv.2.map (·.seen now) else kv.2)) h.content
    rw [List.map_map, List.map_map] at hrows
    refine Eq.trans (List.map_congr_left fun row _ => ?_)
      (hrows.trans (List.map_congr_left fun kv _ => ?_))
    · by_cases hid : row.hostId = hostId
      · simp only [Function.comp_apply, hid, if_true, HostRow.toInfo]
        cases HostCapabilities.ofJson row.capabilities with
        | none => rfl
        | some capabilities => cases HostCapacity.ofJson row.capacity <;> rfl
      · simp [hid]
    · by_cases hid : kv.1 = hostId <;> simp [hid, HostInfo.seen, HostInfo.idle]

theorem deregister (h : Mirrors reg rows) :
    Mirrors (reg.deregister hostId) (deleteRow hostId rows) := by
  constructor
  · exact h.rowids.sublist List.filter_sublist
  · rw [HostRegistry.view_deregister]
    have hrows := congrArg (List.filter fun kv : String × Option HostInfo =>
      !decide (kv.1 = hostId)) h.content
    rw [List.filter_map, List.filter_map] at hrows
    simpa [deleteRow, Function.comp_def] using hrows

/-- What a new registry reads from the table. -/
theorem load (h : Mirrors reg rows) :
    loadHosts rows = some (reg.view.map fun kv => kv.2.idle) := by
  have hsorted : rows.insertionSort (fun a b => a.rowid ≤ b.rowid) = rows :=
    List.Pairwise.insertionSort_eq (h.rowids.imp fun hab => le_of_lt hab)
  have hmap : rows.map HostRow.toInfo = (reg.view.map fun kv => kv.2.idle).map some := by
    have hsnd := congrArg (List.map Prod.snd) h.content
    simpa [Function.comp_def] using hsnd
  rw [loadHosts, hsorted]
  generalize (reg.view.map fun kv => kv.2.idle) = infos at hmap
  clear hsorted h
  induction rows generalizing infos with
  | nil =>
    cases infos with
    | nil => rfl
    | cons _ _ => simp at hmap
  | cons row rest ih =>
    cases infos with
    | nil => simp at hmap
    | cons info infos =>
      simp only [List.map_cons, List.cons.injEq] at hmap
      rw [List.mapM_cons, hmap.1, ih infos hmap.2]
      rfl

/-- A registry filled from a list of records of different hosts. -/
theorem view_foldl_put (infos : List HostInfo) (h : (infos.map (·.hostId)).Nodup) :
    (infos.foldl HostRegistry.put .empty).view = infos.map fun info => (info.hostId, info) := by
  induction infos using List.reverseRecOn with
  | nil => rfl
  | append_singleton infos info ih =>
    rw [List.map_append, List.nodup_append] at h
    have hold := ih h.1
    have hnot : info.hostId ∉ (infos.foldl HostRegistry.put .empty).view.map Prod.fst := by
      intro hin
      rw [hold, List.map_map] at hin
      exact h.2.2 _ hin _ (List.mem_singleton_self _) rfl
    rw [List.foldl_append, List.foldl_cons, List.foldl_nil, HostRegistry.view_put,
      Dict.insertList_of_notMem _ hnot, hold, List.map_append]
    rfl

/-- A registry opened on the table has the same records, with no slot taken. -/
theorem opened (h : Mirrors reg rows) : ∃ reg', HostRegistry.opened rows = some reg' ∧
    reg'.infos = reg.infos.map HostInfo.idle ∧ Mirrors reg' rows := by
  have hids : (reg.view.map fun kv => kv.2.idle).map (·.hostId) = reg.view.map Prod.fst := by
    rw [List.map_map]
    exact List.map_congr_left fun kv hkv => HostRegistry.view_hostId hkv
  have hview := view_foldl_put (reg.view.map fun kv => kv.2.idle)
    (hids ▸ reg.nodup_view)
  have hsame : ((reg.view.map fun kv => kv.2.idle).foldl HostRegistry.put .empty).view =
      reg.view.map fun kv => (kv.1, kv.2.idle) := by
    rw [hview, List.map_map]
    refine List.map_congr_left fun kv hkv => ?_
    simp only [Function.comp_apply, HostInfo.idle, HostRegistry.view_hostId hkv]
  refine ⟨_, by rw [HostRegistry.opened, h.load]; rfl, ?_, h.rowids, ?_⟩
  · rw [HostRegistry.infos_eq_view, HostRegistry.infos_eq_view, hsame, List.map_map, List.map_map]
    rfl
  · rw [h.content, hsame, List.map_map]
    rfl

/-- One call keeps the table in step. -/
theorem step {nextRowid : List HostRow → ℕ}
    (hnext : ∀ rows, ∀ row ∈ rows, row.rowid < nextRowid rows) {s : StoredRegistry}
    (h : Mirrors s.registry s.rows) (call : RegistryCall) :
    Mirrors (s.step nextRowid call).registry (s.step nextRowid call).rows := by
  have hslot : ∀ {d : Int} {hostId : String},
      Mirrors ((s.registry.addInFlight hostId d).getD s.registry) s.rows := by
    intro d hostId
    cases hadd : s.registry.addInFlight hostId d with
    | none => exact h
    | some reg' => exact h.addInFlight hadd
  cases call with
  | acquireSlot hostId => exact hslot
  | releaseSlot hostId => exact hslot
  | reopen =>
    rcases h.opened with ⟨reg', hopened, _, hmirrors⟩
    simp only [StoredRegistry.step, hopened]
    exact hmirrors
  | node e =>
    cases e with
    | register hostId capabilities capacity now =>
      exact h.register hnext capabilities capacity now
    | patch hostId fields now =>
      simp only [StoredRegistry.step, registryAfter, rowsAfter]
      cases s.registry.lookup hostId with
      | none => exact h
      | some existing => exact h.register hnext _ _ now
    | heartbeat hostId now =>
      simp only [StoredRegistry.step, registryAfter, rowsAfter]
      cases hbeat : s.registry.heartbeat hostId now with
      | none =>
        -- the host is not registered
        have hnone : s.registry.hosts.get? hostId = none := by
          simpa [HostRegistry.heartbeat] using hbeat
        simp only [Dict.contains, hnone]
        exact h
      | some reg' =>
        have hsome : s.registry.hosts.contains hostId = true := by
          rcases Option.map_eq_some_iff.mp hbeat with ⟨ref, href, _⟩
          exact (Dict.contains_iff _).mpr ⟨ref, href⟩
        rw [if_pos hsome]
        exact h.heartbeat hbeat
    | deregister hostId => exact h.deregister
    | _ => exact h

end Mirrors

theorem StoredRegistry.run_mirrors {nextRowid : List HostRow → ℕ}
    (hnext : ∀ rows, ∀ row ∈ rows, row.rowid < nextRowid rows) (calls : List RegistryCall) :
    Mirrors (run nextRowid calls).registry (run nextRowid calls).rows := by
  induction calls using List.reverseRecOn with
  | nil => exact ⟨.nil, rfl⟩
  | append_singleton calls call ih =>
    rw [run, List.foldl_append]
    exact ih.step hnext call

/-- After any calls, a new registry on the same database has the hosts of the running one, in
the same order and with the same records, and no slot taken. -/
theorem reopened_same {nextRowid : List HostRow → ℕ}
    (hnext : ∀ rows, ∀ row ∈ rows, row.rowid < nextRowid rows) (calls : List RegistryCall) :
    (HostRegistry.opened (StoredRegistry.run nextRowid calls).rows).map (·.infos) =
      some ((StoredRegistry.run nextRowid calls).registry.infos.map HostInfo.idle) := by
  rcases (StoredRegistry.run_mirrors hnext calls).opened with ⟨reg', hopened, hinfos, _⟩
  rw [hopened, ← hinfos]
  rfl

/-- The rowid SQLite gives: one more than the largest. -/
def maxRowid (rows : List HostRow) : ℕ := (rows.map (·.rowid)).foldr max 0 + 1

theorem lt_maxRowid (rows : List HostRow) : ∀ row ∈ rows, row.rowid < maxRowid rows := by
  induction rows with
  | nil => simp
  | cons first rest ih =>
    intro row hrow
    simp only [maxRowid, List.map_cons, List.foldr_cons] at ih ⊢
    rcases List.mem_cons.mp hrow with rfl | hrest
    · omega
    · have hlt := ih row hrest
      omega

/-- A host that is deregistered and registered again comes after the other one, in memory and
on disk. -/
theorem reopened_same_returned :
    (HostRegistry.opened (StoredRegistry.run maxRowid
      [.node (.register "gpu-1" ⟨some "lmstudio", some 8, some "http://a", none, none, none, none,
          none⟩ ⟨some 2⟩ 0),
        .node (.register "gpu-2" ⟨some "lmstudio", some 8, some "http://b", none, none, none, none,
          none⟩ ⟨some 1⟩ 1),
        .acquireSlot "gpu-2", .node (.deregister "gpu-1"),
        .node (.register "gpu-1" ⟨some "lmstudio", some 8, some "http://a", none, none, none, none,
          none⟩ ⟨some 2⟩ 2)]).rows).map (fun reg => reg.infos.map fun info =>
            (info.hostId, info.inFlight)) = some [("gpu-2", 0), ("gpu-1", 0)] := by
  have hsame := congrArg (Option.map (List.map fun info => (info.hostId, info.inFlight)))
    (reopened_same lt_maxRowid
      [.node (.register "gpu-1" ⟨some "lmstudio", some 8, some "http://a", none, none, none, none,
          none⟩ ⟨some 2⟩ 0),
        .node (.register "gpu-2" ⟨some "lmstudio", some 8, some "http://b", none, none, none, none,
          none⟩ ⟨some 1⟩ 1),
        .acquireSlot "gpu-2", .node (.deregister "gpu-1"),
        .node (.register "gpu-1" ⟨some "lmstudio", some 8, some "http://a", none, none, none, none,
          none⟩ ⟨some 2⟩ 2)])
  rw [Option.map_map] at hsame
  exact hsame.trans (by decide)

end LlmHomeLab
