import LlmHomeLab.Gateway.Capacity

/-! # The settings of a node

A PATCH reads the whole record and writes it back. Whatever else runs in the gateway, each field
of a registered node has the value of the last PATCH that set this field, or of the registration:
no PATCH undoes what another one wrote to a field that it does not name itself.
-/

namespace LlmHomeLab

/-! ## Registrations and updates -/

/-- A registration that is in force, and the PATCHes made to it. -/
structure Registration where
  capabilities : HostCapabilities
  capacity : HostCapacity
  updates : List NodeUpdate := []

namespace Registration

/-- What a call makes of the registration of a host. -/
def record (hostId : String) (registration : Option Registration) :
    AdminEvent → Option Registration
  | .register id capabilities capacity _ =>
    if id = hostId then some { capabilities, capacity } else registration
  | .patch id fields _ =>
    if id = hostId then registration.map fun r => { r with updates := r.updates ++ [fields] }
    else registration
  | .deregister id => if id = hostId then none else registration
  | _ => registration

/-- Of the events of the gateway only the calls of the node endpoints count. -/
def after (hostId : String) (registration : Option Registration) : Event → Option Registration
  | .admin a => record hostId registration a
  | _ => registration

end Registration

/-- The registration of a host after these events. -/
def registrationAfter (hostId : String) (initial : Option Registration) (es : List Event) :
    Option Registration :=
  es.foldl (Registration.after hostId) initial

/-- A field of a node: where a record has it, and what a PATCH sets it to. -/
structure NodeField (α : Type) where
  ofNode : HostCapabilities → HostCapacity → α
  ofUpdate : NodeUpdate → Option α
  merge : ∀ fields capabilities capacity,
    ofNode (fields.capabilities capabilities) (fields.capacity capacity) =
      (ofUpdate fields).getD (ofNode capabilities capacity) := by intros; rfl

namespace NodeField

def backendType : NodeField (Option String) where
  ofNode capabilities _ := capabilities.backendType
  ofUpdate := NodeUpdate.backendType

def contextWindow : NodeField (Option Int) where
  ofNode capabilities _ := capabilities.contextWindow
  ofUpdate := NodeUpdate.contextWindow

def baseUrl : NodeField (Option String) where
  ofNode capabilities _ := capabilities.baseUrl
  ofUpdate := NodeUpdate.baseUrl

def maxConcurrentRequests : NodeField (Option Int) where
  ofNode _ capacity := capacity.maxConcurrentRequests
  ofUpdate := NodeUpdate.maxConcurrentRequests

def allowedModels : NodeField (Option (List String)) where
  ofNode capabilities _ := capabilities.allowedModels
  ofUpdate := NodeUpdate.allowedModels

def memoryBudgetGb : NodeField (Option ℚ) where
  ofNode capabilities _ := capabilities.memoryBudgetGb
  ofUpdate := NodeUpdate.memoryBudgetGb

def modelSizesGb : NodeField (Option (Dict String ℚ)) where
  ofNode capabilities _ := capabilities.modelSizesGb
  ofUpdate := NodeUpdate.modelSizesGb

def modelAliases : NodeField (Option (Dict String (List String))) where
  ofNode capabilities _ := capabilities.modelAliases
  ofUpdate := NodeUpdate.modelAliases

def position : NodeField (Option Int) where
  ofNode capabilities _ := capabilities.position
  ofUpdate := NodeUpdate.position

end NodeField

namespace Registration

variable {α : Type}

/-- The last value a PATCH gave to the field, or the registered one. -/
def value (r : Registration) (field : NodeField α) : α :=
  (r.updates.filterMap field.ofUpdate).getLastD (field.ofNode r.capabilities r.capacity)

def currentCapabilities (r : Registration) : HostCapabilities where
  backendType := r.value .backendType
  contextWindow := r.value .contextWindow
  baseUrl := r.value .baseUrl
  allowedModels := r.value .allowedModels
  memoryBudgetGb := r.value .memoryBudgetGb
  modelSizesGb := r.value .modelSizesGb
  modelAliases := r.value .modelAliases
  position := r.value .position

def currentCapacity (r : Registration) : HostCapacity where
  maxConcurrentRequests := r.value .maxConcurrentRequests

/-! ## One more PATCH -/

theorem value_snoc (r : Registration) (fields : NodeUpdate) (field : NodeField α) :
    value { r with updates := r.updates ++ [fields] } field =
      (field.ofUpdate fields).getD (r.value field) := by
  unfold value
  rw [List.filterMap_append]
  cases hset : field.ofUpdate fields with
  | none => simp [hset]
  | some v => simp [hset]

theorem currentCapabilities_snoc (r : Registration) (fields : NodeUpdate) :
    currentCapabilities { r with updates := r.updates ++ [fields] } =
      fields.capabilities r.currentCapabilities := by
  simp only [currentCapabilities, value_snoc, NodeUpdate.capabilities]
  rfl

theorem currentCapacity_snoc (r : Registration) (fields : NodeUpdate) :
    currentCapacity { r with updates := r.updates ++ [fields] } =
      fields.capacity r.currentCapacity := by
  simp only [currentCapacity, value_snoc, NodeUpdate.capacity]
  rfl

/-- The record of a host and its registration agree. -/
def Describes (reg : HostRegistry) (hostId : String) (registration : Option Registration) : Prop :=
  (reg.lookup hostId).map (fun info => (info.capabilities, info.capacity)) =
    registration.map fun r => (r.currentCapabilities, r.currentCapacity)

variable {reg reg' : HostRegistry} {hostId : String} {registration : Option Registration}

theorem Describes.register (capabilities : HostCapabilities) (capacity : HostCapacity)
    (now : Int) {r : Registration} (hcapabilities : r.currentCapabilities = capabilities)
    (hcapacity : r.currentCapacity = capacity) :
    Describes (reg.register hostId capabilities capacity now) hostId (some r) := by
  unfold Describes
  rw [HostRegistry.lookup_register, if_pos rfl]
  simp [hcapabilities, hcapacity]

theorem Describes.register_other (h : Describes reg hostId registration) {id : String}
    (hne : id ≠ hostId) (capabilities : HostCapabilities) (capacity : HostCapacity) (now : Int) :
    Describes (reg.register id capabilities capacity now) hostId registration := by
  unfold Describes
  rw [HostRegistry.lookup_register, if_neg (Ne.symm hne)]
  exact h

/-- What does not touch the settings of the host. -/
theorem Describes.congr (h : Describes reg hostId registration)
    (hsame : (reg'.lookup hostId).map (fun info => (info.capabilities, info.capacity)) =
      (reg.lookup hostId).map fun info => (info.capabilities, info.capacity)) :
    Describes reg' hostId registration := hsame.trans h

end Registration

/-- Objects that are kept, under the ids they have, show the same settings. -/
theorem KeepsObjects.settings_eq {reg reg' : HostRegistry} (h : KeepsObjects reg reg')
    (hhosts : reg'.hosts = reg.hosts) (hostId : String) :
    (reg'.lookup hostId).map (fun info => (info.capabilities, info.capacity)) =
      (reg.lookup hostId).map fun info => (info.capabilities, info.capacity) := by
  unfold HostRegistry.lookup
  rw [hhosts]
  cases href : reg.hosts.get? hostId with
  | none => rfl
  | some ref =>
    obtain ⟨-, hcapabilities, hcapacity⟩ := h.settings (reg.refs_lt href)
    simp [hcapabilities, hcapacity]

/-! ## Runs -/

variable {cfg : Config} {s s' s₀ : State} {e : Event} {es : List Event} {hostId : String}
  {registration : Option Registration}

theorem describes_registryAfter {reg : HostRegistry}
    (h : Registration.Describes reg hostId registration) (a : AdminEvent) :
    Registration.Describes (registryAfter reg a) hostId
      (Registration.record hostId registration a) := by
  cases a with
  | register id capabilities capacity now =>
    simp only [registryAfter, Registration.record]
    by_cases hid : id = hostId
    · rw [if_pos hid, hid]
      exact .register capabilities capacity now rfl rfl
    · rw [if_neg hid]
      exact h.register_other hid capabilities capacity now
  | patch id fields now =>
    simp only [registryAfter, Registration.record]
    by_cases hid : id = hostId
    · subst hid
      rw [if_pos rfl]
      cases hlookup : reg.lookup id with
      | none =>
        -- an unknown host
        have hnone : registration = none := by
          unfold Registration.Describes at h
          simpa [hlookup] using h.symm
        subst hnone
        exact h
      | some existing =>
        unfold Registration.Describes at h
        rw [hlookup] at h
        obtain ⟨r, hr, hcurrent⟩ := Option.map_eq_some_iff.mp h.symm
        rw [Prod.mk.injEq] at hcurrent
        rw [hr, Option.map_some]
        refine .register _ _ now ?_ ?_
        · rw [← hcurrent.1]
          exact r.currentCapabilities_snoc fields
        · rw [← hcurrent.2]
          exact r.currentCapacity_snoc fields
    · rw [if_neg hid]
      cases reg.lookup id with
      | none => exact h
      | some existing => exact h.register_other hid _ _ now
  | heartbeat id now =>
    simp only [registryAfter, Registration.record]
    cases hbeat : reg.heartbeat id now with
    | none => exact h
    | some reg' =>
      have hobjects : KeepsObjects reg reg' := ⟨(HostRegistry.hosts_heartbeat hbeat).2.ge,
        fun _ => HostRegistry.heap_heartbeat hbeat _⟩
      exact h.congr (hobjects.settings_eq (HostRegistry.hosts_heartbeat hbeat).1 hostId)
  | deregister id =>
    unfold Registration.Describes at h ⊢
    simp only [registryAfter, Registration.record, HostRegistry.lookup_deregister]
    by_cases hid : id = hostId
    · simp [hid]
    · rw [if_neg (Ne.symm hid), if_neg hid]
      exact h
  | _ => exact h

/-- The registration of a host that a gateway starts with. -/
def loaded (s : State) (hostId : String) : Option Registration :=
  (s.core.registry.lookup hostId).map fun info =>
    { capabilities := info.capabilities, capacity := info.capacity }

theorem registrationAfter_snoc (hostId : String) (initial : Option Registration) (es : List Event)
    (e : Event) : registrationAfter hostId initial (es ++ [e]) =
      Registration.after hostId (registrationAfter hostId initial es) e := by
  simp [registrationAfter, List.foldl_append]

/-- In every run of the gateway, a node is registered with each field as the last PATCH that set
it left it, or as it was registered. -/
theorem settings_last_written (hstart : Started s₀) (hrun : Run (Fires (step cfg)) s₀ es s)
    (hostId : String) : (s.core.registry.lookup hostId).map
        (fun info => (info.capabilities, info.capacity)) =
      (registrationAfter hostId (loaded s₀ hostId) es).map
        fun r => (r.currentCapabilities, r.currentCapacity) := by
  have hsteps := run_steps hstart hrun
  clear hrun
  induction hsteps with
  | nil =>
    unfold loaded registrationAfter
    cases s₀.core.registry.lookup hostId <;> rfl
  | @snoc es a b e _ hstep ih =>
    rw [registrationAfter_snoc]
    cases hstep with
    | @admin call core hcore =>
      dsimp only
      rw [(admin_queue hcore).2]
      exact describes_registryAfter ih call
    | own hactor hmoves =>
      obtain ⟨hobjects, hhosts⟩ := hmoves.slot.keepsObjects
      refine (hobjects.settings_eq hhosts hostId).trans (ih.trans ?_)
      cases hactor <;> rfl

/-- The limit and the position are set by different PATCHes, and a request arrives in between. -/
theorem settings_last_written_twice : ∃ s, Run (Fires (step Lab.config)) Lab.start
    [Lab.register "gpu" none 1, Lab.limitTo "gpu" 2, Lab.ask "r",
      .admin (.patch "gpu" { position := some (some 3) } 0)] s ∧
    (s.core.registry.lookup "gpu").map
      (fun info => (info.capacity.maxConcurrentRequests, info.capabilities.position)) =
        some (some 2, some 3) := by
  have hrun : ∃ s, Run (Fires (step Lab.config)) Lab.start
      [Lab.register "gpu" none 1, Lab.limitTo "gpu" 2, Lab.ask "r",
        .admin (.patch "gpu" { position := some (some 3) } 0)] s ∧
        s.core.registry.hosts.keys = ["gpu"] := run_of_shows rfl
  obtain ⟨s, hrun, -⟩ := hrun
  have hwritten := settings_last_written Lab.started hrun "gpu"
  have hcurrent := congrArg (Option.map fun settings : HostCapabilities × HostCapacity =>
    (settings.2.maxConcurrentRequests, settings.1.position)) hwritten
  rw [Option.map_map] at hcurrent
  exact ⟨s, hrun, hcurrent⟩

end LlmHomeLab
