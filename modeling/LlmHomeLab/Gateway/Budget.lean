import LlmHomeLab.Gateway.Freshness

/-! # The memory budget of a host

`_fits_in_budget` is asked while a request looks for the hosts that serve its model, and the
request is sent later: in between, other requests can have loaded other models. The gateway is
put together with the memory of one of its hosts here. `within_budget` is the ceiling for the
runs in which nothing is loaded between check and send where it matters, and
`budget_exceeded` a run in which something is.
-/

namespace LlmHomeLab

/-! ## Model -/

/-- The gateway and the memory of a host: the models loaded there, and for each answer of its
`list_models` the request that asked and the models loaded then. -/
structure MemoryState where
  gateway : State
  loaded : Finset String
  told : List (String × Finset String) := []

/-- The host whose backend has been called. A streamed response calls it when it is first
iterated. -/
def Phase.called : Phase → Option String
  | .completing hostId _ => some hostId
  | .streaming _ .starting => none
  | .streaming hostId _ => some hostId
  | _ => none

def Event.changes : Event → Option String
  | .admin e => e.changes
  | _ => none

section

variable (cfg : Config) (hostId : String)

/-- The request and the result, if the event is an answer of the host's `list_models`. -/
def answers (s : State) : Event → Option (String × Except Exn (Option (List String)))
  | .resume requestId (.listed result) _ =>
    match s.requests.get? requestId with
    | none => none
    | some req =>
      match req.phase with
      | .discovering ref _ =>
        if (s.core.registry.heap ref).hostId = hostId then some (requestId, result) else none
      | _ => none
  | _ => none

/-- `list_models` answers with the models that are loaded. -/
def tellsLoaded (loaded : Finset String) : Except Exn (Option (List String)) → Bool
  | .ok (some models) => models.toFinset = loaded
  | _ => false

/-- The request and its model, if this step of the request calls the backend of the host. -/
def sentBy (requestId : String) (s s' : State) : Option (String × String) :=
  match s'.requests.get? requestId with
  | none => none
  | some req =>
    if req.phase.called = some hostId ∧
        (s.requests.get? requestId).bind (fun r => r.phase.called) ≠ some hostId then
      some (requestId, req.body.model)
    else none

/-- The request a step sends to the host, and its model. -/
def sends (s s' : State) : Event → Option (String × String)
  | .admin _ => none
  | .arrive requestId _ _ _ => sentBy hostId requestId s s'
  | .resume requestId _ _ => sentBy hostId requestId s s'

/-- What the host has told, this event included. -/
def MemoryState.toldAfter (b : MemoryState) (e : Event) : List (String × Finset String) :=
  match answers hostId b.gateway e with
  | some (requestId, _) => b.told ++ [(requestId, b.loaded)]
  | none => b.told

/-- The host loads the models of the requests sent to it, and unloads none. -/
def MemoryState.loadedAfter (b : MemoryState) (s' : State) (e : Event) : Finset String :=
  match sends hostId b.gateway s' e with
  | some (_, model) => insert model b.loaded
  | none => b.loaded

/-- A step of the gateway that leaves the host's registration alone, and in which the host's
`list_models`, if it answers, tells the models loaded. -/
def memoryStep (b : MemoryState) (e : Event) : Option MemoryState :=
  if e.changes = some hostId ||
      (answers hostId b.gateway e).any (fun answer => !tellsLoaded b.loaded answer.2) then none
  else (step cfg b.gateway e).map fun s' =>
    ⟨s', b.loadedAfter hostId s' e, b.toldAfter hostId e⟩

/-- A request is sent for a model that is not loaded only while the models loaded are those the
host has told this request. -/
def Unraced (b : MemoryState) (e : Event) : Prop :=
  ∀ s' requestId model, step cfg b.gateway e = some s' →
    sends hostId b.gateway s' e = some (requestId, model) →
    model ∈ b.loaded ∨ ∀ models, (requestId, models) ∈ b.toldAfter hostId e → models = b.loaded

theorem unraced_iff {b : MemoryState} {e : Event} :
    Unraced cfg hostId b e ↔
      ∀ s' ∈ step cfg b.gateway e, ∀ sent ∈ sends hostId b.gateway s' e,
        sent.2 ∈ b.loaded ∨
          ∀ entry ∈ b.toldAfter hostId e, entry.1 = sent.1 → entry.2 = b.loaded := by
  constructor
  · rintro h s' hstep ⟨requestId, model⟩ hsent
    refine (h s' requestId model hstep hsent).imp_right fun hall => ?_
    rintro ⟨id, models⟩ hentry rfl
    exact hall models hentry
  · intro h s' requestId model hstep hsent
    refine (h s' hstep (requestId, model) hsent).imp_right fun hall models hentry => ?_
    exact hall (requestId, models) hentry rfl

instance (b : MemoryState) (e : Event) : Decidable (Unraced cfg hostId b e) :=
  decidable_of_iff _ (unraced_iff cfg hostId).symm

end

/-- The sizes of the models loaded. -/
def totalSize (size : String → ℚ) (loaded : Finset String) : ℚ := ∑ model ∈ loaded, size model

/-- A budget, sizes that are exact, and no list of allowed models. -/
structure Budgeted (capabilities : HostCapabilities) (size : String → ℚ) (budget : ℚ) : Prop where
  allowedModels : capabilities.allowedModels = none
  memoryBudget : capabilities.memoryBudgetGb = some budget
  modelSizes : ∃ sizes, capabilities.modelSizesGb = some sizes ∧
    ∀ {model gb}, sizes.get? model = some gb → gb = size model

/-- Every record of the host has these capabilities. -/
def HasRecords (hostId : String) (capabilities : HostCapabilities) (reg : HostRegistry) : Prop :=
  ∀ ref < reg.next, (reg.heap ref).hostId = hostId → (reg.heap ref).capabilities = capabilities

/-! ## The check -/

theorem loadedSize_eq {sizes : Dict String ℚ} {size : String → ℚ}
    (hexact : ∀ {model gb}, sizes.get? model = some gb → gb = size model) {models : List String}
    {total : ℚ} (h : loadedSize sizes models = some total) : total = (models.map size).sum := by
  induction models generalizing total with
  | nil =>
    cases h
    rfl
  | cons model rest ih =>
    simp only [loadedSize] at h
    obtain ⟨gb, hgb, h⟩ := Option.bind_eq_some_iff.mp h
    obtain ⟨others, hothers, h⟩ := Option.bind_eq_some_iff.mp h
    cases h
    rw [hexact hgb, ih hothers]
    rfl

theorem totalSize_toFinset_le {size : String → ℚ} (hsize : ∀ model, 0 ≤ size model)
    (models : List String) : totalSize size models.toFinset ≤ (models.map size).sum := by
  induction models with
  | nil => simp [totalSize]
  | cons model rest ih =>
    rw [List.toFinset_cons, List.map_cons, List.sum_cons]
    by_cases hmem : model ∈ rest.toFinset
    · rw [Finset.insert_eq_of_mem hmem]
      have hnonneg := hsize model
      linarith
    · rw [totalSize, Finset.sum_insert hmem]
      exact add_le_add (le_refl _) ih

/-- What fits beside the models told, fits beside the models loaded. -/
theorem fitsInBudget_total {capabilities : HostCapabilities} {size : String → ℚ} {budget : ℚ}
    (hsize : ∀ model, 0 ≤ size model) (hbudget : Budgeted capabilities size budget)
    {model : String} {models : List String}
    (h : fitsInBudget capabilities model models = true) :
    totalSize size models.toFinset + size model ≤ budget := by
  obtain ⟨sizes, hsizes, hexact⟩ := hbudget.modelSizes
  simp only [fitsInBudget, hbudget.memoryBudget, hsizes, Option.getD_some] at h
  split at h
  · next requested current hrequested hcurrent =>
    have hfits : current + requested ≤ budget := of_decide_eq_true h
    have htotal := totalSize_toFinset_le hsize models
    rw [← loadedSize_eq hexact hcurrent] at htotal
    rw [← hexact hrequested]
    linarith
  · cases h

/-! ## The host is asked -/

section

variable {cfg : Config} {hostId : String} {capabilities : HostCapabilities} {reg : HostRegistry}
  {a b st st' : Scratch} {P : String → HostCapabilities → Prop}

/-- The backend of the host, if it is in the cache, has a `list_models`. -/
def Scratch.Lists (st : Scratch) (hostId : String) : Prop :=
  ∀ backend, st.backendsById.get? hostId = some backend → backend.hasListModels = true

theorem SameCache.lists (h : SameCache a b) (ha : a.Lists hostId) : b.Lists hostId := by
  intro backend hb
  rw [h.backends] at hb
  exact ha backend hb

theorem Refills.lists (h : Refills cfg P a b)
    (hmade : ∀ caps, P hostId caps → cfg.factory caps = .ok true) (ha : a.Lists hostId) :
    b.Lists hostId := by
  induction h with
  | same same => exact same.lists ha
  | @build b c id caps l before asked made after ih =>
    refine after.lists fun backend hb => ?_
    simp only [Scratch.cache, Dict.get?_set] at hb
    split at hb
    · next hid =>
      cases hb
      rw [← hid] at asked
      have hl := (hmade caps asked).symm.trans made
      cases hl
      rfl
    · exact ih backend hb

theorem backendFor_lists {backend : Backend} (hmade : cfg.factory capabilities = .ok true)
    (hlists : st.Lists hostId) (h : backendFor cfg hostId capabilities st = (.ok backend, st')) :
    backend.hasListModels = true := by
  have hbuild : ∀ {backend : Backend} {st' : Scratch},
      buildBackend cfg hostId capabilities st = (.ok backend, st') →
      backend.hasListModels = true := by
    intro backend st' hb
    rw [buildBackend, hmade] at hb
    cases hb
    rfl
  unfold backendFor at h
  split at h
  · exact hbuild h
  · next cached hcached =>
    split at h
    · cases h
    · split at h
      · cases h
        exact hlists backend hcached
      · exact hbuild h

/-- A host with a budget is put among the capable ones by an answer of its `list_models` only. -/
structure IsAsked (cfg : Config) (hostId : String) (capabilities : HostCapabilities)
    (reg : HostRegistry) (st : Scratch) : Prop where
  records : HasRecords hostId capabilities reg
  allowedModels : capabilities.allowedModels = none
  made : cfg.factory capabilities = .ok true
  lists : st.Lists hostId

theorem IsAsked.later (h : IsAsked cfg hostId capabilities reg a) (hlists : b.Lists hostId) :
    IsAsked cfg hostId capabilities reg b :=
  ⟨h.records, h.allowedModels, h.made, hlists⟩

def DiscoveryStop.capable : DiscoveryStop → List Nat
  | .done capable _ => capable
  | .awaiting _ d => d.capable
  | .raised _ => []

theorem discover_capable {model : String} {refs capable : List Nat} {blocked : Bool}
    (hasked : IsAsked cfg hostId capabilities reg st) (hexist : ∀ ref ∈ refs, ref < reg.next)
    {ref : Nat} (href : ref ∈ (discover cfg reg model capable blocked refs st).1.capable)
    (hid : (reg.heap ref).hostId = hostId) : ref ∈ capable := by
  induction refs generalizing capable st with
  | nil => exact href
  | cons x rest ih =>
    have hx : (reg.heap x).hostId = hostId → (reg.heap x).capabilities = capabilities :=
      hasked.records x (hexist x List.mem_cons_self)
    have hrest : ∀ ref ∈ rest, ref < reg.next := fun ref href =>
      hexist ref (List.mem_cons_of_mem x href)
    unfold discover at href
    simp only at href
    split at href
    · next allowed hallowed =>
      -- a record with a list of allowed models is not of this host
      have hmem := ih hasked hrest href
      split at hmem
      · rcases List.mem_append.mp hmem with hmem | hmem
        · exact hmem
        · rw [List.mem_singleton.mp hmem] at hid
          rw [hx hid, hasked.allowedModels] at hallowed
          cases hallowed
      · exact hmem
    · split at href
      · cases href
      · next backend st₁ hb =>
        split at href
        · exact href
        · next hnone =>
          have hrefills : Refills cfg (Presents reg [x]) st st₁ :=
            backendFor_presents List.mem_cons_self hb
          have hlists : st₁.Lists hostId := by
            refine hrefills.lists ?_ hasked.lists
            rintro caps ⟨y, hy, hyid, hycaps⟩
            rw [List.mem_singleton.mp hy] at hyid hycaps
            rw [← hycaps, hx hyid]
            exact hasked.made
          rcases List.mem_append.mp (ih (hasked.later hlists) hrest href) with hmem | hmem
          · exact hmem
          · rw [List.mem_singleton.mp hmem] at hid
            rw [hid, hx hid] at hb
            exact absurd (backendFor_lists hasked.made hasked.lists hb) hnone

end

/-! ## The hosts a request is bound for -/

section

variable {cfg : Config} {requestId hostId : String} {now : Int} {core core' : Core}
  {req req' : Request} {reg : HostRegistry} {capabilities : HostCapabilities}

/-- The records of the hosts that have been found capable. -/
def Request.cleared (req : Request) : List Nat :=
  match req.phase with
  | .discovering _ d => d.capable
  | .waiting w => w.modelHosts
  | _ => []

/-- The host a request has got a slot of. -/
def Phase.host : Phase → Option String
  | .completing hostId _ => some hostId
  | .streaming hostId _ => some hostId
  | _ => none

/-- One of the records is of the host. -/
def Names (reg : HostRegistry) (refs : List Nat) (hostId : String) : Prop :=
  ∃ ref ∈ refs, (reg.heap ref).hostId = hostId

/-- The host has been found capable, or the request has got a slot of it. -/
def Request.BoundFor (req : Request) (reg : HostRegistry) (hostId : String) : Prop :=
  Names reg req.cleared hostId ∨ req.phase.host = some hostId

theorem called_host {phase : Phase} (h : phase.called = some hostId) :
    phase.host = some hostId := by
  unfold Phase.called at h
  split at h
  · exact h
  · cases h
  · exact h
  · cases h

theorem not_boundFor_ended {outcome : Outcome} (h : req.phase = .ended outcome) :
    ¬ req.BoundFor reg hostId := by
  rintro (⟨ref, href, -⟩ | hhost)
  · simp [Request.cleared, h] at href
  · simp [Phase.host, h] at hhost

theorem boundFor_streaming {id : String} {stream : StreamPhase}
    (hphase : req.phase = .streaming id stream) (h : req.BoundFor reg hostId) : id = hostId := by
  rcases h with ⟨ref, href, -⟩ | hhost
  · simp [Request.cleared, hphase] at href
  · simpa [Phase.host, hphase] using hhost

theorem boundFor_completing {id : String} {failoverInPlay : Bool}
    (hphase : req.phase = .completing id failoverInPlay) (h : req.BoundFor reg hostId) :
    id = hostId := by
  rcases h with ⟨ref, href, -⟩ | hhost
  · simp [Request.cleared, hphase] at href
  · simpa [Phase.host, hphase] using hhost

theorem openStream_bound {id : String} {failoverInPlay : Bool}
    (h : (openStream requestId core req id failoverInPlay).2.BoundFor reg hostId) :
    id = hostId := by
  unfold openStream releaseThen at h
  simp only at h
  split at h
  · exact boundFor_streaming rfl h
  · split at h <;> exact absurd h (not_boundFor_ended rfl)

theorem route_bound {candidates : List RoutingCandidate} {failoverInPlay : Bool}
    (h : (route requestId core req candidates failoverInPlay).2.BoundFor reg hostId) :
    ∃ c ∈ candidates, c.backend.backendId = hostId := by
  unfold route at h
  simp only at h
  split at h
  · exact absurd h (not_boundFor_ended rfl)
  · next decision router hselect =>
    obtain ⟨c, hc, hid⟩ := RoutingEngine.selectBackend_mem hselect
    refine ⟨c, hc, hid.trans ?_⟩
    split at h
    · split at h
      · exact absurd h (not_boundFor_ended rfl)
      · split at h
        · exact openStream_bound h
        · exact boundFor_completing rfl h
    · exact absurd h (not_boundFor_ended rfl)

theorem sleepAgain_bound {modelHosts : List Nat} {failoverInPlay : Bool} {waited : ℚ}
    (h : (sleepAgain cfg requestId core req ⟨modelHosts, failoverInPlay, waited⟩).2.BoundFor reg
      hostId) : Names reg modelHosts hostId := by
  unfold sleepAgain at h
  split at h
  · rcases h with h | h
    · exact h
    · cases h
  · exact absurd h (not_boundFor_ended rfl)

/-- A candidate is one of the model hosts. -/
theorem names_of_candidate {st st' : Scratch} {modelHosts : List Nat}
    {candidates : List RoutingCandidate}
    (hcand : currentCandidates cfg core.registry core.health req.token modelHosts st =
      (.ok candidates, st')) (h : ∃ c ∈ candidates, c.backend.backendId = hostId) :
    Names core.registry modelHosts hostId := by
  obtain ⟨c, hc, hid⟩ := h
  obtain ⟨ref, href, hhost, -⟩ := currentCandidates_window hcand hc
  exact ⟨ref, href, hhost.trans hid⟩

theorem afterDiscovery_bound {capable : List Nat} {budgetBlocked : Bool}
    (h : (afterDiscovery cfg requestId core req capable budgetBlocked).2.BoundFor core.registry
      hostId) : Names core.registry capable hostId := by
  unfold afterDiscovery leaseNow at h
  simp only [Core.withScratch] at h
  split at h
  · exact absurd h (not_boundFor_ended rfl)
  · split at h
    · exact absurd h (not_boundFor_ended rfl)
    · exact sleepAgain_bound h
    · next hcand => exact names_of_candidate hcand (route_bound h)

/-- Going on with the discovery clears the host no further. -/
theorem continueDiscovery_bound {d : Discovery}
    (hasked : IsAsked cfg hostId capabilities core.registry core.scratch)
    (hexist : ∀ ref ∈ d.pending, ref < core.registry.next)
    (h : (continueDiscovery cfg requestId core req d).2.BoundFor core.registry hostId) :
    Names core.registry d.capable hostId := by
  have hcapable : ∀ {stop : DiscoveryStop} {st : Scratch},
      discover cfg core.registry req.body.model d.capable d.anyBudgetBlocked d.pending
        core.scratch = (stop, st) →
      Names core.registry stop.capable hostId → Names core.registry d.capable hostId := by
    rintro stop st hstop ⟨ref, href, hid⟩
    have hmem : ref ∈ (discover cfg core.registry req.body.model d.capable d.anyBudgetBlocked
        d.pending core.scratch).1.capable := by
      rw [hstop]
      exact href
    exact ⟨ref, discover_capable hasked hexist hmem hid, hid⟩
  unfold continueDiscovery at h
  split at h
  · exact absurd h (not_boundFor_ended rfl)
  · next hstop =>
    rcases h with h | h
    · exact hcapable hstop h
    · cases h
  · next capable budgetBlocked st hstop =>
    have hnames : Names (core.withScratch st).registry capable hostId := afterDiscovery_bound h
    exact hcapable hstop hnames

/-- A request that arrives has to ask the host first. -/
theorem begin_bound (hasked : IsAsked cfg hostId capabilities core.registry core.scratch)
    (hexist : ∀ ref ∈ req.snapshot, ref < core.registry.next) :
    ¬ (begin cfg requestId core req).2.BoundFor core.registry hostId := by
  intro h
  have hnone : ∀ {st : Scratch}, (continueDiscovery cfg requestId (core.withScratch st) req
      ⟨req.snapshot, [], false⟩).2.BoundFor core.registry hostId →
      ¬ SameCache core.scratch st := by
    intro st h hsame
    have hcore : IsAsked cfg hostId capabilities (core.withScratch st).registry
        (core.withScratch st).scratch := hasked.later (hsame.lists hasked.lists)
    obtain ⟨ref, href, -⟩ := continueDiscovery_bound hcore hexist h
    cases href
  unfold begin leaseNow at h
  simp only at h
  split at h
  · exact hnone h ⟨rfl, rfl⟩
  · split at h
    · exact not_boundFor_ended rfl h
    · exact hnone h ⟨rfl, rfl⟩

theorem poll_bound {w : Wait}
    (h : (poll cfg requestId core req w).2.BoundFor core.registry hostId) :
    Names core.registry w.modelHosts hostId := by
  unfold poll at h
  simp only [Core.withScratch] at h
  split at h
  · exact absurd h (not_boundFor_ended rfl)
  · exact sleepAgain_bound h
  · next hcand =>
    split at h
    · exact absurd h (not_boundFor_ended rfl)
    · split at h
      · exact names_of_candidate hcand (route_bound h)
      · exact sleepAgain_bound h

/-- The answer lets the model through. -/
def Passes (capabilities : HostCapabilities) (model : String) : Option (List String) → Prop
  | none => True
  | some models => model ∈ models ∨ fitsInBudget capabilities model models = true

theorem listed_bound {d : Discovery} {model : String} {ref : Nat} {loaded : Option (List String)}
    (h : Names reg (d.listed reg model ref loaded).capable hostId) :
    Names reg d.capable hostId ∨
      (reg.heap ref).hostId = hostId ∧ Passes (reg.heap ref).capabilities model loaded := by
  have hadd : Passes (reg.heap ref).capabilities model loaded →
      Names reg (d.capable ++ [ref]) hostId → Names reg d.capable hostId ∨
        (reg.heap ref).hostId = hostId ∧ Passes (reg.heap ref).capabilities model loaded := by
    rintro hpasses ⟨x, hx, hid⟩
    rcases List.mem_append.mp hx with hx | hx
    · exact Or.inl ⟨x, hx, hid⟩
    · rw [List.mem_singleton.mp hx] at hid
      exact Or.inr ⟨hid, hpasses⟩
  unfold Discovery.listed at h
  simp only at h
  split at h
  · exact hadd trivial h
  · split at h
    · next hpass =>
      refine hadd ?_ h
      simpa [Passes] using hpass
    · split at h <;> exact Or.inl h

theorem eq_of_returns {result : Core × Request} (h : some result = some (core', req')) :
    result.2 = req' := by
  rw [Option.some.inj h]

theorem releaseThen_bound {id : String} {next : Core → Request → Core × Request}
    (hnext : ∀ core req, (next core req).2.BoundFor reg hostId → id = hostId)
    (h : (releaseThen core req id next).2.BoundFor reg hostId) : id = hostId := by
  unfold releaseThen at h
  split at h
  · exact hnext _ _ h
  · exact absurd h (not_boundFor_ended rfl)

theorem afterComplete_bound {id : String} {failoverInPlay : Bool}
    {result : Except Exn BackendResponse}
    (h : (afterComplete requestId now core req id failoverInPlay result).2.BoundFor reg hostId) :
    id = hostId := by
  have hfail : ∀ (e : Exn) (core : Core) (req : Request),
      ((core, req.fail e) : Core × Request).2.BoundFor reg hostId → id = hostId :=
    fun e core req h => absurd h (not_boundFor_ended rfl)
  unfold afterComplete at h
  split at h
  · refine releaseThen_bound (fun core req h => ?_) h
    obtain ⟨outcome, hended⟩ := answer_ends requestId now core req id failoverInPlay _
    exact absurd h (not_boundFor_ended hended)
  · exact releaseThen_bound (hfail _) h
  · exact releaseThen_bound (hfail _) h

theorem resumeStream_bound {id : String} {stream : StreamPhase} {signal : Signal}
    (h : resumeStream now core req id stream signal = some (core', req'))
    (hbound : req'.BoundFor reg hostId) : id = hostId := by
  have hrelease : ∀ {next : Core → Request → Core × Request},
      (∀ core req, (next core req).2.BoundFor reg hostId → id = hostId) →
      some (releaseThen core req id next) = some (core', req') → id = hostId := by
    intro next hnext h
    rw [← eq_of_returns h] at hbound
    exact releaseThen_bound hnext hbound
  have hfail : ∀ (e : Exn) (core : Core) (req : Request),
      ((core, req.fail e) : Core × Request).2.BoundFor reg hostId → id = hostId :=
    fun e core req h => absurd h (not_boundFor_ended rfl)
  unfold resumeStream at h
  split at h
  · cases h
    exact boundFor_streaming rfl hbound
  · exact hrelease (hfail _) h
  · cases h
    exact boundFor_streaming rfl hbound
  · -- after the last chunk: `[DONE]` is sent, or the accounting has raised
    unfold afterLastChunk at h
    split at h
    · exact hrelease (hfail _) h
    · cases h
      exact boundFor_streaming rfl hbound
  · split at h
    · cases h
      exact boundFor_streaming rfl hbound
    · split at h <;> cases h <;> exact boundFor_streaming rfl hbound
  · cases h
    exact boundFor_streaming rfl hbound
  · cases h
    exact boundFor_streaming rfl hbound
  · exact hrelease (fun _ _ h => boundFor_streaming rfl h) h
  · exact hrelease (hfail _) h
  · exact hrelease (hfail _) h
  · exact hrelease (hfail _) h
  · cases h
    exact absurd hbound (not_boundFor_ended rfl)
  · cases h
    exact absurd hbound (not_boundFor_ended rfl)
  · cases h

/-- A request gets bound for the host by an answer of the host that lets it through. -/
theorem resume_bound {signal : Signal}
    (hasked : IsAsked cfg hostId capabilities core.registry core.scratch)
    (hexist : ∀ ref ∈ req.captured, ref < core.registry.next)
    (h : resume cfg requestId now core req signal = some (core', req'))
    (hbound : req'.BoundFor core.registry hostId) :
    req.BoundFor core.registry hostId ∨ ∃ ref d loaded, req.phase = .discovering ref d ∧
      (core.registry.heap ref).hostId = hostId ∧ signal = .listed (.ok loaded) ∧
      Passes capabilities req.body.model loaded := by
  unfold resume at h
  split at h
  · cases h
    exact absurd hbound (not_boundFor_ended rfl)
  · next ref d loaded hphase =>
    have hpending : ∀ x ∈ (d.listed core.registry req.body.model ref loaded).pending,
        x < core.registry.next := fun x hx =>
      hexist x (listed_captured hphase x (List.mem_append_left _ hx))
    have hnames : Names core.registry (d.listed core.registry req.body.model ref loaded).capable
        hostId := by
      rw [← eq_of_returns h] at hbound
      exact continueDiscovery_bound hasked hpending hbound
    rcases listed_bound hnames with hcleared | ⟨hid, hpasses⟩
    · -- cleared before
      left
      left
      simpa [Request.cleared, hphase] using hcleared
    · -- cleared by this answer
      right
      have href : ref < core.registry.next := hexist ref (by simp [Request.captured, hphase])
      rw [hasked.records ref href hid] at hpasses
      exact ⟨ref, d, loaded, hphase, hid, rfl, hpasses⟩
  · next w hphase =>
    -- a poll clears no further host
    left
    left
    rw [← eq_of_returns h] at hbound
    simpa [Request.cleared, hphase] using poll_bound hbound
  · cases h
    exact absurd hbound (not_boundFor_ended rfl)
  · next id failoverInPlay result hphase =>
    -- after the call it stays bound for the host it was sent to
    left
    right
    rw [← eq_of_returns h] at hbound
    rw [hphase]
    exact congrArg some (afterComplete_bound hbound)
  · next id stream _ hphase =>
    left
    right
    rw [hphase]
    exact congrArg some (resumeStream_bound h hbound)
  · cases h

end

/-! ## Records and cache over a step -/

section

variable {cfg : Config} {requestId hostId : String} {capabilities : HostCapabilities}
  {reg reg' : HostRegistry} {req req' : Request} {s s' : State} {core : Core} {e : Event}

theorem HasRecords.settings (h : HasRecords hostId capabilities reg) (hnext : reg'.next = reg.next)
    (hsettings : ∀ ref, SameSettings (reg.heap ref) (reg'.heap ref)) :
    HasRecords hostId capabilities reg' := by
  intro ref href hid
  rw [(hsettings ref).hostId] at hid
  rw [(hsettings ref).capabilities]
  exact h ref (hnext ▸ href) hid

theorem HasRecords.addInFlight {id : String} {d : Int} (h : HasRecords hostId capabilities reg)
    (hadd : reg.addInFlight id d = some reg') : HasRecords hostId capabilities reg' :=
  h.settings (HostRegistry.hosts_addInFlight hadd).2 (HostRegistry.heap_addInFlight hadd)

theorem HasRecords.slotMove (h : HasRecords hostId capabilities reg)
    (hmove : SlotMove reg req reg' req') : HasRecords hostId capabilities reg' := by
  cases hmove with
  | keep | releaseRaises => exact h
  | acquire before acquired => exact h.addInFlight acquired
  | bounce before acquired released => exact (h.addInFlight acquired).addInFlight released
  | release before released => exact h.addInFlight released

theorem HasRecords.register {id : String} (h : HasRecords hostId capabilities reg)
    (hne : id ≠ hostId) (caps : HostCapabilities) (capacity : HostCapacity) (now : Int) :
    HasRecords hostId capabilities (reg.register id caps capacity now) := by
  intro ref href hid
  by_cases hnew : ref = reg.next
  · -- the new record is of another host
    simp only [HostRegistry.register, if_pos hnew] at hid
    exact absurd hid hne
  · have hold : ref < reg.next := Nat.lt_of_le_of_ne (Nat.le_of_lt_succ href) hnew
    rw [HostRegistry.heap_register hold] at hid ⊢
    exact h ref hold hid

theorem HasRecords.registryAfter {a : AdminEvent} (h : HasRecords hostId capabilities reg)
    (hkeeps : a.changes ≠ some hostId) : HasRecords hostId capabilities (registryAfter reg a) := by
  cases a with
  | register id caps capacity now =>
    exact h.register (fun hid => hkeeps (congrArg some hid)) caps capacity now
  | patch id fields now =>
    simp only [LlmHomeLab.registryAfter]
    split
    · exact h
    · exact h.register (fun hid => hkeeps (congrArg some hid)) _ _ now
  | heartbeat id now =>
    simp only [LlmHomeLab.registryAfter]
    cases hbeat : reg.heartbeat id now with
    | none => exact h
    | some reg' =>
      exact h.settings (HostRegistry.hosts_heartbeat hbeat).2 (HostRegistry.heap_heartbeat hbeat)
  | deregister id => exact h.settings rfl fun _ => .refl _
  | _ => exact h

/-- Whoever presents an existing record of the host gets a backend with a `list_models`. -/
theorem IsAsked.made_of_presents {st : Scratch} {refs : List Nat} {caps : HostCapabilities}
    (h : IsAsked cfg hostId capabilities reg st) (hexist : ∀ ref ∈ refs, ref < reg.next)
    (hpresents : Presents reg refs hostId caps) : cfg.factory caps = .ok true := by
  obtain ⟨ref, href, hid, hcaps⟩ := hpresents
  rw [← hcaps, h.records ref (hexist ref href) hid]
  exact h.made

theorem IsAsked.admin {a : AdminEvent}
    (h : IsAsked cfg hostId capabilities s.core.registry s.core.scratch)
    (hkeeps : a.changes ≠ some hostId) (hcore : adminStep cfg s.core a = some core) :
    IsAsked cfg hostId capabilities core.registry core.scratch := by
  refine ⟨?_, h.allowedModels, h.made, ?_⟩
  · rw [(admin_queue hcore).2]
    exact h.records.registryAfter hkeeps
  · rcases admin_cache hcore with ⟨liveIds, hpruned⟩ | hrefills
    · intro backend hb
      simp only [hpruned, Scratch.prune, Dict.get?_filter, Option.filter_eq_some_iff] at hb
      exact h.lists backend hb.1
    · exact hrefills.lists (fun caps => h.made_of_presents fun ref => List.mem_range.mp) h.lists

theorem IsAsked.own {sel : List Nat × List RoutingCandidate}
    (h : IsAsked cfg hostId capabilities s.core.registry s.core.scratch)
    (hinv : CacheInv s) (hqueue : QueueInv s) (hactor : Actor s requestId req e)
    (hmoves : Moves cfg requestId s.core req core req')
    (hselects : Selects cfg s.core req core req' sel) :
    IsAsked cfg hostId capabilities core.registry core.scratch := by
  refine ⟨h.records.slotMove hmoves.slot, h.allowedModels, h.made, ?_⟩
  refine hselects.refills.lists (fun caps hasked => ?_) h.lists
  rcases hasked with hpresents | ⟨id, w, hw, hpresents⟩
  · exact h.made_of_presents (hinv.actor hactor).1 hpresents
  · -- a callback in the queue is of a waiting request
    obtain ⟨waiting, ⟨hget, hhosts⟩, -⟩ := hqueue.callback hw
    refine h.made_of_presents (fun ref href => hinv.exist hget ref ?_) hpresents
    cases hphase : waiting.phase with
    | waiting wait =>
      rw [hphase] at hhosts
      have heq : wait.modelHosts = w.modelHosts := Option.some.inj hhosts
      simpa [Request.captured, hphase, heq] using href
    | _ =>
      rw [hphase] at hhosts
      cases hhosts

end

/-! ## The budget over a run -/

section

variable {cfg : Config} {requestId hostId : String} {capabilities : HostCapabilities}
  {size : String → ℚ} {budget : ℚ} {reg reg' : HostRegistry} {req req' : Request}
  {s s' s₀ : State} {core : Core} {e : Event} {es : List Event} {b b' : MemoryState}

theorem cleared_captured (req : Request) : ∀ ref ∈ req.cleared, ref ∈ req.captured := by
  intro ref href
  unfold Request.cleared at href
  split at href
  · next x d hphase => simp [Request.captured, hphase, href]
  · next w hphase => simpa [Request.captured, hphase] using href
  · cases href

theorem boundFor_keeps (hobjects : KeepsObjects reg reg')
    (hexist : ∀ ref ∈ req.captured, ref < reg.next) (h : req.BoundFor reg' hostId) :
    req.BoundFor reg hostId := by
  rcases h with ⟨ref, href, hid⟩ | hhost
  · rw [(hobjects.settings (hexist ref (cleared_captured req ref href))).hostId] at hid
    exact Or.inl ⟨ref, href, hid⟩
  · exact Or.inr hhost

/-- After a move of one request, the requests bound for the host are that one and such as were so
before. -/
theorem own_bound {id : String} {r r' : Request} (hinv : CacheInv s) (hactor : Actor s id r e)
    (hmoves : Moves cfg id s.core r core r')
    (hreq' : (s.requests.set id r').get? requestId = some req')
    (hbound : req'.BoundFor core.registry hostId) :
    (requestId = id ∧ req' = r' ∧ r'.BoundFor s.core.registry hostId) ∨
      (s.requests.get? requestId = some req' ∧ req'.BoundFor s.core.registry hostId) := by
  obtain ⟨hobjects, -⟩ := hmoves.slot.keepsObjects
  rw [Dict.get?_set] at hreq'
  split at hreq'
  · next hid =>
    cases hreq'
    refine Or.inl ⟨hid, rfl, boundFor_keeps hobjects (fun ref href => ?_) hbound⟩
    exact (hinv.actor hactor).1 ref (hmoves.captured ref href)
  · exact Or.inr ⟨hreq', boundFor_keeps hobjects (hinv.exist hreq') hbound⟩

/-- The event is an answer of the host to the request, and lets it through. -/
def Admits (capabilities : HostCapabilities) (hostId requestId model : String) (s : State)
    (e : Event) : Prop :=
  ∃ loaded, answers hostId s e = some (requestId, .ok loaded) ∧ Passes capabilities model loaded

/-- A request that is bound for the host was so before the step, or the step is the answer that
lets it through. -/
theorem step_bound (hasked : IsAsked cfg hostId capabilities s.core.registry s.core.scratch)
    (hinv : CacheInv s) (hbook : s.core.scratch.book.Consistent) (h : step cfg s e = some s')
    (hreq' : s'.requests.get? requestId = some req')
    (hbound : req'.BoundFor s'.core.registry hostId) :
    (∃ req, s.requests.get? requestId = some req ∧ req.body = req'.body ∧
      req.BoundFor s.core.registry hostId) ∨
      Admits capabilities hostId requestId req'.body.model s e := by
  rcases step_cases h with ⟨a, core, rfl, hcore, rfl⟩ | ⟨id, req, core, r', hran, rfl⟩
  · have hobjects := keepsObjects_registryAfter s.core.registry a
    rw [← (admin_queue hcore).2] at hobjects
    exact Or.inl ⟨req', hreq', rfl, boundFor_keeps hobjects (hinv.exist hreq') hbound⟩
  · have hmoves := hran.moves hbook
    rcases own_bound hinv hran.actor hmoves hreq' hbound with ⟨rfl, rfl, hnew⟩ | ⟨hold, hbound⟩
    · cases hran with
      | begins absent =>
        exact absurd hnew (begin_bound hasked fun ref href => HostRegistry.hostRefs_lt href)
      | resumes present returns =>
        rcases resume_bound hasked (hinv.exist present) returns hnew with
          hbound | ⟨ref, d, loaded, hphase, hid, rfl, hpasses⟩
        · exact Or.inl ⟨req, present, hmoves.params.body.symm, hbound⟩
        · -- the host has just answered
          refine Or.inr ⟨loaded, ?_, ?_⟩
          · simp [answers, present, hphase, hid]
          · rw [hmoves.params.body]
            exact hpasses
    · exact Or.inl ⟨req', hold, rfl, hbound⟩

/-- Everything a step with the memory can do. -/
theorem memoryStep_cases (h : memoryStep cfg hostId b e = some b') :
    e.changes ≠ some hostId ∧
      (∀ id result, answers hostId b.gateway e = some (id, result) →
        tellsLoaded b.loaded result = true) ∧
      ∃ s', step cfg b.gateway e = some s' ∧
        b' = ⟨s', b.loadedAfter hostId s' e, b.toldAfter hostId e⟩ := by
  unfold memoryStep at h
  split at h
  · cases h
  · next hguard =>
    simp only [Bool.or_eq_true, decide_eq_true_eq, not_or] at hguard
    obtain ⟨hchanges, htells⟩ := hguard
    obtain ⟨s', hstep, rfl⟩ := Option.map_eq_some_iff.mp h
    refine ⟨hchanges, fun id result hanswer => ?_, s', hstep, rfl⟩
    simpa [hanswer] using htells

/-- The gateway's part of a run with the memory. -/
theorem memory_run {G : MemoryState → Event → Prop} {b₀ : MemoryState}
    (hrun : Run (Guarded G (Fires (memoryStep cfg hostId))) b₀ es b) :
    Run (Fires (step cfg)) b₀.gateway es b.gateway := by
  induction hrun with
  | nil => exact .nil
  | snoc _ hnext ih =>
    obtain ⟨-, -, s', hstep, rfl⟩ := memoryStep_cases hnext.2
    exact .snoc ih hstep

/-- The model is loaded, or it fitted beside the models the host told the request. -/
def Passed (size : String → ℚ) (budget : ℚ) (loaded : Finset String)
    (told : List (String × Finset String)) (requestId model : String) : Prop :=
  model ∈ loaded ∨
    ∃ models, (requestId, models) ∈ told ∧ totalSize size models + size model ≤ budget

structure MemoryInv (cfg : Config) (hostId : String) (capabilities : HostCapabilities)
    (size : String → ℚ) (budget : ℚ) (b : MemoryState) : Prop where
  asked : IsAsked cfg hostId capabilities b.gateway.core.registry b.gateway.core.scratch
  passed : ∀ {id req}, b.gateway.requests.get? id = some req →
    req.BoundFor b.gateway.core.registry hostId →
    Passed size budget b.loaded b.told id req.body.model
  within : totalSize size b.loaded ≤ budget

theorem told_toldAfter {b : MemoryState} {entry : String × Finset String} (h : entry ∈ b.told) :
    entry ∈ b.toldAfter hostId e := by
  unfold MemoryState.toldAfter
  split
  · exact List.mem_append_left _ h
  · exact h

theorem loaded_loadedAfter {b : MemoryState} {model : String} (h : model ∈ b.loaded) :
    model ∈ b.loadedAfter hostId s' e := by
  unfold MemoryState.loadedAfter
  split
  · exact Finset.mem_insert_of_mem h
  · exact h

/-- Who is bound for the host after a step has passed its check. -/
theorem MemoryInv.passes (h : MemoryInv cfg hostId capabilities size budget b)
    (hsize : ∀ model, 0 ≤ size model) (hbudget : Budgeted capabilities size budget)
    (hinv : CacheInv b.gateway) (hbook : b.gateway.core.scratch.book.Consistent)
    (htells : ∀ id result, answers hostId b.gateway e = some (id, result) →
      tellsLoaded b.loaded result = true)
    (hstep : step cfg b.gateway e = some s') (hreq' : s'.requests.get? requestId = some req')
    (hbound : req'.BoundFor s'.core.registry hostId) :
    Passed size budget b.loaded (b.toldAfter hostId e) requestId req'.body.model := by
  rcases step_bound h.asked hinv hbook hstep hreq' hbound with
    ⟨req, hreq, hbody, hbefore⟩ | ⟨loaded, hanswer, hpasses⟩
  · rw [← hbody]
    rcases h.passed hreq hbefore with hloaded | ⟨models, htold, hfits⟩
    · exact Or.inl hloaded
    · exact Or.inr ⟨models, told_toldAfter htold, hfits⟩
  · -- the answer is the set of models loaded
    have htell := htells requestId (.ok loaded) hanswer
    cases loaded with
    | none => cases htell
    | some models =>
      have hset : models.toFinset = b.loaded := of_decide_eq_true htell
      rcases hpasses with hmem | hfits
      · left
        rw [← hset]
        exact List.mem_toFinset.mpr hmem
      · right
        refine ⟨b.loaded, by simp [MemoryState.toldAfter, hanswer], ?_⟩
        rw [← hset]
        exact fitsInBudget_total hsize hbudget hfits

/-- The request that is sent is there after the step, and bound for the host. -/
theorem sends_bound {model : String} (h : sends hostId s s' e = some (requestId, model)) :
    ∃ req', s'.requests.get? requestId = some req' ∧ req'.body.model = model ∧
      req'.BoundFor s'.core.registry hostId := by
  have hsent : ∀ {id : String}, sentBy hostId id s s' = some (requestId, model) →
      ∃ req', s'.requests.get? requestId = some req' ∧ req'.body.model = model ∧
        req'.BoundFor s'.core.registry hostId := by
    intro id h
    unfold sentBy at h
    split at h
    · cases h
    · next req' hreq' =>
      split at h
      · next hcalled =>
        cases h
        exact ⟨req', hreq', rfl, Or.inr (called_host hcalled.1)⟩
      · cases h
  cases e with
  | admin => cases h
  | arrive | resume => exact hsent h

theorem totalSize_insert (size : String → ℚ) {model : String} {loaded : Finset String}
    (hnew : model ∉ loaded) :
    totalSize size (insert model loaded) = totalSize size loaded + size model := by
  rw [totalSize, Finset.sum_insert hnew, add_comm]
  rfl

/-- A step without a race keeps the total within the budget. -/
theorem MemoryInv.withinAfter (h : MemoryInv cfg hostId capabilities size budget b)
    (hunraced : Unraced cfg hostId b e) (hstep : step cfg b.gateway e = some s')
    (hpasses : ∀ id req', s'.requests.get? id = some req' →
      req'.BoundFor s'.core.registry hostId →
      Passed size budget b.loaded (b.toldAfter hostId e) id req'.body.model) :
    totalSize size (b.loadedAfter hostId s' e) ≤ budget := by
  unfold MemoryState.loadedAfter
  split
  · next id model hsends =>
    obtain ⟨req', hreq', rfl, hbound⟩ := sends_bound hsends
    by_cases hloaded : req'.body.model ∈ b.loaded
    · rw [Finset.insert_eq_of_mem hloaded]
      exact h.within
    · rw [totalSize_insert size hloaded]
      rcases hpasses id req' hreq' hbound with hmem | ⟨models, htold, hfits⟩
      · exact absurd hmem hloaded
      · -- nothing has been loaded since the host told its models
        rcases hunraced s' id _ hstep hsends with hmem | hsame
        · exact absurd hmem hloaded
        · rw [← hsame models htold]
          exact hfits
  · exact h.within

theorem MemoryInv.step (h : MemoryInv cfg hostId capabilities size budget b)
    (hsize : ∀ model, 0 ≤ size model) (hbudget : Budgeted capabilities size budget)
    (hinv : CacheInv b.gateway) (hbook : b.gateway.core.scratch.book.Consistent)
    (hqueue : QueueInv b.gateway) (hunraced : Unraced cfg hostId b e)
    (hnext : memoryStep cfg hostId b e = some b') :
    MemoryInv cfg hostId capabilities size budget b' := by
  obtain ⟨hkeeps, htells, s', hstep, rfl⟩ := memoryStep_cases hnext
  have hpasses : ∀ id req', s'.requests.get? id = some req' →
      req'.BoundFor s'.core.registry hostId →
      Passed size budget b.loaded (b.toldAfter hostId e) id req'.body.model :=
    fun id req' => h.passes hsize hbudget hinv hbook htells hstep
  refine ⟨?_, fun hreq' hbound => ?_, h.withinAfter hunraced hstep hpasses⟩
  · rcases step_selects hbook hqueue hstep with
      ⟨a, core, rfl, hcore, rfl⟩ | ⟨id, req, core, req', hactor, hmoves, hselects, rfl⟩
    · exact h.asked.admin hkeeps hcore
    · exact h.asked.own hinv hqueue hactor hmoves hselects
  · rcases hpasses _ _ hreq' hbound with hloaded | htold
    · exact Or.inl (loaded_loadedAfter hloaded)
    · exact Or.inr htold

theorem memoryInv_run {b₀ : MemoryState} (hstart : ColdStart b₀.gateway)
    (hrecords : HasRecords hostId capabilities b₀.gateway.core.registry)
    (hlistModels : cfg.factory capabilities = .ok true)
    (hbudget : Budgeted capabilities size budget) (hsize : ∀ model, 0 ≤ size model)
    (hinit : totalSize size b₀.loaded ≤ budget)
    (hrun : Run (Guarded (Unraced cfg hostId) (Fires (memoryStep cfg hostId))) b₀ es b) :
    MemoryInv cfg hostId capabilities size budget b := by
  induction hrun with
  | nil =>
    refine ⟨⟨hrecords, hbudget.allowedModels, hlistModels, fun backend hb => ?_⟩,
      fun hreq => ?_, hinit⟩
    · simp [hstart.backends] at hb
    · simp [hstart.requests] at hreq
  | snoc hrun hnext ih =>
    -- the gateway alone has made a run of its own, with the invariants of such runs
    have hgateway := memory_run hrun
    exact ih.step hsize hbudget (cacheInv_run hstart hgateway)
      (book_consistent hstart.toStarted hgateway) (queueInv_run hstart.toStarted hgateway)
      hnext.1 hnext.2

/-- The memory budget of a host is a ceiling in every run in which a request for a model that
is not loaded is sent only while the models loaded are those its check was made against. -/
theorem within_budget {b₀ : MemoryState} (hstart : ColdStart b₀.gateway)
    (hrecords : HasRecords hostId capabilities b₀.gateway.core.registry)
    (hlistModels : cfg.factory capabilities = .ok true)
    (hbudget : Budgeted capabilities size budget) (hsize : ∀ model, 0 ≤ size model)
    (hinit : totalSize size b₀.loaded ≤ budget)
    (hrun : Run (Guarded (Unraced cfg hostId) (Fires (memoryStep cfg hostId))) b₀ es b) :
    totalSize size b.loaded ≤ budget :=
  (memoryInv_run hstart hrecords hlistModels hbudget hsize hinit hrun).within

end

/-! ## Two requests for two models -/

namespace Lab

/-- Two models of 6 GB and one of 2 GB, in 10 GB. -/
def budgeted : HostCapabilities where
  backendType := some "ollama"
  contextWindow := some 8192
  baseUrl := some "http://gpu:11434"
  memoryBudgetGb := some 10
  modelSizesGb := some (((Dict.empty.set "m" 6).set "n" 6).set "k" 2)

def sizeGb (model : String) : ℚ := if model = "k" then 2 else 6

/-- The gateway with this one node, on which nothing is loaded. -/
def withNode : MemoryState where
  gateway :=
    { start with
      core :=
        { start.core with
          registry := HostRegistry.empty.register "gpu-1" budgeted ⟨some 2⟩ 0 } }
  loaded := ∅

/-- A streamed request for a model. -/
def askFor (requestId model : String) : Event :=
  .arrive requestId none { model, messages := [⟨"user", "hi"⟩], stream := true } 0

/-- The backend tells the request the models loaded. -/
def tell (requestId : String) (models : List String) : Event :=
  .resume requestId (.listed (.ok (some models))) 0

/-- The response of the request has started: its stream is iterated. -/
def iterate (requestId model : String) : Event :=
  .resume requestId (.sent ⟨requestId, 0, model⟩ (.ok ())) 0

theorem withNode_coldStart : ColdStart withNode.gateway where
  requests := rfl
  queue := rfl
  byHost := rfl
  byToken := rfl
  idle hostId info h := by
    obtain ⟨ref, href, rfl⟩ := Option.map_eq_some_iff.mp h
    have hlt := withNode.gateway.core.registry.refs_lt href
    have hzero : ref = 0 := Nat.lt_one_iff.mp hlt
    subst hzero
    rfl
  backends := rfl
  capabilities := rfl

theorem withNode_records :
    HasRecords "gpu-1" budgeted withNode.gateway.core.registry := by
  intro ref href _
  have hzero : ref = 0 := Nat.lt_one_iff.mp href
  subst hzero
  rfl

theorem budgeted_budgeted : Budgeted budgeted sizeGb 10 := by
  refine ⟨rfl, rfl, _, rfl, fun {model gb} h => ?_⟩
  simp only [Dict.get?_set] at h
  unfold sizeGb
  split at h
  · next heq =>
    cases h
    simp [heq]
  · next hne =>
    rw [if_neg hne]
    split at h
    · exact (Option.some.inj h).symm
    · split at h
      · exact (Option.some.inj h).symm
      · simp at h

theorem sizeGb_nonneg (model : String) : 0 ≤ sizeGb model := by
  unfold sizeGb
  split <;> norm_num

end Lab

/-- One request after the other. -/
theorem within_budget_in_turn :
    ∃ b, Run (Guarded (Unraced Lab.config "gpu-1") (Fires (memoryStep Lab.config "gpu-1")))
        Lab.withNode
        [Lab.askFor "a" "m", Lab.tell "a" [], Lab.iterate "a" "m",
          Lab.askFor "b" "k", Lab.tell "b" ["m"], Lab.iterate "b" "k"] b ∧
      b.loaded = {"m", "k"} ∧ totalSize Lab.sizeGb b.loaded ≤ 10 := by
  have hshows : (exec (guardedStep (Unraced Lab.config "gpu-1") (memoryStep Lab.config "gpu-1"))
      Lab.withNode [Lab.askFor "a" "m", Lab.tell "a" [], Lab.iterate "a" "m",
        Lab.askFor "b" "k", Lab.tell "b" ["m"], Lab.iterate "b" "k"]).map
      (fun b => b.loaded) = some {"m", "k"} := by
    decide +kernel
  obtain ⟨b, hrun, hloaded⟩ := run_of_shows hshows
  have hguarded := run_of_guardedStep hrun
  refine ⟨b, hguarded, hloaded, ?_⟩
  exact within_budget Lab.withNode_coldStart Lab.withNode_records rfl Lab.budgeted_budgeted
    Lab.sizeGb_nonneg (by simp [Lab.withNode, totalSize]) hguarded

/-- Both requests pass the check before the model of either is loaded. -/
theorem budget_exceeded :
    ∃ b, Run (Fires (memoryStep Lab.config "gpu-1")) Lab.withNode
        [Lab.askFor "a" "m", Lab.askFor "b" "n", Lab.tell "a" [], Lab.tell "b" [],
          Lab.iterate "a" "m", Lab.iterate "b" "n"] b ∧
      (ColdStart Lab.withNode.gateway ∧
        HasRecords "gpu-1" Lab.budgeted Lab.withNode.gateway.core.registry ∧
        Lab.config.factory Lab.budgeted = .ok true ∧ Budgeted Lab.budgeted Lab.sizeGb 10 ∧
        (∀ model, 0 ≤ Lab.sizeGb model) ∧ totalSize Lab.sizeGb Lab.withNode.loaded ≤ 10) ∧
      ¬ totalSize Lab.sizeGb b.loaded ≤ 10 := by
  have hshows : (exec (memoryStep Lab.config "gpu-1") Lab.withNode
      [Lab.askFor "a" "m", Lab.askFor "b" "n", Lab.tell "a" [], Lab.tell "b" [],
        Lab.iterate "a" "m", Lab.iterate "b" "n"]).map (fun b => b.loaded) = some {"m", "n"} := by
    decide +kernel
  obtain ⟨b, hrun, hloaded⟩ := run_of_shows hshows
  refine ⟨b, hrun, ⟨Lab.withNode_coldStart, Lab.withNode_records, rfl, Lab.budgeted_budgeted,
    Lab.sizeGb_nonneg, by simp [Lab.withNode, totalSize]⟩, ?_⟩
  have htotal : totalSize Lab.sizeGb {"m", "n"} = 12 := by
    rw [totalSize_insert Lab.sizeGb (by decide), totalSize, Finset.sum_singleton]
    decide +kernel
  rw [hloaded, htotal]
  norm_num

end LlmHomeLab
