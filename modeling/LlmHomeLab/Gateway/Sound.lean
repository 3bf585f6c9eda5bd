import LlmHomeLab.Gateway.Selection
import LlmHomeLab.Gateway.Slots
import LlmHomeLab.Routing.Argmax
import LlmHomeLab.Scheduling.Dispatch

/-! # Records on which nothing raises

The discovery, the candidates, the callbacks in the queue and the router look at the records of all
hosts. `SoundRecord` says of a record what `register` and PATCH do not check; where every record
stored is sound, a request that looks at them goes on or is refused.
-/

namespace LlmHomeLab

/-! ## Statement -/

/-- The exceptions with which a request is refused. -/
def Exn.isRefusal : Exn → Bool
  | .lease _ | .modelNotAvailable _ _ | .modelCapacityExceeded _ | .noAvailableBackend _ => true
  | _ => false

/-- The backend can be built, the limit is an integer other than zero, and if the host can be a
candidate, its window is an integer and its id can stand in a header wherever it can be chosen. -/
structure SoundRecord (cfg : Config) (hostId : String) (capabilities : HostCapabilities)
    (capacity : HostCapacity) : Prop where
  builds : ∃ hasListModels, cfg.factory capabilities = .ok hasListModels
  limit : ∃ limit, capacity.maxConcurrentRequests = some limit ∧ limit ≠ 0
  window : (∃ limit, capacity.maxConcurrentRequests = some limit ∧ 0 < limit) →
    capabilities.allowedModels ≠ some [] →
    ∃ window, capabilities.contextWindow = some window ∧ (isLatin1 hostId = true ∨ window < 0)

def HostInfo.Sound (cfg : Config) (info : HostInfo) : Prop :=
  SoundRecord cfg info.hostId info.capabilities info.capacity

/-- What is stored is sound, no host is deregistered, and no `list_models` raises. -/
def StoresSound (cfg : Config) (s : State) : Event → Prop
  | .admin (.register hostId capabilities capacity _) =>
    SoundRecord cfg hostId capabilities capacity
  | .admin (.patch hostId fields _) =>
    ∀ existing, s.core.registry.lookup hostId = some existing →
      SoundRecord cfg hostId (fields.capabilities existing.capabilities)
        (fields.capacity existing.capacity)
  | .admin (.deregister _) => False
  | .resume _ (.listed (.error _)) _ => False
  | _ => True

/-- No score function raises. -/
def RoutingPolicy.Total (policy : RoutingPolicy) : Prop := ∀ context c, policy.Scores context c

/-- The gateway starts with sound records only. -/
structure SoundStart (cfg : Config) (s : State) : Prop extends Started s where
  registered : ∀ ref < s.core.registry.next, ref ∈ s.core.registry.hostRefs
  sound : ∀ ref < s.core.registry.next, (s.core.registry.heap ref).Sound cfg
  scores : s.core.router.policy.Total

/-- The request goes on, or has been refused. -/
def Phase.Unharmed : Phase → Prop
  | .ended (.failed e) => e.isRefusal = true
  | _ => True

/-- The request has been passed to a backend. -/
def Phase.sent : Phase → Bool
  | .completing _ _ | .streaming _ .starting => true
  | _ => false

/-- What the request has waited for has not raised. -/
def Signal.Returns : Signal → Prop
  | .listed (.error _) | .interrupted _ => False
  | _ => True

def Event.Returns : Event → Prop
  | .resume _ signal _ => signal.Returns
  | _ => True

/-! ## The choice of the backend -/

/-- A candidate whose backend is in the cache and whose host has a counter. -/
structure Ready (core : Core) (c : RoutingCandidate) : Prop where
  registered : core.registry.hosts.contains c.backend.backendId = true
  cached : core.scratch.backendsById.contains c.backend.backendId = true
  window : ∃ window, c.contextWindow = some window ∧
    (isLatin1 c.backend.backendId = true ∨ window < 0)

namespace RoutingEngine

variable {router router' : RoutingEngine} {request : ChatCompletionRequest}
  {candidates : List RoutingCandidate} {sessionId : Option String} {decision : RoutingDecision}

theorem selectBackend_total (hwindows : ∀ c ∈ candidates, c.contextWindow ≠ none)
    (hscores : router.policy.Total)
    (hfits : ∃ c ∈ candidates, c.hasWindow (neededWindow request) = true) :
    ∃ result, router.selectBackend request candidates sessionId = .ok result := by
  have heligible : eligibleFor (neededWindow request) candidates = _ := eligibleFor_eq hwindows
  cases hlist : candidates.filter (·.hasWindow (neededWindow request)) with
  | nil =>
    obtain ⟨c, hc, hwindow⟩ := hfits
    exact absurd hwindow (List.filter_eq_nil_iff.mp hlist c hc)
  | cons first rest =>
    rw [hlist] at heligible
    have hscored : ∃ scored, scoreCandidates router.policy
        ⟨request.taskType, neededWindow request⟩ (first :: rest) (.empty, .empty) = .ok scored :=
      (scoreCandidates_ok_iff _ _ _ _).mpr fun c _ =>
        (candidateScore_isSome _ _ c).mpr (hscores _ c)
    obtain ⟨scored, hscored⟩ := hscored
    refine ⟨router.choose scored sessionId first rest, ?_⟩
    unfold selectBackend
    simp only [estimateTokenBudget_eq, heligible, hscored, Json.except_ok_bind]
    rfl

/-- A backend is selected only where every window is an integer, and it has the window. -/
theorem selectBackend_fits
    (h : router.selectBackend request candidates sessionId = .ok (decision, router')) :
    ∃ c ∈ candidates, c.backend.backendId = decision.backendId ∧
      c.hasWindow (neededWindow request) = true := by
  have hwindows : ∀ c ∈ candidates, c.contextWindow ≠ none := by
    intro c hc hnone
    rw [selectBackend_null ⟨c, hc, hnone⟩] at h
    cases h
  obtain ⟨first, rest, scored, heligible, hscored, hchoice⟩ := selectBackend_ok h
  obtain ⟨c, hc, hid⟩ := choose_mem hscored sessionId
  rw [hchoice] at hid
  rw [estimateTokenBudget_eq, eligibleFor_eq hwindows] at heligible
  rw [← Except.ok.inj heligible] at hc
  exact ⟨c, (List.mem_filter.mp hc).1, hid, (List.mem_filter.mp hc).2⟩

end RoutingEngine

section

variable {cfg : Config} {requestId : String} {core : Core} {req : Request}
  {candidates : List RoutingCandidate} {failoverInPlay : Bool}

theorem Ready.windows (h : ∀ c ∈ candidates, Ready core c) :
    ∀ c ∈ candidates, c.contextWindow ≠ none := by
  intro c hc
  obtain ⟨window, hwindow, -⟩ := (h c hc).window
  rw [hwindow]
  exact Option.some_ne_none window

/-- A request with the window of a candidate is passed to a backend. -/
theorem route_sent (hready : ∀ c ∈ candidates, Ready core c) (hscores : core.router.policy.Total)
    (hfits : ∃ c ∈ candidates, c.hasWindow (neededWindow req.body) = true) :
    (route requestId core req candidates failoverInPlay).2.phase.sent = true := by
  have hwindows := Ready.windows hready
  obtain ⟨⟨decision, router⟩, hselect⟩ : ∃ result,
      core.router.selectBackend req.body candidates req.body.sessionId = .ok result :=
    RoutingEngine.selectBackend_total hwindows hscores hfits
  obtain ⟨c, hc, hid, hfit⟩ := RoutingEngine.selectBackend_fits hselect
  obtain ⟨hregistered, hcached, window, hwindow, hheader⟩ := hready c hc
  rw [hid] at hregistered hcached hheader
  obtain ⟨ref, href⟩ := (Dict.contains_iff _).mp hregistered
  -- a host that is chosen has a window that is not negative
  have hlatin : isLatin1 decision.backendId = true := by
    refine hheader.resolve_right fun hneg => ?_
    have hneeded : 0 ≤ neededWindow req.body := by
      rw [← estimateTokenBudget_eq]
      exact Int.natCast_nonneg _
    simp only [RoutingCandidate.hasWindow, hwindow, Option.any_some, decide_eq_true_eq] at hfit
    omega
  simp only [route, hselect, hcached, if_true, HostRegistry.acquireSlot, HostRegistry.addInFlight,
    href, Option.map_some]
  split
  · simp [openStream, hlatin, Phase.sent]
  · rfl

/-- Where the router chooses among ready candidates, nothing raises. -/
theorem route_unharmed (hready : ∀ c ∈ candidates, Ready core c)
    (hscores : core.router.policy.Total) :
    (route requestId core req candidates failoverInPlay).2.phase.Unharmed := by
  by_cases hfits : ∃ c ∈ candidates, c.hasWindow (neededWindow req.body) = true
  · have hsent : (route requestId core req candidates failoverInPlay).2.phase.sent = true :=
      route_sent hready hscores hfits
    cases hphase : (route requestId core req candidates failoverInPlay).2.phase with
    | ended outcome =>
      rw [hphase] at hsent
      cases hsent
    | _ => trivial
  · -- no window is large enough
    have hnone : ∀ c ∈ candidates, c.hasWindow (neededWindow req.body) = false :=
      fun c hc => Bool.eq_false_iff.mpr fun hfit => hfits ⟨c, hc, hfit⟩
    unfold route
    simp only [RoutingEngine.selectBackend_refused (Ready.windows hready) hnone]
    rfl

end

/-! ## Looking at sound records -/

/-- Every record is sound and of a registered host, and no counter is negative. -/
structure SoundRegistry (cfg : Config) (reg : HostRegistry) : Prop where
  sound : ∀ ref < reg.next, (reg.heap ref).Sound cfg
  registered : ∀ ref < reg.next, reg.hosts.contains (reg.heap ref).hostId = true
  inFlight : ∀ ref < reg.next, 0 ≤ (reg.heap ref).inFlight

/-- Records there are, of hosts that may serve some model. -/
def Offers (reg : HostRegistry) (refs : List Nat) : Prop :=
  ∀ ref ∈ refs, ref < reg.next ∧ (reg.heap ref).capabilities.allowedModels ≠ some []

section

variable {cfg : Config} {reg : HostRegistry} {health : HealthMonitor} {token : Option String}
  {modelHosts : List Nat} {candidates : List RoutingCandidate} {st st' : Scratch}
  {hostId : String} {capabilities : HostCapabilities}

theorem HostInfo.Sound.buildable {info : HostInfo} (h : info.Sound cfg) : Buildable cfg info := by
  obtain ⟨limit, hlimit, hzero⟩ := h.limit
  exact ⟨⟨limit, hlimit, fun _ => hzero⟩, h.builds⟩

/-- A record with a free slot has a positive limit. -/
theorem HostInfo.Sound.window_of_free {info : HostInfo} (h : info.Sound cfg) (hfree : info.Free)
    (hidle : 0 ≤ info.inFlight) (hallowed : info.capabilities.allowedModels ≠ some []) :
    ∃ window, info.capabilities.contextWindow = some window ∧
      (isLatin1 info.hostId = true ∨ window < 0) := by
  obtain ⟨limit, hlimit, hlt⟩ := hfree
  exact h.window ⟨limit, hlimit, lt_of_le_of_lt hidle hlt⟩ hallowed

theorem backendFor_cached {backend : Backend}
    (h : backendFor cfg hostId capabilities st = (.ok backend, st')) :
    st'.backendsById.contains hostId = true := by
  have hbuild : ∀ {b : Backend} {st' : Scratch},
      buildBackend cfg hostId capabilities st = (.ok b, st') →
      st'.backendsById.contains hostId = true := by
    intro b st' hb
    unfold buildBackend at hb
    split at hb
    · cases hb
    · cases hb
      exact (Dict.contains_set_iff _).mpr (Or.inl rfl)
  unfold backendFor at h
  split at h
  · exact hbuild h
  · next hcached =>
    split at h
    · cases h
    · split at h
      · cases h
        exact (Dict.contains_iff _).mpr ⟨_, hcached⟩
      · exact hbuild h

/-- Filling the cache takes nothing out of it. -/
theorem Refills.contains {P : String → HostCapabilities → Prop} (h : Refills cfg P st st')
    (hcached : st.backendsById.contains hostId = true) :
    st'.backendsById.contains hostId = true := by
  induction h with
  | same same =>
    rw [same.backends]
    exact hcached
  | build _ _ _ after ih =>
    rw [after.backends]
    exact (Dict.contains_set_iff _).mpr (Or.inr ih)

theorem eligibleCandidates_cached {refs : List Nat}
    (h : eligibleCandidates cfg reg health refs st = (.ok candidates, st'))
    {c : RoutingCandidate} (hc : c ∈ candidates) :
    st'.backendsById.contains c.backend.backendId = true := by
  induction refs generalizing st candidates with
  | nil =>
    cases h
    cases hc
  | cons ref rest ih =>
    rcases eligibleCandidates_cons h with
      ⟨-, hothers⟩ | ⟨backend, latencyMs, st₁, others, -, -, hb, hothers, rfl⟩
    · exact ih hothers hc
    · rcases List.mem_cons.mp hc with rfl | hc
      · have hrefills : Refills cfg (Presents reg rest) st₁
            (eligibleCandidates cfg reg health rest st₁).2 := eligibleCandidates_refills rest st₁
        rw [hothers] at hrefills
        refine hrefills.contains ?_
        rw [backendFor_ok hb]
        exact backendFor_cached hb
      · exact ih hothers hc

theorem currentCandidates_cached
    (h : currentCandidates cfg reg health token modelHosts st = (.ok candidates, st'))
    {c : RoutingCandidate} (hc : c ∈ candidates) :
    st'.backendsById.contains c.backend.backendId = true := by
  unfold currentCandidates leaseNow at h
  simp only at h
  cases token with
  | none => exact eligibleCandidates_cached h hc
  | some token =>
    simp only at h
    split at h
    · cases h
    · exact eligibleCandidates_cached h hc

/-- The candidates that are found among sound records are ready. -/
theorem SoundRegistry.ready (hreg : SoundRegistry cfg reg) (hbook : st.book.Consistent)
    (hoffers : Offers reg modelHosts)
    (h : currentCandidates cfg reg health token modelHosts st = (.ok candidates, st'))
    {core : Core} (hregistry : core.registry = reg)
    (hcache : ∀ id, st'.backendsById.contains id = true →
      core.scratch.backendsById.contains id = true) :
    ∀ c ∈ candidates, Ready core c := by
  intro c hc
  obtain ⟨ref, href, hid, hfree, -, -, hwindow⟩ := mem_currentCandidates hbook h hc
  obtain ⟨hexists, hallowed⟩ := hoffers ref href
  refine ⟨?_, hcache _ (currentCandidates_cached h hc), ?_⟩
  · rw [hregistry, ← hid]
    exact hreg.registered ref hexists
  · rw [hwindow, ← hid]
    exact (hreg.sound ref hexists).window_of_free hfree (hreg.inFlight ref hexists) hallowed

end

/-! ## A step of a request -/

/-- The hosts a request has found capable, and the one whose models it asks for. -/
def Request.found (req : Request) : List Nat :=
  match req.phase with
  | .discovering ref d => ref :: d.capable
  | .waiting w => w.modelHosts
  | _ => []

/-- The same of a discovery. -/
def DiscoveryStop.found : DiscoveryStop → List Nat
  | .done capable _ => capable
  | .awaiting ref d => ref :: d.capable
  | .raised _ => []

/-- The records, the routing policy and the callbacks in the queue raise nothing. -/
structure SoundCore (cfg : Config) (core : Core) : Prop where
  registry : SoundRegistry cfg core.registry
  book : core.scratch.book.Consistent
  scores : core.router.policy.Total
  wf : core.queue.WF
  callbacks : ∀ {id w}, core.queue.eligibility.get? id = some w →
    ∀ ref ∈ w.modelHosts, ref < core.registry.next

/-- The request goes on with hosts that may serve some model, or it has been refused. -/
structure Request.Fine (req : Request) (reg : HostRegistry) : Prop where
  unharmed : req.phase.Unharmed
  found : Offers reg req.found

section

variable {cfg : Config} {requestId : String} {now : Int} {core core' : Core} {req req' : Request}
  {capable : List Nat} {budgetBlocked : Bool} {w : Wait}

theorem found_captured (req : Request) : ∀ ref ∈ req.found, ref ∈ req.captured := by
  intro ref href
  unfold Request.found at href
  split at href
  · next x d hphase =>
    simp only [List.mem_cons] at href
    simp only [Request.captured, hphase, List.mem_cons, List.mem_append]
    exact href.imp_right Or.inr
  · next w hphase => simpa [Request.captured, hphase] using href
  · cases href

theorem found_of_not_before (h : req.phase.stage ≠ .before) : req.found = [] := by
  rw [List.eq_nil_iff_forall_not_mem]
  intro ref href
  have hcaptured := found_captured req ref href
  rw [captured_of_not_before h] at hcaptured
  cases hcaptured

/-- A host is found only if its list of allowed models, where it has one, names a model. -/
theorem discover_found (cfg : Config) (reg : HostRegistry) (model : String) {refs : List Nat}
    {budgetBlocked : Bool} {st : Scratch} (hexist : ∀ ref ∈ refs, ref < reg.next)
    (h : Offers reg capable) :
    Offers reg (discover cfg reg model capable budgetBlocked refs st).1.found := by
  induction refs generalizing capable st with
  | nil => exact h
  | cons ref rest ih =>
    have hrest : ∀ ref ∈ rest, ref < reg.next := fun r hr => hexist r (List.mem_cons_of_mem ref hr)
    have hadd : (reg.heap ref).capabilities.allowedModels ≠ some [] →
        Offers reg (capable ++ [ref]) := by
      intro hallowed r hr
      rcases List.mem_append.mp hr with hr | hr
      · exact h r hr
      · rw [List.mem_singleton.mp hr]
        exact ⟨hexist ref List.mem_cons_self, hallowed⟩
    unfold discover
    simp only
    split
    · next allowed hallowed =>
      apply ih hrest
      split
      · next hmem =>
        apply hadd
        rw [hallowed]
        rintro heq
        rw [Option.some.inj heq] at hmem
        cases hmem
      · exact h
    · next hallowed =>
      have hany : (reg.heap ref).capabilities.allowedModels ≠ some [] := by simp [hallowed]
      split
      · simp [DiscoveryStop.found, Offers]
      · split
        · intro r hr
          rcases List.mem_cons.mp hr with rfl | hr
          · exact ⟨hexist r List.mem_cons_self, hany⟩
          · exact h r hr
        · exact ih hrest (hadd hany)

/-- Where every backend can be built, a discovery does not raise. -/
theorem discover_not_raised (cfg : Config) (reg : HostRegistry) (model : String) {refs : List Nat}
    (hbuilds : ∀ ref ∈ refs, ∃ b, cfg.factory (reg.heap ref).capabilities = .ok b)
    (capable : List Nat) (budgetBlocked : Bool) (st : Scratch) (e : Exn) :
    (discover cfg reg model capable budgetBlocked refs st).1 ≠ .raised e := by
  induction refs generalizing capable st with
  | nil => simp [discover]
  | cons ref rest ih =>
    have hrest := fun r hr => hbuilds r (List.mem_cons_of_mem ref hr)
    unfold discover
    simp only
    split
    · exact ih hrest _ _
    · obtain ⟨backend, st', hb⟩ := backendFor_of_factory (reg.heap ref).hostId
        (hbuilds ref List.mem_cons_self) st
      rw [hb]
      simp only
      split
      · simp
      · exact ih hrest _ _

theorem fine_of_refusal {e : Exn} (h : e.isRefusal = true) (reg : HostRegistry) :
    (req.fail e).Fine reg :=
  ⟨h, by simp [Request.found, Request.fail, Offers]⟩

/-- What is routed has left the discovery and the queue. -/
theorem route_stage (core : Core) (req : Request) (candidates : List RoutingCandidate)
    (failoverInPlay : Bool) :
    (route requestId core req candidates failoverInPlay).2.phase.stage ≠ .before := by
  unfold route openStream releaseThen
  simp only
  split
  · exact Stage.noConfusion
  · split
    · split
      · exact Stage.noConfusion
      · split
        · split
          · exact Stage.noConfusion
          · split <;> exact Stage.noConfusion
        · exact Stage.noConfusion
    · exact Stage.noConfusion

theorem route_fine {candidates : List RoutingCandidate} {failoverInPlay : Bool}
    (hready : ∀ c ∈ candidates, Ready core c) (hscores : core.router.policy.Total)
    (reg : HostRegistry) : (route requestId core req candidates failoverInPlay).2.Fine reg := by
  refine ⟨route_unharmed hready hscores, ?_⟩
  rw [found_of_not_before (route_stage core req candidates failoverInPlay)]
  simp [Offers]

theorem sleepAgain_fine {reg : HostRegistry} (h : Offers reg w.modelHosts) :
    (sleepAgain cfg requestId core req w).2.Fine reg := by
  unfold sleepAgain
  split
  · exact ⟨trivial, h⟩
  · exact fine_of_refusal rfl reg

theorem usableHosts_refuses {reg : HostRegistry} {leaseTime : Int} {book book' : NodeLeaseBook}
    {e : Exn}
    (h : usableHosts reg req leaseTime capable budgetBlocked book = (.error e, book')) :
    e.isRefusal = true := by
  unfold usableHosts at h
  split at h
  · split at h
    · cases h
      rfl
    · split at h <;> cases h
      rfl
  · simp only at h
    split at h
    · cases h
      split
      · rfl
      · split <;> rfl
    · cases h

theorem SoundCore.buildable (h : SoundCore cfg core) {ref : Nat} (href : ref < core.registry.next) :
    Buildable cfg (core.registry.heap ref) :=
  (h.registry.sound ref href).buildable

theorem afterDiscovery_fine (h : SoundCore cfg core) (hoffers : Offers core.registry capable) :
    (afterDiscovery cfg requestId core req capable budgetBlocked).2.Fine core.registry := by
  unfold afterDiscovery leaseNow
  simp only [Core.withScratch]
  generalize husable : usableHosts _ _ _ _ _ _ = usable
  obtain ⟨checked, book⟩ := usable
  have hlook := looked_usableHosts core.registry req (cfg.leaseClock core.scratch.readings) capable
    budgetBlocked h.book
  rw [husable] at hlook
  simp only
  split
  · exact fine_of_refusal (usableHosts_refuses husable) _
  · generalize hcand : currentCandidates _ _ _ _ _ _ = found
    obtain ⟨result, st⟩ := found
    split
    · next heq =>
      cases heq
      obtain rfl | ⟨hostId, holder, rfl⟩ := currentCandidates_error hlook.consistent
        (fun ref href => h.buildable (hoffers ref href).1) hcand
      · exact fine_of_refusal rfl _
      · exact fine_of_refusal rfl _
    · next heq => exact sleepAgain_fine hoffers
    · next heq =>
      cases heq
      refine route_fine ?_ ?_ _
      · exact h.registry.ready hlook.consistent hoffers hcand rfl fun _ hid => hid
      · exact h.scores

theorem continueDiscovery_fine (h : SoundCore cfg core) {d : Discovery}
    (hpending : ∀ ref ∈ d.pending, ref < core.registry.next)
    (hoffers : Offers core.registry d.capable) :
    (continueDiscovery cfg requestId core req d).2.Fine core.registry := by
  have hfound : Offers core.registry (discover cfg core.registry req.body.model d.capable
      d.anyBudgetBlocked d.pending core.scratch).1.found :=
    discover_found cfg core.registry req.body.model hpending hoffers
  have hraised := discover_not_raised cfg core.registry req.body.model
    (fun ref href => (h.registry.sound ref (hpending ref href)).builds) d.capable
    d.anyBudgetBlocked core.scratch
  have hsame := discover_same cfg core.registry req.body.model d.pending d.capable
    d.anyBudgetBlocked core.scratch
  unfold continueDiscovery
  generalize discover _ _ _ _ _ _ _ = stop at hfound hraised hsame ⊢
  obtain ⟨stop, st⟩ := stop
  cases stop with
  | raised e => exact absurd rfl (hraised e)
  | awaiting ref d => exact ⟨trivial, hfound⟩
  | done capable budgetBlocked =>
    have hcore : SoundCore cfg (core.withScratch st) :=
      ⟨h.registry, (congrArg NodeLeaseBook.Consistent hsame.1).mpr h.book, h.scores, h.wf,
        h.callbacks⟩
    have hafter : (afterDiscovery cfg requestId (core.withScratch st) req capable
        budgetBlocked).2.Fine core.registry := afterDiscovery_fine hcore hfound
    exact hafter

theorem begin_fine (h : SoundCore cfg core) (hsnapshot : ∀ ref ∈ req.snapshot,
      ref < core.registry.next) : (begin cfg requestId core req).2.Fine core.registry := by
  have hfrom : ∀ st : Scratch, st.book.Consistent →
      (continueDiscovery cfg requestId (core.withScratch st) req
        ⟨req.snapshot, [], false⟩).2.Fine core.registry := by
    intro st hbook
    have hcore : SoundCore cfg (core.withScratch st) :=
      ⟨h.registry, hbook, h.scores, h.wf, h.callbacks⟩
    have hcontinue : (continueDiscovery cfg requestId (core.withScratch st) req
        ⟨req.snapshot, [], false⟩).2.Fine (core.withScratch st).registry :=
      continueDiscovery_fine hcore hsnapshot (by simp [Offers])
    exact hcontinue
  unfold begin leaseNow
  simp only
  split
  · exact hfrom _ h.book
  · next token _ =>
    have hlook := NodeLeaseBook.looked_require h.book token
      (cfg.leaseClock core.scratch.readings)
    split
    · exact fine_of_refusal rfl _
    · next hreq =>
      rw [hreq] at hlook
      exact hfrom _ hlook.consistent

/-- With sound records, a dispatch does not raise. -/
theorem dispatchFor_total (h : SoundCore cfg core) (available : List String) :
    ∃ taken, (dispatchFor cfg requestId core available).1 = .ok taken := by
  have hcomparable : ∀ allowed, Comparable allowed
      (core.registry.hostRefs.map core.registry.heap) := by
    intro allowed pre host post hsplit hnull
    have hmem : host ∈ core.registry.hostRefs.map core.registry.heap := by simp [hsplit]
    obtain ⟨ref, href, rfl⟩ := List.mem_map.mp hmem
    obtain ⟨limit, hlimit, -⟩ := (h.registry.sound ref (HostRegistry.hostRefs_lt href)).limit
    rw [hlimit] at hnull
    cases hnull
  refine (SchedulingQueue.dispatch_of_tell (some requestId) h.wf (hcomparable _)
    fun _ => ?_).returns
  refine SchedulingQueue.headsTell_of_tells (fun st => st.book.Consistent) ?_ ?_ h.book
  · intro w st hbook
    exact (queuedHostIds_later cfg core.registry core.health w st).1.consistent hbook
  · intro head _ st hbook
    unfold SchedulingQueue.Tells SchedulingQueue.allowedFor
    split
    · next w hw =>
      obtain ⟨hosts, hhosts⟩ : ∃ hosts,
          (queuedHostIds cfg core.registry core.health w st).1 = .ok hosts :=
        queuedHostIds_total hbook fun ref href => h.buildable (h.callbacks hw ref href)
      exact ⟨some hosts, by simp only [hhosts, Except.map], hcomparable _⟩
    · exact ⟨_, rfl, hcomparable _⟩

/-- What a turn of the wait loop comes to. -/
inductive Turn (cfg : Config) (requestId : String) (core : Core) (req : Request) (w : Wait) :
    Core × Request → Prop
  | refuses {e : Exn} {st : Scratch} {core' : Core}
      (raised : currentCandidates cfg core.registry core.health req.token w.modelHosts
        core.scratch = (.error e, st)) (refused : e.isRefusal = true) :
      Turn cfg requestId core req w (core', req.fail e)
  | asleep {core' : Core} {w' : Wait} (same : w'.modelHosts = w.modelHosts) :
      Turn cfg requestId core req w (sleepAgain cfg requestId core' req w')
  | routed {candidates : List RoutingCandidate} {st : Scratch} {core' : Core}
      {failoverInPlay : Bool}
      (found : currentCandidates cfg core.registry core.health req.token w.modelHosts
        core.scratch = (.ok candidates, st)) (ready : ∀ c ∈ candidates, Ready core' c)
      (scores : core'.router.policy.Total) :
      Turn cfg requestId core req w (route requestId core' req candidates failoverInPlay)

theorem poll_turn (h : SoundCore cfg core) (hoffers : Offers core.registry w.modelHosts) :
    Turn cfg requestId core req w (poll cfg requestId core req w) := by
  generalize hcand : currentCandidates cfg core.registry core.health req.token w.modelHosts
    core.scratch = found
  obtain ⟨result, st⟩ := found
  unfold poll
  simp only [hcand]
  cases result with
  | error e =>
    refine .refuses hcand ?_
    obtain rfl | ⟨hostId, holder, rfl⟩ := currentCandidates_error h.book
      (fun ref href => h.buildable (hoffers ref href).1) hcand <;> rfl
  | ok candidates =>
    cases candidates with
    | nil => exact .asleep rfl
    | cons c cs =>
      have hlater := (currentCandidates_later cfg core.registry core.health req.token w.modelHosts
        core.scratch).1
      rw [hcand] at hlater
      have hcore : SoundCore cfg (core.withScratch st) :=
        ⟨h.registry, hlater.consistent h.book, h.scores, h.wf, h.callbacks⟩
      have hrefills : Refills cfg (Asked (core.withScratch st) req) st
          (dispatchFor cfg requestId (core.withScratch st)
            ((c :: cs).map (·.backend.backendId))).2.2 := dispatchFor_refills req _
      obtain ⟨taken, htaken⟩ : ∃ taken, (dispatchFor cfg requestId (core.withScratch st)
          ((c :: cs).map (·.backend.backendId))).1 = .ok taken := dispatchFor_total hcore _
      simp only
      generalize dispatchFor _ _ _ _ = dispatched at htaken hrefills ⊢
      obtain ⟨res, queue, st'⟩ := dispatched
      cases htaken
      simp only
      split
      · -- its turn: what was in the cache is still there
        refine .routed hcand ?_ h.scores
        exact h.registry.ready h.book hoffers hcand rfl fun _ hid => hrefills.contains hid
      · exact .asleep rfl

theorem poll_fine (h : SoundCore cfg core) (hoffers : Offers core.registry w.modelHosts) :
    (poll cfg requestId core req w).2.Fine core.registry := by
  generalize hpoll : poll cfg requestId core req w = turned
  cases (hpoll ▸ poll_turn h hoffers : Turn cfg requestId core req w turned) with
  | refuses raised refused => exact fine_of_refusal refused _
  | asleep same => exact sleepAgain_fine (same ▸ hoffers)
  | routed found ready scores => exact route_fine ready scores _

theorem listed_offers {reg : HostRegistry} {model : String} {ref : Nat} {d : Discovery}
    {loaded : Option (List String)} (h : Offers reg (ref :: d.capable)) :
    Offers reg (d.listed reg model ref loaded).capable := by
  have hold : Offers reg d.capable := fun r hr => h r (List.mem_cons_of_mem ref hr)
  have hnew : Offers reg (d.capable ++ [ref]) := by
    intro r hr
    rcases List.mem_append.mp hr with hr | hr
    · exact hold r hr
    · rw [List.mem_singleton.mp hr]
      exact h ref List.mem_cons_self
  unfold Discovery.listed
  simp only
  split
  · exact hnew
  · split
    · exact hnew
    · split <;> exact hold

theorem stage_streaming (hostId : String) (phase : StreamPhase) :
    (Phase.streaming hostId phase).stage ≠ .before := by
  cases phase <;> exact Stage.noConfusion

theorem resume_fine {signal : Signal} (h : SoundCore cfg core)
    (hexist : ∀ ref ∈ req.captured, ref < core.registry.next)
    (hfound : Offers core.registry req.found) (hbefore : req.phase.stage = .before)
    (hreturns : signal.Returns)
    (hresume : resume cfg requestId now core req signal = some (core', req')) :
    req'.Fine core.registry := by
  unfold resume at hresume
  split at hresume
  · exact hreturns.elim
  · next ref d loaded hphase =>
    have hfine : (continueDiscovery cfg requestId core req
        (d.listed core.registry req.body.model ref loaded)).2.Fine core.registry := by
      apply continueDiscovery_fine h
      · intro x hx
        exact hexist x (listed_captured hphase x (List.mem_append_left _ hx))
      · apply listed_offers
        simpa [Request.found, hphase] using hfound
    rwa [Option.some.inj hresume] at hfine
  · next w hphase =>
    have hfine : (poll cfg requestId core req w).2.Fine core.registry :=
      poll_fine h (by simpa [Request.found, hphase] using hfound)
    rwa [Option.some.inj hresume] at hfine
  · exact hreturns.elim
  · next hphase =>
    rw [hphase] at hbefore
    cases hbefore
  · next hphase =>
    rw [hphase] at hbefore
    exact absurd hbefore (stage_streaming _ _)
  · cases hresume

/-- An exception ends a request that has not been passed to a backend. -/
theorem resume_raised {signal : Signal} (hraised : ¬ signal.Returns)
    (hresume : resume cfg requestId now core req signal = some (core', req')) :
    req'.phase.stage ≠ .before := by
  unfold resume at hresume
  split at hresume
  · cases hresume
    exact Stage.noConfusion
  · exact absurd trivial hraised
  · exact absurd trivial hraised
  · cases hresume
    exact Stage.noConfusion
  · exact absurd trivial hraised
  · unfold resumeStream at hresume
    split at hresume <;> first | exact absurd trivial hraised | cases hresume
  · cases hresume

end

/-! ## Runs -/

/-- The state of a gateway that stores sound records only. -/
structure SoundState (cfg : Config) (s : State) : Prop where
  core : SoundCore cfg s.core
  captured : ∀ {id req}, s.requests.get? id = some req →
    ∀ ref ∈ req.captured, ref < s.core.registry.next
  found : ∀ {id req}, s.requests.get? id = some req → Offers s.core.registry req.found

section

variable {cfg : Config} {s s' s₀ : State} {e : Event} {es : List Event} {requestId : String}
  {req req' : Request} {core : Core} {reg reg' : HostRegistry}

theorem SlotMove.before (h : SlotMove reg req reg' req') (hafter : req'.phase.stage = .before) :
    req.phase.stage = .before := by
  cases h with
  | keep stage slot releases =>
    rcases stage with hstage | ⟨hbefore, -⟩
    · rw [← hstage, hafter]
    · exact hbefore
  | acquire before | bounce before => exact before
  | release _ _ after | releaseRaises _ _ after =>
    rw [hafter] at after
    cases after

/-- A request that looks at hosts goes on or is refused, unless its `await` has raised. -/
theorem SoundState.fine (h : SoundState cfg s) (hran : Ran cfg s requestId req e core req')
    (hbefore : req.phase.stage = .before) (hreturns : e.Returns) : req'.Fine s.core.registry := by
  cases hran with
  | begins absent => exact begin_fine h.core fun ref href => HostRegistry.hostRefs_lt href
  | resumes present returns =>
    exact resume_fine h.core (h.captured present) (h.found present) hbefore hreturns returns

/-- The records of the request that takes a step, and those it goes on with. -/
theorem SoundState.records (h : SoundState cfg s) (hran : Ran cfg s requestId req e core req') :
    (∀ ref ∈ req'.captured, ref < s.core.registry.next) ∧ Offers s.core.registry req'.found := by
  have hmoves := hran.moves h.core.book
  have hcaptured : ∀ ref ∈ req.captured, ref < s.core.registry.next := by
    cases hran with
    | begins absent => exact fun ref href => HostRegistry.hostRefs_lt href
    | resumes present returns => exact h.captured present
  refine ⟨fun ref href => hcaptured ref (hmoves.captured ref href), ?_⟩
  by_cases hbefore : req'.phase.stage = .before
  · by_cases hreturns : e.Returns
    · exact (h.fine hran (hmoves.slot.before hbefore) hreturns).found
    · -- the exception would have ended the request
      cases hran with
      | begins absent => exact absurd trivial hreturns
      | resumes present returns => exact absurd hbefore (resume_raised hreturns returns)
  · rw [found_of_not_before hbefore]
    simp [Offers]

/-! ### The registry -/

theorem SoundRegistry.counter (h : SoundRegistry cfg reg) {hostId : String} {n : Int}
    (hn : reg.inFlight hostId = some n) : 0 ≤ n := by
  obtain ⟨info, hinfo, rfl⟩ := Option.map_eq_some_iff.mp hn
  obtain ⟨ref, href, rfl⟩ := HostRegistry.lookup_eq_some.mp hinfo
  exact h.inFlight ref (reg.refs_lt href)

/-- The records keep their settings; of the counters it is known that none is negative. -/
theorem SoundRegistry.settings (h : SoundRegistry cfg reg)
    (hhosts : reg'.hosts = reg.hosts ∧ reg'.next = reg.next)
    (hsame : ∀ ref, SameSettings (reg.heap ref) (reg'.heap ref))
    (hinFlight : ∀ ref < reg.next, 0 ≤ (reg'.heap ref).inFlight) : SoundRegistry cfg reg' := by
  obtain ⟨hhosts, hnext⟩ := hhosts
  refine ⟨fun ref href => ?_, fun ref href => ?_, fun ref href => ?_⟩
  · rw [hnext] at href
    have hsound := h.sound ref href
    unfold HostInfo.Sound at hsound ⊢
    rwa [(hsame ref).hostId, (hsame ref).capabilities, (hsame ref).capacity]
  · rw [hnext] at href
    rw [hhosts, (hsame ref).hostId]
    exact h.registered ref href
  · rw [hnext] at href
    exact hinFlight ref href

/-- A counter changes, and is not negative then. -/
theorem SoundRegistry.addInFlight (h : SoundRegistry cfg reg) {hostId : String} {d : Int}
    (hadd : reg.addInFlight hostId d = some reg')
    (hcounter : ∀ n, reg'.inFlight hostId = some n → 0 ≤ n) : SoundRegistry cfg reg' := by
  refine h.settings (HostRegistry.hosts_addInFlight hadd) (HostRegistry.heap_addInFlight hadd)
    fun ref href => ?_
  obtain ⟨current, hcurrent, rfl⟩ := Option.map_eq_some_iff.mp hadd
  by_cases hr : ref = current
  · apply hcounter
    rw [hr, HostRegistry.inFlight, HostRegistry.lookup]
    exact congrArg (Option.map HostInfo.inFlight) (congrArg (Option.map _) hcurrent)
  · simp only [HostRegistry.update, if_neg hr]
    exact h.inFlight ref href

theorem SoundRegistry.slotMove (h : SoundRegistry cfg reg) (hmove : SlotMove reg req reg' req')
    (hcounters : ∀ hostId n, reg'.inFlight hostId = some n → 0 ≤ n) : SoundRegistry cfg reg' := by
  have hacquire : ∀ {hostId : String} {reg₁ : HostRegistry}, reg.acquireSlot hostId = some reg₁ →
      SoundRegistry cfg reg₁ := by
    intro hostId reg₁ hacquired
    apply h.addInFlight hacquired
    intro n hn
    rw [HostRegistry.inFlight_addInFlight hacquired, if_pos rfl] at hn
    obtain ⟨m, hm, rfl⟩ := Option.map_eq_some_iff.mp hn
    have hpos := h.counter hm
    omega
  cases hmove with
  | keep | releaseRaises => exact h
  | acquire before acquired => exact hacquire acquired
  | bounce before acquired released =>
    exact (hacquire acquired).addInFlight released fun n hn => hcounters _ n hn
  | release before released => exact h.addInFlight released fun n hn => hcounters _ n hn

theorem SoundRegistry.register (h : SoundRegistry cfg reg) {hostId : String}
    {capabilities : HostCapabilities} {capacity : HostCapacity}
    (hrecord : SoundRecord cfg hostId capabilities capacity) (now : Int) :
    SoundRegistry cfg (reg.register hostId capabilities capacity now) := by
  have hnew : (reg.register hostId capabilities capacity now).heap reg.next =
      ⟨hostId, capabilities, capacity, (reg.inFlight hostId).getD 0, now⟩ := if_pos rfl
  have hcases : ∀ ref < reg.next + 1, ref = reg.next ∨
      ref < reg.next ∧ (reg.register hostId capabilities capacity now).heap ref = reg.heap ref := by
    intro ref href
    rcases Nat.lt_succ_iff_lt_or_eq.mp href with hold | hnew
    · exact Or.inr ⟨hold, HostRegistry.heap_register hold⟩
    · exact Or.inl hnew
  refine ⟨fun ref href => ?_, fun ref href => ?_, fun ref href => ?_⟩
  · rcases hcases ref href with rfl | ⟨hold, hheap⟩
    · rw [hnew]
      exact hrecord
    · rw [hheap]
      exact h.sound ref hold
  · rcases hcases ref href with rfl | ⟨hold, hheap⟩
    · rw [hnew]
      exact (Dict.contains_set_iff _).mpr (Or.inl rfl)
    · rw [hheap]
      exact (Dict.contains_set_iff _).mpr (Or.inr (h.registered ref hold))
  · rcases hcases ref href with rfl | ⟨hold, hheap⟩
    · rw [hnew]
      cases hcount : reg.inFlight hostId with
      | none => simp
      | some n => simpa using h.counter hcount
    · rw [hheap]
      exact h.inFlight ref hold

theorem SoundRegistry.heartbeat (h : SoundRegistry cfg reg) {hostId : String} {now : Int}
    (hbeat : reg.heartbeat hostId now = some reg') : SoundRegistry cfg reg' := by
  refine h.settings (HostRegistry.hosts_heartbeat hbeat) (HostRegistry.heap_heartbeat hbeat)
    fun ref href => ?_
  obtain ⟨current, hcurrent, rfl⟩ := Option.map_eq_some_iff.mp hbeat
  have hin : ((reg.update current (·.seen now) fun info => .seen info now).heap ref).inFlight =
      (reg.heap ref).inFlight := by
    unfold HostRegistry.update
    simp only
    split <;> rfl
  rw [hin]
  exact h.inFlight ref href

theorem SoundRegistry.admin (h : SoundRegistry cfg s.core.registry) {a : AdminEvent}
    (hstores : StoresSound cfg s (.admin a)) :
    SoundRegistry cfg (registryAfter s.core.registry a) := by
  cases a with
  | register hostId capabilities capacity now => exact h.register hstores now
  | patch hostId fields now =>
    simp only [registryAfter]
    split
    · exact h
    · next existing hexisting => exact h.register (hstores existing hexisting) now
  | heartbeat hostId now =>
    simp only [registryAfter]
    cases hbeat : s.core.registry.heartbeat hostId now with
    | none => exact h
    | some reg' => exact h.heartbeat hbeat
  | deregister hostId => exact hstores.elim
  | _ => exact h

/-! ### The invariant -/

theorem keepsHeldHosts_of_storesSound (h : StoresSound cfg s e) : KeepsHeldHosts s e := by
  unfold KeepsHeldHosts
  split
  · exact h.elim
  · trivial

theorem KeepsObjects.offers (h : KeepsObjects reg reg') {refs : List Nat}
    (hoffers : Offers reg refs) : Offers reg' refs := by
  intro ref href
  obtain ⟨hexists, hallowed⟩ := hoffers ref href
  rw [(h.settings hexists).capabilities]
  exact ⟨lt_of_lt_of_le hexists h.next, hallowed⟩

theorem SoundRegistry.init (h : SoundStart cfg s) : SoundRegistry cfg s.core.registry := by
  have hcurrent : ∀ ref < s.core.registry.next,
      s.core.registry.hosts.get? (s.core.registry.heap ref).hostId = some ref :=
    fun ref href => HostRegistry.mem_hostRefs (h.registered ref href)
  refine ⟨h.sound, fun ref href => ?_, fun ref href => ?_⟩
  · exact (Dict.contains_iff _).mpr ⟨ref, hcurrent ref href⟩
  · rw [h.idle _ _ (HostRegistry.lookup_eq_some.mpr ⟨ref, hcurrent ref href, rfl⟩)]

theorem soundState_run (hstart : SoundStart cfg s₀)
    (hrun : Run (Guarded (StoresSound cfg) (Fires (step cfg))) s₀ es s) : SoundState cfg s := by
  -- what is known of all runs, and of those without a `deregister`
  have hknown : ∀ {es s}, Run (Guarded (StoresSound cfg) (Fires (step cfg))) s₀ es s →
      s.core.scratch.book.Consistent ∧ QueueInv s ∧ SlotInv s := by
    intro es s hrun
    have hfires : Run (Fires (step cfg)) s₀ es s := hrun.mono fun _ _ _ h => h.2
    exact ⟨book_consistent hstart.toStarted hfires, queueInv_run hstart.toStarted hfires,
      slotInv_run hstart.toStarted
        (hrun.mono fun _ _ _ h => ⟨keepsHeldHosts_of_storesSound h.1, h.2⟩)⟩
  have hcore : ∀ {es s}, Run (Guarded (StoresSound cfg) (Fires (step cfg))) s₀ es s →
      SoundRegistry cfg s.core.registry → s.core.router.policy.Total →
      (∀ {id req}, s.requests.get? id = some req →
        ∀ ref ∈ req.captured, ref < s.core.registry.next) → SoundCore cfg s.core := by
    intro es s hrun hreg hscores hcaptured
    obtain ⟨hbook, hqueue, -⟩ := hknown hrun
    refine ⟨hreg, hbook, hscores, hqueue.wf, @fun id w hw ref href => ?_⟩
    obtain ⟨req, ⟨hreq, hhosts⟩, -⟩ := hqueue.callback hw
    refine hcaptured hreq ref ?_
    cases hphase : req.phase with
    | waiting own =>
      rw [hphase] at hhosts
      have hown : own.modelHosts = w.modelHosts := Option.some.inj hhosts
      simpa [Request.captured, hphase, hown] using href
    | _ =>
      rw [hphase] at hhosts
      cases hhosts
  induction hrun with
  | nil =>
    refine ⟨hcore .nil (.init hstart) hstart.scores ?_, ?_, ?_⟩ <;>
      · intro id req hreq
        simp [hstart.requests] at hreq
  | @snoc es s s' e hrun hstep ih =>
    have hrun' := Run.snoc hrun hstep
    obtain ⟨hstores, hfires⟩ := hstep
    rcases step_cases hfires with ⟨a, core, rfl, hadmin, rfl⟩ | ⟨id, req, core, req', hran, rfl⟩
    · have hobjects := keepsObjects_registryAfter s.core.registry a
      rw [← (admin_queue hadmin).2] at hobjects
      have hcaptured : ∀ {id req}, s.requests.get? id = some req →
          ∀ ref ∈ req.captured, ref < core.registry.next := fun hreq ref href =>
        lt_of_lt_of_le (ih.captured hreq ref href) hobjects.next
      refine ⟨hcore hrun' ?_ ?_ hcaptured, hcaptured, fun hreq => hobjects.offers (ih.found hreq)⟩
      · rw [(admin_queue hadmin).2]
        exact ih.core.registry.admin hstores
      · obtain ⟨_, _, rfl⟩ := Option.map_eq_some_iff.mp hadmin
        exact ih.core.scores
    · have hmoves := hran.moves ih.core.book
      have hobjects := hmoves.slot.keepsObjects.1
      obtain ⟨hown, hoffers⟩ := ih.records hran
      have hall : ∀ {id' r}, (s.requests.set id req').get? id' = some r →
          (∀ ref ∈ r.captured, ref < core.registry.next) ∧ Offers core.registry r.found := by
        intro id' r hr
        rw [Dict.get?_set] at hr
        split at hr
        · cases hr
          exact ⟨fun ref href => lt_of_lt_of_le (hown ref href) hobjects.next,
            hobjects.offers hoffers⟩
        · exact ⟨fun ref href => lt_of_lt_of_le (ih.captured hr ref href) hobjects.next,
            hobjects.offers (ih.found hr)⟩
      refine ⟨hcore hrun' ?_ ?_ fun hr => (hall hr).1, fun hr => (hall hr).1, fun hr => (hall hr).2⟩
      · refine ih.core.registry.slotMove hmoves.slot fun hostId n hn => ?_
        have hcounts := (hknown hrun').2.2.counts hostId
        simp only [hn, Option.getD_some] at hcounts
        rw [hcounts]
        exact Int.natCast_nonneg _
      · exact hmoves.policy ▸ ih.core.scores

end

end LlmHomeLab
