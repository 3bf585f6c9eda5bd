import LlmHomeLab.Gateway.HealthSweep

/-! # The other hosts

What becomes of a request on all the hosts there are, against what would become of it on one of
them alone. Where the records are sound, the others do not take from a request the host that would
have served it, and none of them raises.
-/

namespace LlmHomeLab

/-! ## Statement -/

/-- The registry with this host alone. -/
def HostRegistry.only (reg : HostRegistry) (hostId : String) : HostRegistry where
  heap := reg.heap
  next := reg.next
  hosts := reg.hosts.filter fun id _ => id = hostId
  refs_lt h := by
    rw [Dict.get?_filter, Option.filter_eq_some_iff] at h
    exact reg.refs_lt h.1
  hostId_eq h := by
    rw [Dict.get?_filter, Option.filter_eq_some_iff] at h
    exact reg.hostId_eq h.1

def Core.only (core : Core) (hostId : String) : Core :=
  core.withRegistry (core.registry.only hostId)

/-- The model hosts of a waiting request, this one alone. -/
def Wait.only (w : Wait) (reg : HostRegistry) (hostId : String) : Wait :=
  { w with modelHosts := w.modelHosts.filter fun ref => (reg.heap ref).hostId = hostId }

section

variable (cfg : Config) (requestId : String) (now : Int)
  (answers : String → Option (List String))

/-- The `list_models` a request waits for are answered one after the other. -/
def listAll : Nat → Core × Request → Core × Request
  | 0, x => x
  | n + 1, (core, req) =>
    match req.phase with
    | .discovering ref _ =>
      match resume cfg requestId now core req
          (.listed (.ok (answers (core.registry.heap ref).hostId))) with
      | some next => listAll n next
      | none => (core, req)
    | _ => (core, req)

/-- What becomes of a request that arrives, up to the end of its discovery. -/
def handled (core : Core) (leaseHeader : Option String) (body : ChatCompletionRequest) : Request :=
  (listAll cfg requestId now answers core.registry.hostRefs.length
    (begin cfg requestId core (newRequest core leaseHeader body now))).2

end

/-- Sent, waiting, or given up at the end of its time. -/
def Phase.SentOrWaits : Phase → Prop
  | .waiting _ => True
  | .ended (.failed (.noAvailableBackend .dispatchTimeout)) => True
  | phase => phase.sent = true

theorem Phase.sentOrWaits_of_sent {phase : Phase} (h : phase.sent = true) : phase.SentOrWaits := by
  unfold SentOrWaits
  split
  · trivial
  · trivial
  · exact h

/-- A request that one host alone would have admitted is sent to a backend; one that waits is sent
or goes on waiting; and what a request looks at on its way raises nothing. -/
structure Isolated (cfg : Config) (s : State) : Prop where
  arrives : ∀ requestId now answers leaseHeader body hostId,
    (handled cfg requestId now answers (s.core.only hostId) leaseHeader body).phase.sent = true →
    (handled cfg requestId now answers s.core leaseHeader body).phase.sent = true
  polls : ∀ requestId req w hostId, s.requests.get? requestId = some req → req.phase = .waiting w →
    (poll cfg requestId (s.core.only hostId) req
      (w.only s.core.registry hostId)).2.phase.sent = true →
    (poll cfg requestId s.core req w).2.phase.SentOrWaits
  raisesNot : ∀ requestId req e core req', Ran cfg s requestId req e core req' →
    req.phase.stage = .before → e.Returns → req'.phase.Unharmed

/-! ## The discovery -/

/-- The discovery will find the host capable, with the cache as it is. -/
def capableNow (cfg : Config) (reg : HostRegistry) (model : String)
    (answers : String → Option (List String)) (st : Scratch) (ref : Nat) : Bool :=
  let host := reg.heap ref
  match host.capabilities.allowedModels with
  | some allowed => model ∈ allowed
  | none =>
    match (backendFor cfg host.hostId host.capabilities st).1 with
    | .error _ => false
    | .ok backend =>
      if backend.hasListModels then
        match answers host.hostId with
        | none => true
        | some loaded => model ∈ loaded || fitsInBudget host.capabilities model loaded
      else true

section

variable {cfg : Config} {requestId : String} {now : Int} {answers : String → Option (List String)}
  {reg : HostRegistry} {core : Core} {req : Request} {a b : Scratch} {hostId : String}
  {P : String → HostCapabilities → Prop} {capable : List Nat} {budgetBlocked : Bool}

/-- The cache holds the same for this host. -/
structure SameFor (hostId : String) (a b : Scratch) : Prop where
  backend : b.backendsById.get? hostId = a.backendsById.get? hostId
  capabilities : b.backendCapabilitiesById.get? hostId = a.backendCapabilitiesById.get? hostId

theorem Refills.sameFor (h : Refills cfg P a b) (hnot : ∀ caps, ¬ P hostId caps) :
    SameFor hostId a b := by
  refine ⟨h.backend_eq hnot, ?_⟩
  induction h with
  | same same => rw [same.capabilities]
  | @build b c id caps l _ asked _ after ih =>
    have hne : hostId ≠ id := by
      rintro rfl
      exact hnot caps asked
    rw [after.capabilities, ← ih]
    exact Dict.get?_set_of_ne _ hne

theorem SameFor.backendFor (h : SameFor hostId a b) (capabilities : HostCapabilities) :
    (backendFor cfg hostId capabilities b).1 = (backendFor cfg hostId capabilities a).1 := by
  have hbuild : (buildBackend cfg hostId capabilities b).1 =
      (buildBackend cfg hostId capabilities a).1 := by
    unfold buildBackend
    split <;> rfl
  unfold LlmHomeLab.backendFor
  rw [h.backend, h.capabilities]
  split
  · exact hbuild
  · split
    · rfl
    · split
      · rfl
      · exact hbuild

theorem SameFor.capableNow {ref : Nat} (h : SameFor (reg.heap ref).hostId a b) (model : String) :
    capableNow cfg reg model answers b ref = capableNow cfg reg model answers a ref := by
  unfold LlmHomeLab.capableNow
  simp only [h.backendFor]

/-- The request waits for no `list_models`. -/
def Phase.Stopped (phase : Phase) : Prop := ∀ ref d, phase ≠ .discovering ref d

theorem Phase.stopped_of_stage {phase : Phase} (h : phase.stage ≠ .before) : phase.Stopped := by
  rintro ref d rfl
  exact h rfl

theorem listAll_stopped {x : Core × Request} (h : x.2.phase.Stopped) (n : Nat) :
    listAll cfg requestId now answers n x = x := by
  cases n with
  | zero => rfl
  | succ n =>
    unfold listAll
    split
    · next ref d hphase => exact absurd hphase (h ref d)
    · rfl

theorem afterDiscovery_stopped :
    (afterDiscovery cfg requestId core req capable budgetBlocked).2.phase.Stopped := by
  intro ref d
  unfold afterDiscovery
  simp only
  split
  · exact Phase.noConfusion
  · split
    · exact Phase.noConfusion
    · unfold sleepAgain
      split <;> exact Phase.noConfusion
    · exact Phase.stopped_of_stage (route_stage _ _ _ _) ref d

theorem listed_eq (answers : String → Option (List String)) (d : Discovery) (model : String)
    {ref : Nat} (hallowed : (reg.heap ref).capabilities.allowedModels = none) {st : Scratch}
    {backend : Backend}
    (hb : (backendFor cfg (reg.heap ref).hostId (reg.heap ref).capabilities st).1 = .ok backend)
    (hlists : backend.hasListModels = true) :
    ∃ blocked, d.listed reg model ref (answers (reg.heap ref).hostId) =
      ⟨d.pending, if capableNow cfg reg model answers st ref then d.capable ++ [ref] else d.capable,
        blocked⟩ := by
  unfold capableNow Discovery.listed
  simp only [hallowed, hb, hlists, if_true]
  cases answers (reg.heap ref).hostId with
  | none => exact ⟨d.anyBudgetBlocked, rfl⟩
  | some loaded =>
    simp only
    split
    · exact ⟨d.anyBudgetBlocked, rfl⟩
    · split <;> exact ⟨_, rfl⟩

/-- One host more has been looked at, its `list_models` answered if it has one. -/
theorem listAll_cons {ref : Nat} {rest : List Nat} {n : Nat} (hn : rest.length < n)
    (hbuilds : ∃ b, cfg.factory (core.registry.heap ref).capabilities = .ok b) :
    ∃ st phase blocked m, rest.length ≤ m ∧
      st.book = core.scratch.book ∧ st.readings = core.scratch.readings ∧
      (∀ hostId ≠ (core.registry.heap ref).hostId, SameFor hostId core.scratch st) ∧
      listAll cfg requestId now answers n
          (continueDiscovery cfg requestId core req ⟨ref :: rest, capable, budgetBlocked⟩) =
        listAll cfg requestId now answers m
          (continueDiscovery cfg requestId (core.withScratch st) { req with phase }
            ⟨rest, if capableNow cfg core.registry req.body.model answers core.scratch ref then
              capable ++ [ref] else capable, blocked⟩) := by
  cases hallowed : (core.registry.heap ref).capabilities.allowedModels with
  | some allowed =>
    refine ⟨core.scratch, req.phase, budgetBlocked, n, hn.le, rfl, rfl, fun _ _ => ⟨rfl, rfl⟩, ?_⟩
    congr 1
    unfold continueDiscovery capableNow
    simp only [discover, hallowed, decide_eq_true_eq]
    rfl
  | none =>
    obtain ⟨backend, st, hb⟩ := backendFor_of_factory (core.registry.heap ref).hostId hbuilds
      core.scratch
    have hsame := backendFor_same cfg (core.registry.heap ref).hostId
      (core.registry.heap ref).capabilities core.scratch
    have hrefills : Refills cfg (fun id _ => id = (core.registry.heap ref).hostId) core.scratch
        (backendFor cfg (core.registry.heap ref).hostId (core.registry.heap ref).capabilities
          core.scratch).2 := backendFor_refills rfl _
    rw [hb] at hsame hrefills
    have hothers : ∀ hostId ≠ (core.registry.heap ref).hostId, SameFor hostId core.scratch st :=
      fun hostId hne => hrefills.sameFor fun _ => hne
    cases hlists : backend.hasListModels with
    | false =>
      refine ⟨st, req.phase, budgetBlocked, n, hn.le, hsame.1, hsame.2, hothers, ?_⟩
      congr 1
      unfold continueDiscovery capableNow
      simp only [discover, hallowed, hb, hlists, Bool.false_eq_true, if_false, if_true]
      rfl
    | true =>
      obtain ⟨m, rfl⟩ : ∃ m, n = m + 1 := ⟨n - 1, by omega⟩
      have hawaits :
          continueDiscovery cfg requestId core req ⟨ref :: rest, capable, budgetBlocked⟩ =
          (core.withScratch st,
            { req with phase := .discovering ref ⟨rest, capable, budgetBlocked⟩ }) := by
        unfold continueDiscovery
        simp only [discover, hallowed, hb, hlists, if_true]
      have hmodels : (backendFor cfg (core.registry.heap ref).hostId
          (core.registry.heap ref).capabilities core.scratch).1 = .ok backend := by rw [hb]
      obtain ⟨blocked, hlisted⟩ := listed_eq answers ⟨rest, capable, budgetBlocked⟩
        req.body.model hallowed hmodels hlists
      refine ⟨st, .discovering ref ⟨rest, capable, budgetBlocked⟩, blocked, m, by omega, hsame.1,
        hsame.2, hothers, ?_⟩
      rw [hawaits, ← hlisted]
      rfl

/-- A discovery that is answered finds the hosts that are capable now. -/
theorem listAll_discovery {pending : List Nat} {n : Nat} (hn : pending.length ≤ n)
    (hbuilds : ∀ ref ∈ pending, ∃ b, cfg.factory (core.registry.heap ref).capabilities = .ok b)
    (hdistinct : (pending.map fun ref => (core.registry.heap ref).hostId).Nodup) :
    ∃ st phase found blocked, st.book = core.scratch.book ∧
      st.readings = core.scratch.readings ∧
      (∀ ref, ref ∈ found ↔ ref ∈ capable ∨ ref ∈ pending ∧
        capableNow cfg core.registry req.body.model answers core.scratch ref = true) ∧
      listAll cfg requestId now answers n
          (continueDiscovery cfg requestId core req ⟨pending, capable, budgetBlocked⟩) =
        afterDiscovery cfg requestId (core.withScratch st) { req with phase } found blocked := by
  induction pending generalizing core req capable budgetBlocked n with
  | nil =>
    exact ⟨core.scratch, req.phase, capable, budgetBlocked, rfl, rfl, fun ref => by simp,
      listAll_stopped afterDiscovery_stopped n⟩
  | cons ref rest ih =>
    simp only [List.map_cons, List.nodup_cons] at hdistinct
    obtain ⟨st, phase, blocked, m, hm, hbook, hreadings, hothers, heq⟩ :=
      listAll_cons hn (hbuilds ref List.mem_cons_self)
    obtain ⟨st', phase', found, blocked', hbook', hreadings', hfound, heq'⟩ :=
      @ih (core.withScratch st) { req with phase } _ blocked m hm
        (fun r hr => hbuilds r (List.mem_cons_of_mem ref hr)) hdistinct.2
    refine ⟨st', phase', found, blocked', hbook'.trans hbook, hreadings'.trans hreadings, ?_,
      heq.trans heq'⟩
    intro r
    -- the cache of the hosts to come has not changed
    have hrest : r ∈ rest → capableNow cfg core.registry req.body.model answers st r =
        capableNow cfg core.registry req.body.model answers core.scratch r := by
      intro hr
      refine (hothers _ ?_).capableNow _
      intro hid
      exact hdistinct.1 (List.mem_map.mpr ⟨r, hr, hid⟩)
    rw [hfound]
    constructor
    · rintro (hold | ⟨hr, hcapable⟩)
      · split at hold
        · next hown =>
          rcases List.mem_append.mp hold with hold | hnew
          · exact Or.inl hold
          · rw [List.mem_singleton.mp hnew]
            exact Or.inr ⟨List.mem_cons_self, hown⟩
        · exact Or.inl hold
      · exact Or.inr ⟨List.mem_cons_of_mem ref hr, (hrest hr).symm.trans hcapable⟩
    · rintro (hold | ⟨hr, hcapable⟩)
      · left
        split
        · exact List.mem_append_left _ hold
        · exact hold
      · rcases List.mem_cons.mp hr with rfl | hr
        · left
          rw [if_pos hcapable]
          exact List.mem_append_right _ (List.mem_singleton_self r)
        · exact Or.inr ⟨hr, (hrest hr).trans hcapable⟩

/-- The first look at the lease lets the request in. -/
def Enters (cfg : Config) (core : Core) (token : Option String) : Prop :=
  ∀ t, token = some t → ∃ lease,
    core.scratch.book.require t (cfg.leaseClock core.scratch.readings) =
      (.ok lease, core.scratch.book)

variable {leaseHeader : Option String} {body : ChatCompletionRequest}

theorem enters_of_sent
    (h : (handled cfg requestId now answers core leaseHeader body).phase.sent = true) :
    Enters cfg core (leaseHeader.filter (· ≠ "")) := by
  intro t htoken
  unfold handled begin leaseNow newRequest at h
  simp only [htoken] at h
  split at h
  · rw [listAll_stopped fun _ _ => Phase.noConfusion] at h
    cases h
  · next lease book hreq =>
    obtain ⟨-, -, rfl⟩ := NodeLeaseBook.require_ok hreq
    exact ⟨lease, hreq⟩

/-- What a request comes to that is let in. -/
theorem handled_of_enters (requestId : String) (now : Int)
    (answers : String → Option (List String)) (body : ChatCompletionRequest)
    (henters : Enters cfg core (leaseHeader.filter (· ≠ "")))
    (hbuilds : ∀ ref ∈ core.registry.hostRefs,
      ∃ b, cfg.factory (core.registry.heap ref).capabilities = .ok b) :
    ∃ st phase found blocked, st.book = core.scratch.book ∧
      st.readings = core.scratch.readings + 1 ∧
      (∀ ref, ref ∈ found ↔ ref ∈ core.registry.hostRefs ∧
        capableNow cfg core.registry body.model answers core.scratch ref = true) ∧
      handled cfg requestId now answers core leaseHeader body =
        (afterDiscovery cfg requestId (core.withScratch st)
          { newRequest core leaseHeader body now with phase } found blocked).2 := by
  -- the clock has been read once
  let read : Scratch := { core.scratch with readings := core.scratch.readings + 1 }
  have hbegin : begin cfg requestId core (newRequest core leaseHeader body now) =
      continueDiscovery cfg requestId (core.withScratch read)
        (newRequest core leaseHeader body now) ⟨core.registry.hostRefs, [], false⟩ := by
    unfold begin leaseNow
    cases htoken : (newRequest core leaseHeader body now).token with
    | none => rfl
    | some t =>
      obtain ⟨lease, hreq⟩ := henters t htoken
      simp only [hreq]
      rfl
  obtain ⟨st, phase, found, blocked, hbook, hreadings, hfound, heq⟩ :=
    @listAll_discovery cfg requestId now answers (core.withScratch read)
      (newRequest core leaseHeader body now) [] false core.registry.hostRefs
      core.registry.hostRefs.length le_rfl hbuilds (nodup_hostIds core.registry)
  refine ⟨st, phase, found, blocked, hbook, hreadings, fun ref => ?_, ?_⟩
  · rw [hfound]
    have hsame : SameFor (core.registry.heap ref).hostId core.scratch read := ⟨rfl, rfl⟩
    have hcapable : capableNow cfg core.registry body.model answers read ref =
        capableNow cfg core.registry body.model answers core.scratch ref := hsame.capableNow _
    show (ref ∈ [] ∨ ref ∈ core.registry.hostRefs ∧
      capableNow cfg core.registry body.model answers read ref = true) ↔ _
    rw [hcapable]
    simp
  · unfold handled
    rw [hbegin, heq]
    rfl

/-! ## A look at the candidates -/

variable {ref : Nat} {refs : List Nat} {candidates : List RoutingCandidate} {w : Wait}

/-- By its record the host can take the request. -/
structure Fits (core : Core) (req : Request) (ref : Nat) : Prop where
  free : (core.registry.heap ref).Free
  healthy : core.health.isHealthy (core.registry.heap ref).hostId = true
  window : ∃ window, (core.registry.heap ref).capabilities.contextWindow = some window ∧
    neededWindow req.body ≤ window

theorem route_fits {failoverInPlay : Bool}
    (h : (route requestId core req candidates failoverInPlay).2.phase.sent = true) :
    ∃ c ∈ candidates, c.hasWindow (neededWindow req.body) = true := by
  unfold route at h
  simp only at h
  split at h
  · cases h
  · next hselect =>
    obtain ⟨c, hc, -, hwindow⟩ := RoutingEngine.selectBackend_fits hselect
    exact ⟨c, hc, hwindow⟩

/-- A candidate with the window is a host that can take the request, and may. -/
theorem fits_of_candidate (hbook : core.scratch.book.Consistent) {st : Scratch}
    (hcand : currentCandidates cfg core.registry core.health req.token refs core.scratch =
      (.ok candidates, st))
    (hwindow : ∃ c ∈ candidates, c.hasWindow (neededWindow req.body) = true) :
    ∃ ref ∈ refs, Fits core req ref ∧
      LeaseAllows core.scratch.book req.token (core.registry.heap ref).hostId
        (cfg.leaseClock core.scratch.readings) := by
  obtain ⟨c, hc, hhas⟩ := hwindow
  obtain ⟨ref, href, hid, hfree, hhealthy, hallows, heq⟩ := mem_currentCandidates hbook hcand hc
  refine ⟨ref, href, ⟨hfree, hhealthy, ?_⟩, by rwa [hid]⟩
  unfold RoutingCandidate.hasWindow at hhas
  rw [heq] at hhas
  simpa [Option.any_eq_true] using hhas

/-- Such a host is among the candidates. -/
theorem Fits.candidate (h : Fits core req ref) (hbook : core.scratch.book.Consistent)
    (hbuild : ∀ ref ∈ refs, Buildable cfg (core.registry.heap ref)) (href : ref ∈ refs)
    (hallows : LeaseAllows core.scratch.book req.token (core.registry.heap ref).hostId
      (cfg.leaseClock core.scratch.readings)) :
    ∃ candidates st, currentCandidates cfg core.registry core.health req.token refs core.scratch =
        (.ok candidates, st) ∧
      ∃ c ∈ candidates, c.hasWindow (neededWindow req.body) = true := by
  obtain ⟨candidates, st, hcand, c, hc, -, hwindow⟩ :=
    currentCandidates_complete hbook hbuild href h.free h.healthy hallows
  refine ⟨candidates, st, hcand, c, hc, ?_⟩
  obtain ⟨window, hsome, hle⟩ := h.window
  simp [RoutingCandidate.hasWindow, hwindow, hsome, hle]

/-! ## A turn of the wait loop -/

theorem sleepAgain_not_sent (core : Core) (req : Request) (w : Wait) :
    (sleepAgain cfg requestId core req w).2.phase.sent = false := by
  unfold sleepAgain
  split <;> rfl

theorem sleepAgain_sentOrWaits (core : Core) (req : Request) (w : Wait) :
    (sleepAgain cfg requestId core req w).2.phase.SentOrWaits := by
  unfold sleepAgain
  split <;> trivial

theorem poll_fits (hbook : core.scratch.book.Consistent)
    (h : (poll cfg requestId core req w).2.phase.sent = true) :
    ∃ ref ∈ w.modelHosts, Fits core req ref ∧
      LeaseAllows core.scratch.book req.token (core.registry.heap ref).hostId
        (cfg.leaseClock core.scratch.readings) := by
  unfold poll at h
  simp only at h
  split at h
  · cases h
  · rw [sleepAgain_not_sent] at h
    cases h
  · next hcand =>
    split at h
    · cases h
    · split at h
      · exact fits_of_candidate hbook hcand (route_fits h)
      · rw [sleepAgain_not_sent] at h
        cases h

/-- A request for which there is such a host is sent, or its turn has not come. -/
theorem Fits.polled (h : Fits core req ref) (hcore : SoundCore cfg core)
    (hoffers : Offers core.registry w.modelHosts) (href : ref ∈ w.modelHosts)
    (hallows : LeaseAllows core.scratch.book req.token (core.registry.heap ref).hostId
      (cfg.leaseClock core.scratch.readings)) :
    (poll cfg requestId core req w).2.phase.SentOrWaits := by
  obtain ⟨candidates, st, hcand, hwindow⟩ := h.candidate hcore.book
    (fun ref href => hcore.buildable (hoffers ref href).1) href hallows
  generalize hpoll : poll cfg requestId core req w = turned
  cases (hpoll ▸ poll_turn hcore hoffers : Turn cfg requestId core req w turned) with
  | refuses raised =>
    rw [hcand] at raised
    cases raised
  | asleep same => exact sleepAgain_sentOrWaits _ _ _
  | routed found ready scores =>
    rw [hcand] at found
    cases found
    exact Phase.sentOrWaits_of_sent (route_sent ready scores hwindow)

/-! ## The end of the discovery -/

/-- The leases let the request through to the host: at the second look too, if it has one. -/
structure LetsIn (cfg : Config) (st : Scratch) (token : Option String) (hostId : String) :
    Prop where
  first : LeaseAllows st.book token hostId (cfg.leaseClock st.readings)
  second : token ≠ none → LeaseAllows st.book token hostId (cfg.leaseClock (st.readings + 1))

variable {book book' : NodeLeaseBook} {leaseTime : Int} {hosts : List Nat}

/-- Where all capable hosts have one id, the request may use this host. -/
theorem usableHosts_sole (hbook : book.Consistent)
    (hsole : ∀ ref ∈ capable, (reg.heap ref).hostId = hostId)
    (h : usableHosts reg req leaseTime capable budgetBlocked book = (.ok hosts, book')) :
    LeaseAllows book req.token hostId leaseTime ∧ (req.token ≠ none → book' = book) := by
  unfold usableHosts at h
  cases htoken : req.token with
  | none =>
    refine ⟨?_, fun hnot => absurd rfl hnot⟩
    simp only [htoken] at h
    cases hopen : (openHosts reg leaseTime capable book).1 with
    | nil =>
      rw [hopen] at h
      cases h
    | cons ref rest =>
      have hmem : ref ∈ (openHosts reg leaseTime capable book).1 := by
        rw [hopen]
        exact List.mem_cons_self
      obtain ⟨href, hfree⟩ := (mem_openHosts hbook).mp hmem
      exact hsole ref href ▸ hfree
  | some token =>
    simp only [htoken] at h
    split at h
    · cases h
    · next pinned book'' hreq =>
      obtain ⟨hlease, hlive, rfl⟩ := NodeLeaseBook.require_ok hreq
      cases hpinned : capable.filter fun ref => (reg.heap ref).hostId = pinned.hostId with
      | nil =>
        rw [hpinned] at h
        cases h
      | cons ref rest =>
        rw [hpinned] at h
        cases h
        have hmem : ref ∈ capable.filter fun ref => (reg.heap ref).hostId = pinned.hostId := by
          rw [hpinned]
          exact List.mem_cons_self
        obtain ⟨href, hid⟩ := List.mem_filter.mp hmem
        refine ⟨⟨pinned, hlease, hlive, ?_⟩, fun _ => rfl⟩
        rw [← hsole ref href]
        exact (of_decide_eq_true hid).symm

/-- A capable host the request may use leaves it hosts to go on with. -/
theorem usableHosts_of_allowed (budgetBlocked : Bool) (hbook : book.Consistent)
    (href : ref ∈ capable)
    (hallows : LeaseAllows book req.token (reg.heap ref).hostId leaseTime) :
    ∃ hosts book', usableHosts reg req leaseTime capable budgetBlocked book = (.ok hosts, book') ∧
      (req.token = none → book'.byHost.get? (reg.heap ref).hostId = none) ∧
      (req.token ≠ none → book' = book) := by
  unfold usableHosts
  cases htoken : req.token with
  | none =>
    rw [htoken] at hallows
    have hopen := (mem_openHosts hbook).mpr ⟨href, hallows⟩
    have hstays := openHosts_stays hbook hopen
    simp only
    split
    · next hnil =>
      rw [hnil] at hopen
      cases hopen
    · exact ⟨_, _, rfl, fun _ => hstays, fun hnot => absurd rfl hnot⟩
  | some token =>
    rw [htoken] at hallows
    obtain ⟨lease, hlease, hlive, hid⟩ := hallows
    simp only [NodeLeaseBook.require_of_live hlease hlive]
    have hmem : ref ∈ capable.filter fun ref => (reg.heap ref).hostId = lease.hostId :=
      List.mem_filter.mpr ⟨href, by simp [hid]⟩
    split
    · next hnil =>
      rw [hnil] at hmem
      cases hmem
    · exact ⟨_, _, rfl, nofun, fun _ => rfl⟩

/-- Where all capable hosts have one id, a request that is sent fits there and is let in. -/
theorem afterDiscovery_fits (hbook : core.scratch.book.Consistent)
    (hsole : ∀ ref ∈ capable, (core.registry.heap ref).hostId = hostId)
    (h : (afterDiscovery cfg requestId core req capable budgetBlocked).2.phase.sent = true) :
    ∃ ref ∈ capable, Fits core req ref ∧ LetsIn cfg core.scratch req.token hostId := by
  unfold afterDiscovery leaseNow at h
  simp only at h
  generalize husable : usableHosts _ _ _ _ _ _ = usable at h
  obtain ⟨checked, book⟩ := usable
  have hlook := looked_usableHosts core.registry req (cfg.leaseClock core.scratch.readings) capable
    budgetBlocked hbook
  rw [husable] at hlook
  cases checked with
  | error e => cases h
  | ok hosts =>
    simp only at h
    split at h
    · cases h
    · rw [sleepAgain_not_sent] at h
      cases h
    · next hcand =>
      obtain ⟨ref, href, hfits, hallows⟩ := fits_of_candidate hlook.consistent hcand (route_fits h)
      obtain ⟨hfirst, hkept⟩ := usableHosts_sole hbook hsole husable
      refine ⟨ref, href, ⟨hfits.free, hfits.healthy, hfits.window⟩, hfirst, fun htoken => ?_⟩
      rw [← hsole ref href, ← hkept htoken]
      exact hallows

/-- If a capable host fits and lets the request in, the request is sent. -/
theorem Fits.sent (h : Fits core req ref) (hcore : SoundCore cfg core)
    (hoffers : Offers core.registry capable) (href : ref ∈ capable)
    (hlets : LetsIn cfg core.scratch req.token (core.registry.heap ref).hostId) :
    (afterDiscovery cfg requestId core req capable budgetBlocked).2.phase.sent = true := by
  obtain ⟨hosts, book, husable, hopen, hkept⟩ :=
    usableHosts_of_allowed budgetBlocked hcore.book href hlets.first
  have hlook := looked_usableHosts core.registry req (cfg.leaseClock core.scratch.readings) capable
    budgetBlocked hcore.book
  rw [husable] at hlook
  -- the second look, in the book the first one leaves
  let looked : Scratch := { core.scratch with readings := core.scratch.readings + 1, book }
  have hallows : LeaseAllows book req.token (core.registry.heap ref).hostId
      (cfg.leaseClock (core.scratch.readings + 1)) := by
    cases htoken : req.token with
    | none =>
      rintro ⟨lease, hlease, -⟩
      rw [hopen htoken] at hlease
      cases hlease
    | some token =>
      have hsome : req.token ≠ none := by simp [htoken]
      rw [hkept hsome, ← htoken]
      exact hlets.second hsome
  have hfits : Fits (core.withScratch looked) req ref := ⟨h.free, h.healthy, h.window⟩
  obtain ⟨candidates, st, hcand, hwindow⟩ : ∃ candidates st,
      currentCandidates cfg core.registry core.health req.token capable looked =
        (.ok candidates, st) ∧ ∃ c ∈ candidates, c.hasWindow (neededWindow req.body) = true :=
    hfits.candidate hlook.consistent (fun ref href => hcore.buildable (hoffers ref href).1) href
      hallows
  unfold afterDiscovery leaseNow
  simp only [husable]
  generalize hfound : currentCandidates _ _ _ _ _ _ = found
  obtain rfl : found = (.ok candidates, st) := hfound.symm.trans hcand
  cases candidates with
  | nil =>
    obtain ⟨c, hc, -⟩ := hwindow
    cases hc
  | cons c cs =>
    refine route_sent ?_ hcore.scores hwindow
    exact hcore.registry.ready hlook.consistent hoffers hcand rfl fun _ hid => hid

end

/-! ## One host and all hosts -/

section

variable {cfg : Config} {requestId : String} {now : Int} {answers : String → Option (List String)}
  {reg : HostRegistry} {core : Core} {req : Request} {a b : Scratch} {hostId : String} {ref : Nat}
  {leaseHeader : Option String} {body : ChatCompletionRequest} {s : State} {w : Wait}

theorem mem_hostRefs_only (h : ref ∈ (reg.only hostId).hostRefs) :
    ref ∈ reg.hostRefs ∧ (reg.heap ref).hostId = hostId := by
  obtain ⟨id, hid⟩ := (Dict.mem_values _).mp h
  simp only [HostRegistry.only, Dict.get?_filter, Option.filter_eq_some_iff,
    decide_eq_true_eq] at hid
  exact ⟨(Dict.mem_values _).mpr ⟨id, hid.1⟩, (reg.hostId_eq hid.1).trans hid.2⟩

theorem LetsIn.congr {token : Option String} (h : LetsIn cfg a token hostId)
    (hbook : b.book = a.book) (hreadings : b.readings = a.readings) :
    LetsIn cfg b token hostId := by
  refine ⟨?_, ?_⟩
  · rw [hbook, hreadings]
    exact h.first
  · rw [hbook, hreadings]
    exact h.second

/-- A host found capable may serve some model. -/
theorem allowed_of_capableNow {model : String}
    (h : capableNow cfg reg model answers a ref = true) :
    (reg.heap ref).capabilities.allowedModels ≠ some [] := by
  intro hnone
  unfold capableNow at h
  simp only [hnone] at h
  cases h

/-- A request that is sent with one host alone is sent with all of them. -/
theorem handled_sent (h : SoundCore cfg core)
    (hsent : (handled cfg requestId now answers (core.only hostId) leaseHeader body).phase.sent =
      true) : (handled cfg requestId now answers core leaseHeader body).phase.sent = true := by
  have hbuilds : ∀ ref ∈ core.registry.hostRefs,
      ∃ b, cfg.factory (core.registry.heap ref).capabilities = .ok b := fun ref href =>
    (h.registry.sound ref (HostRegistry.hostRefs_lt href)).builds
  have henters := enters_of_sent hsent
  -- alone, the host fits and lets the request in
  obtain ⟨st, phase, found, blocked, hbook, hreadings, hfound, heq⟩ :=
    handled_of_enters requestId now answers body henters
      fun ref href => hbuilds ref (mem_hostRefs_only href).1
  rw [heq] at hsent
  have hconsistent : ((core.only hostId).withScratch st).scratch.book.Consistent :=
    (congrArg NodeLeaseBook.Consistent hbook).mpr h.book
  have hsole : ∀ ref ∈ found,
      (((core.only hostId).withScratch st).registry.heap ref).hostId = hostId := fun ref href =>
    (mem_hostRefs_only ((hfound ref).mp href).1).2
  obtain ⟨ref, href, hfits, hlets⟩ := afterDiscovery_fits hconsistent hsole hsent
  obtain ⟨hmem, hcapable⟩ := (hfound ref).mp href
  obtain ⟨hregistered, hid⟩ := mem_hostRefs_only hmem
  -- and so it does among the others
  have henters' : Enters cfg core (leaseHeader.filter (· ≠ "")) := henters
  obtain ⟨st', phase', found', blocked', hbook', hreadings', hfound', heq'⟩ :=
    handled_of_enters requestId now answers body henters' hbuilds
  have hcore : SoundCore cfg (core.withScratch st') :=
    ⟨h.registry, (congrArg NodeLeaseBook.Consistent hbook').mpr h.book, h.scores, h.wf, h.callbacks⟩
  have hoffers : Offers core.registry found' := by
    intro x hx
    obtain ⟨hx, hxcapable⟩ := (hfound' x).mp hx
    exact ⟨HostRegistry.hostRefs_lt hx, allowed_of_capableNow hxcapable⟩
  have hown : Fits (core.withScratch st')
      { newRequest core leaseHeader body now with phase := phase' } ref :=
    ⟨hfits.free, hfits.healthy, hfits.window⟩
  rw [heq']
  refine hown.sent hcore hoffers ((hfound' ref).mpr ⟨hregistered, hcapable⟩) ?_
  have hlets' : LetsIn cfg st' (newRequest core leaseHeader body now).token hostId :=
    hlets.congr (hbook'.trans hbook.symm) (hreadings'.trans hreadings.symm)
  rwa [← hid] at hlets'

/-- A waiting request that is sent with one host alone is sent with all of them, or goes on
waiting. -/
theorem poll_sentOrWaits (h : SoundCore cfg core) (hoffers : Offers core.registry w.modelHosts)
    (hsent : (poll cfg requestId (core.only hostId) req
      (w.only core.registry hostId)).2.phase.sent = true) :
    (poll cfg requestId core req w).2.phase.SentOrWaits := by
  have hbook : (core.only hostId).scratch.book.Consistent := h.book
  obtain ⟨ref, href, hfits, hallows⟩ := poll_fits hbook hsent
  have hown : Fits core req ref := ⟨hfits.free, hfits.healthy, hfits.window⟩
  exact hown.polled h hoffers (List.mem_filter.mp href).1 hallows

theorem SoundState.isolated (h : SoundState cfg s) : Isolated cfg s where
  arrives _ _ _ _ _ _ := handled_sent h.core
  polls requestId req w hostId hreq hw := by
    refine poll_sentOrWaits h.core ?_
    have hfound := h.found hreq
    rwa [Request.found, hw] at hfound
  raisesNot _ _ _ _ _ hran hbefore hreturns := (h.fine hran hbefore hreturns).unharmed

end

/-- In every run in which only sound records are stored, and no backend raises when it is asked for
its models, its health or its load: the other hosts break neither a request nor a sweep. -/
theorem hosts_isolated {V : Type} [PyFloat V] (hV : PyFloat.Divides V) {cfg : Config}
    {s₀ s : Swept} {es : List SweptEvent} (hstart : SoundStart cfg s₀.gateway)
    (hidle : s₀.sweep = none)
    (hrun : Run (Guarded (Swept.StoresSound cfg) (Fires (Swept.step cfg))) s₀ es s) :
    Isolated cfg s.gateway ∧ ∀ sw, s.sweep = some sw → s.SweepGoesOn V sw := by
  refine ⟨?_, Swept.sweepGoesOn_run hV hstart hidle hrun⟩
  obtain ⟨es', hgateway⟩ := Swept.gateway_run hrun
  exact (soundState_run hstart hgateway).isolated

/-! ## Two nodes -/

theorem Lab.soundStart : SoundStart config start where
  toStarted := started
  registered ref href := absurd href (Nat.not_lt_zero ref)
  sound ref href := absurd href (Nat.not_lt_zero ref)
  scores context c rule hrule _ := by
    obtain rfl := List.mem_singleton.mp hrule
    exact Option.some_ne_none _

/-- A node registered with a limit other than zero. -/
theorem Lab.soundRecord {hostId : String} (hlatin : isLatin1 hostId = true)
    (allowedModels : Option (List String)) {limit : Int} (hlimit : limit ≠ 0) (s : State) :
    StoresSound config s (register hostId allowedModels limit) where
  builds := ⟨true, rfl⟩
  limit := ⟨limit, rfl, hlimit⟩
  window _ _ := ⟨8192, rfl, Or.inl hlatin⟩

/-- Two nodes in a sweep that has recorded the first of them. -/
theorem hosts_isolated_two_nodes :
    ∃ s sw, Run (Guarded (Swept.StoresSound Lab.config) (Fires (Swept.step Lab.config)))
        ⟨Lab.start, none⟩
        [.gateway (Lab.register "gpu-1" (some ["m"]) 1), .gateway (Lab.register "gpu-2" none 2),
          .start, .build 0, .checked 0 (.ok true) 0] s ∧
      s.sweep = some sw ∧ sw.recorded = ["gpu-1"] ∧ Isolated Lab.config s.gateway ∧
      s.SweepGoesOn Quotient sw := by
  have hshows : (exec (Swept.step Lab.config) ⟨Lab.start, none⟩
      [.gateway (Lab.register "gpu-1" (some ["m"]) 1), .gateway (Lab.register "gpu-2" none 2),
        .start, .build 0, .checked 0 (.ok true) 0]).map
      (fun s => s.sweep.map (·.recorded)) = some (some ["gpu-1"]) := by decide +kernel
  obtain ⟨s, hrun, hshown⟩ := run_of_shows hshows
  obtain ⟨sw, hsweep, hrecorded⟩ := Option.map_eq_some_iff.mp hshown
  have hguarded := hrun.guard (G := Swept.StoresSound Lab.config) fun e he a => by
    fin_cases he
    · exact Lab.soundRecord (by decide) _ (by decide) a.gateway
    · exact Lab.soundRecord (by decide) _ (by decide) a.gateway
    · trivial
    · trivial
    · trivial
  obtain ⟨hisolated, hgoesOn⟩ := hosts_isolated divides_quotient Lab.soundStart rfl hguarded
  exact ⟨s, sw, hguarded, hsweep, hrecorded, hisolated, hgoesOn sw hsweep⟩

/-- A record is stored. -/
def Event.Stores : Event → Prop
  | .admin (.register _ _ _ _) | .admin (.patch _ _ _) => True
  | _ => False

def Lab.noLimit (hostId : String) : Event :=
  .admin (.patch hostId { maxConcurrentRequests := some none } 0)

/-- A PATCH sets the limit of `gpu-2` to null. What `gpu-1` alone would answer ends in a
`TypeError`. -/
theorem hosts_not_isolated :
    ¬ ∀ (es : List Event) (s : State),
      Run (Guarded (fun _ e => e.Stores) (Fires (step Lab.config))) Lab.start es s →
      Isolated Lab.config s := by
  intro hall
  have hshows : (exec (step Lab.config) Lab.start
      [Lab.register "gpu-1" (some ["m"]) 1, Lab.register "gpu-2" (some ["m"]) 1,
        Lab.noLimit "gpu-2"]).map
      (fun s => ((handled Lab.config "a" 0 (fun _ => none) (s.core.only "gpu-1") none
          { model := "m", messages := [⟨"user", "hi"⟩] }).phase.sent,
        (handled Lab.config "a" 0 (fun _ => none) s.core none
          { model := "m", messages := [⟨"user", "hi"⟩] }).phase.sent)) = some (true, false) := by
    decide +kernel
  obtain ⟨s, hrun, hshown⟩ := run_of_shows hshows
  obtain ⟨halone, hamong⟩ := Prod.mk.inj hshown
  have hguarded := hrun.guard (G := fun _ e => e.Stores) fun e he a => by
    fin_cases he <;> trivial
  have hsent := (hall _ s hguarded).arrives _ _ _ _ _ _ halone
  rw [hamong] at hsent
  cases hsent

end LlmHomeLab
