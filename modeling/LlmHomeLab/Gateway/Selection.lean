import LlmHomeLab.Gateway.Cache

/-! # What a request selects its backend from

The model hosts a request has when it comes to `router.select_backend`, and the candidates it
passes there. `Selects` says of a move what it can have done to the backend cache, and that the
host whose slot it acquires is one of the candidates, with the backend of the record the request
holds of it in the cache.
-/

namespace LlmHomeLab

/-! ## Model -/

section

variable (cfg : Config)

/-- The candidates, where looking them up does not raise. -/
def offered : Except Exn (List RoutingCandidate) → List RoutingCandidate
  | .ok candidates => candidates
  | .error _ => []

/-- Model hosts and candidates at the end of a discovery, as `afterDiscovery` finds them. -/
def selectionAfter (core : Core) (req : Request) (capable : List Nat) (budgetBlocked : Bool) :
    List Nat × List RoutingCandidate :=
  let (leaseTime, st) := leaseNow cfg core.scratch
  let usable := usableHosts core.registry req leaseTime capable budgetBlocked st.book
  (capable, offered (currentCandidates cfg core.registry core.health req.token capable
    (st.withBook usable.2)).1)

/-- The same for a discovery that has still to go on; nothing, if it does not come to its end. -/
def selectionFrom (core : Core) (req : Request) (d : Discovery) :
    List Nat × List RoutingCandidate :=
  match discover cfg core.registry req.body.model d.capable d.anyBudgetBlocked d.pending
      core.scratch with
  | (.done capable budgetBlocked, st) =>
    selectionAfter cfg (core.withScratch st) req capable budgetBlocked
  | _ => ([], [])

/-- Model hosts and candidates of a request that has just arrived. -/
def selectionAtBegin (core : Core) (req : Request) : List Nat × List RoutingCandidate :=
  let (leaseTime, st) := leaseNow cfg core.scratch
  match req.token with
  | none => selectionFrom cfg (core.withScratch st) req ⟨req.snapshot, [], false⟩
  | some token =>
    selectionFrom cfg (core.withScratch (st.withBook (st.book.require token leaseTime).2)) req
      ⟨req.snapshot, [], false⟩

/-- Model hosts and candidates of a request that goes on from its `await`. -/
def selectionAtResume (core : Core) (req : Request) (signal : Signal) :
    List Nat × List RoutingCandidate :=
  match req.phase, signal with
  | .discovering ref d, .listed (.ok loaded) =>
    selectionFrom cfg core req (d.listed core.registry req.body.model ref loaded)
  | .waiting w, .slept =>
    (w.modelHosts, offered (currentCandidates cfg core.registry core.health req.token w.modelHosts
      core.scratch).1)
  | _, _ => ([], [])

/-- Model hosts and candidates of the request that takes the step. -/
def selection (s : State) : Event → List Nat × List RoutingCandidate
  | .admin _ => ([], [])
  | .arrive _ leaseHeader body now =>
    selectionAtBegin cfg s.core (newRequest s.core leaseHeader body now)
  | .resume requestId signal _ =>
    match s.requests.get? requestId with
    | none => ([], [])
    | some req => selectionAtResume cfg s.core req signal

end

/-! ## What a move selects -/

variable {cfg : Config} {requestId : String} {now : Int} {core₀ core core' : Core}
  {req req' : Request} {sel : List Nat × List RoutingCandidate}

/-- The host is one of the candidates and the record one of its model hosts; the cache holds
the backend of this record, and the host was routed with its context window. -/
structure SelectedAs (core : Core) (req : Request) (core' : Core)
    (sel : List Nat × List RoutingCandidate) (hostId : String) (ref : Nat) : Prop where
  modelHost : ref ∈ sel.1
  captured : ref ∈ req.captured
  ofHost : (core.registry.heap ref).hostId = hostId
  built : core'.scratch.Built hostId (core.registry.heap ref).capabilities
  candidate : ∃ c ∈ sel.2, c.backend.backendId = hostId
  window : ∀ c ∈ sel.2, c.backend.backendId = hostId →
    c.contextWindow = (core.registry.heap ref).capabilities.contextWindow

structure Selects (cfg : Config) (core : Core) (req : Request) (core' : Core) (req' : Request)
    (sel : List Nat × List RoutingCandidate) : Prop where
  refills : Refills cfg (Asked core req) core.scratch core'.scratch
  sent : core.scratch.Tied → DistinctHosts core.registry req.captured → req.slot = none →
    ∀ hostId, req'.slot = some hostId → ∃ ref, SelectedAs core req core' sel hostId ref

/-- A move without a slot. -/
theorem Selects.keep (hrefills : Refills cfg (Asked core req) core.scratch core'.scratch)
    (hslot : req'.slot = req.slot) : Selects cfg core req core' req' sel := by
  refine ⟨hrefills, fun _ _ hnone hostId hsome => ?_⟩
  rw [hslot, hnone] at hsome
  cases hsome

theorem openStream_slot (core : Core) (req : Request) (hostId : String) (failoverInPlay : Bool) :
    (openStream requestId core req hostId failoverInPlay).2.slot = req.slot := by
  unfold openStream releaseThen
  simp only
  split
  · rfl
  · split <;> rfl

/-- The host whose slot is acquired is one of the candidates. -/
theorem route_slot {candidates : List RoutingCandidate} {failoverInPlay : Bool} {hostId : String}
    (hnone : req.slot = none)
    (h : (route requestId core req candidates failoverInPlay).2.slot = some hostId) :
    ∃ c ∈ candidates, c.backend.backendId = hostId := by
  unfold route at h
  simp only at h
  split at h
  · simp [Request.fail, hnone] at h
  · next decision router hselect =>
    obtain ⟨c, hc, hid⟩ := RoutingEngine.selectBackend_mem hselect
    refine ⟨c, hc, hid.trans ?_⟩
    split at h
    · split at h
      · simp [Request.fail, hnone] at h
      · split at h
        · rw [openStream_slot] at h
          exact Option.some.inj h
        · exact Option.some.inj h
    · simp [Request.fail, hnone] at h

theorem sleepAgain_slot (core : Core) (req : Request) (w : Wait) :
    (sleepAgain cfg requestId core req w).2.slot = req.slot := by
  unfold sleepAgain
  split <;> rfl

/-- A candidate that was looked up just now is what the cache holds. -/
theorem selectedAs_of_candidate {st st' : Scratch} {modelHosts : List Nat}
    {candidates : List RoutingCandidate} {c : RoutingCandidate}
    (htied : st.Tied) (hbook : st.book.Consistent)
    (hdistinct : DistinctHosts core.registry modelHosts)
    (h : currentCandidates cfg core.registry core.health req.token modelHosts st =
      (.ok candidates, st')) (hc : c ∈ candidates) :
    ∃ ref ∈ modelHosts, (core.registry.heap ref).hostId = c.backend.backendId ∧
      (core.registry.heap ref).Free ∧
      core.health.isHealthy (core.registry.heap ref).hostId = true ∧
      st'.Built c.backend.backendId (core.registry.heap ref).capabilities := by
  obtain ⟨ref, href, hid, hfree, hhealthy, hallows, -⟩ := mem_currentCandidates hbook h hc
  have hbuilt := currentCandidates_built htied hbook hdistinct h href hfree hhealthy
    (by rw [hid]; exact hallows)
  rw [hid] at hbuilt
  exact ⟨ref, href, hid, hfree, hhealthy, hbuilt⟩

theorem candidates_window {st st' : Scratch} {modelHosts : List Nat} {ref : Nat}
    {candidates : List RoutingCandidate} (hdistinct : DistinctHosts core.registry modelHosts)
    (h : currentCandidates cfg core.registry core.health req.token modelHosts st =
      (.ok candidates, st')) (href : ref ∈ modelHosts) :
    ∀ c ∈ candidates, c.backend.backendId = (core.registry.heap ref).hostId →
      c.contextWindow = (core.registry.heap ref).capabilities.contextWindow := by
  intro c hc hid
  obtain ⟨other, hother, hhost, hwindow⟩ := currentCandidates_window h hc
  rw [hwindow, hdistinct other hother ref href (hhost.trans hid)]

theorem afterDiscovery_selects {capable : List Nat} {budgetBlocked : Bool}
    (hbook : core₀.scratch.book.Consistent) {st₁ : Scratch} (hlater : Later cfg core₀.scratch st₁)
    (hrefills : Refills cfg (Asked core₀ req) core₀.scratch st₁)
    (hcaptured : ∀ ref ∈ capable, ref ∈ req.captured) :
    Selects cfg core₀ req
      (afterDiscovery cfg requestId (core₀.withScratch st₁) req capable budgetBlocked).1
      (afterDiscovery cfg requestId (core₀.withScratch st₁) req capable budgetBlocked).2
      (selectionAfter cfg (core₀.withScratch st₁) req capable budgetBlocked) := by
  unfold afterDiscovery selectionAfter leaseNow
  simp only [Core.withScratch]
  generalize husable : usableHosts _ _ _ _ _ _ = usable
  obtain ⟨checked, book⟩ := usable
  have hlook := looked_usableHosts core₀.registry req (cfg.leaseClock st₁.readings)
    capable budgetBlocked (hlater.consistent hbook)
  rw [husable] at hlook
  have hrefills₂ : Refills cfg (Asked core₀ req) core₀.scratch
      (Scratch.withBook { st₁ with readings := st₁.readings + 1 } book) :=
    hrefills.then_same ⟨rfl, rfl⟩
  simp only
  split
  · -- no usable host: the request fails before it looks at candidates
    exact .keep hrefills₂ rfl
  · have hrefills₃ : Refills cfg (Asked core₀ req) _
        (currentCandidates cfg core₀.registry core₀.health req.token capable
          (Scratch.withBook { st₁ with readings := st₁.readings + 1 } book)).2 :=
      (currentCandidates_refills req.token capable _).mono fun id caps hpresents =>
        Or.inl (Presents.mono hcaptured id caps hpresents)
    generalize hcand : currentCandidates _ _ _ _ _ _ = found at hrefills₃
    obtain ⟨result, st₃⟩ := found
    have hall := hrefills₂.trans hrefills₃
    split
    · next heq =>
      cases heq
      exact .keep hall rfl
    · next heq =>
      cases heq
      refine .keep ?_ (sleepAgain_slot _ _ _)
      rw [sleepAgain_scratch]
      exact hall
    · next candidates _ _ heq =>
      -- the candidates were looked up in this move: the cache has what was presented
      cases heq
      refine ⟨?_, fun htied hdistinct hnone hostId hslot => ?_⟩
      · rw [route_scratch]
        exact hall
      · obtain ⟨c, hc, hid⟩ := route_slot hnone hslot
        obtain ⟨ref, href, hhost, -, -, hbuilt⟩ := selectedAs_of_candidate (hrefills₂.tied htied)
          hlook.consistent (hdistinct.mono hcaptured) hcand hc
        refine ⟨ref, href, hcaptured ref href, hhost.trans hid, ?_, ⟨c, hc, hid⟩, ?_⟩
        · rw [route_scratch, ← hid]
          exact hbuilt
        · rw [← hid, ← hhost]
          exact candidates_window (hdistinct.mono hcaptured) hcand href

theorem continueDiscovery_selects {d : Discovery} (hbook : core₀.scratch.book.Consistent)
    {st₁ : Scratch} (hlater : Later cfg core₀.scratch st₁)
    (hrefills : Refills cfg (Asked core₀ req) core₀.scratch st₁)
    (hcaptured : ∀ ref ∈ d.pending ++ d.capable, ref ∈ req.captured) :
    Selects cfg core₀ req
      (continueDiscovery cfg requestId (core₀.withScratch st₁) req d).1
      (continueDiscovery cfg requestId (core₀.withScratch st₁) req d).2
      (selectionFrom cfg (core₀.withScratch st₁) req d) := by
  have hpending : ∀ ref ∈ d.pending, ref ∈ req.captured := fun ref href =>
    hcaptured ref (List.mem_append_left _ href)
  have hdiscover : Refills cfg (Asked core₀ req) st₁
      (discover cfg core₀.registry req.body.model d.capable d.anyBudgetBlocked d.pending st₁).2 :=
    (discover_refills req.body.model d.pending d.capable d.anyBudgetBlocked st₁).mono
      fun id caps hpresents => Or.inl (Presents.mono hpending id caps hpresents)
  have hsame := discover_same cfg core₀.registry req.body.model d.pending d.capable
    d.anyBudgetBlocked st₁
  have hrefs := discover_refs cfg core₀.registry req.body.model d.pending d.capable
    d.anyBudgetBlocked st₁
  unfold continueDiscovery selectionFrom
  simp only [Core.withScratch]
  generalize hstop : discover _ _ _ _ _ _ _ = stop at hdiscover hsame hrefs
  obtain ⟨stop, st₂⟩ := stop
  have hall := hrefills.trans hdiscover
  cases stop with
  | raised e => exact .keep hall rfl
  | awaiting ref d' => exact .keep hall rfl
  | done capable budgetBlocked =>
    have hselects : Selects cfg core₀ req
        (afterDiscovery cfg requestId (core₀.withScratch st₂) req capable budgetBlocked).1 _
        (selectionAfter cfg (core₀.withScratch st₂) req capable budgetBlocked) :=
      afterDiscovery_selects hbook (hlater.trans (.of_eq hsame.1 hsame.2)) hall
        fun x hx => hcaptured x (hrefs x hx)
    exact hselects

theorem begin_selects (hphase : req.phase = .arrived) (hbook : core.scratch.book.Consistent) :
    Selects cfg core req (begin cfg requestId core req).1 (begin cfg requestId core req).2
      (selectionAtBegin cfg core req) := by
  have hcaptured : ∀ ref ∈ (⟨req.snapshot, [], false⟩ : Discovery).pending ++ [],
      ref ∈ req.captured := by simp [Request.captured, hphase]
  unfold begin selectionAtBegin leaseNow
  simp only
  cases req.token with
  | none =>
    exact continueDiscovery_selects hbook (later_leaseNow core.scratch) (.same ⟨rfl, rfl⟩) hcaptured
  | some token =>
    have hlook := NodeLeaseBook.looked_require hbook token (cfg.leaseClock core.scratch.readings)
    simp only
    generalize core.scratch.book.require token (cfg.leaseClock core.scratch.readings) = checked
      at hlook
    obtain ⟨result, book⟩ := checked
    cases result with
    | error e => exact .keep (.same ⟨rfl, rfl⟩) rfl
    | ok lease =>
      have hlater : Later cfg core.scratch
          (Scratch.withBook { core.scratch with readings := core.scratch.readings + 1 } book) :=
        .of_looked rfl fun _ => hlook
      exact continueDiscovery_selects hbook hlater (.same ⟨rfl, rfl⟩) hcaptured

/-- A poll that lets the request through has run the request's own callback last. -/
theorem poll_selects {w : Wait} (hphase : req.phase = .waiting w)
    (hbook : core.scratch.book.Consistent)
    (hown : core.queue.eligibility.get? requestId = some ⟨req.token, w.modelHosts⟩) :
    Selects cfg core req (poll cfg requestId core req w).1 (poll cfg requestId core req w).2
      (w.modelHosts, offered (currentCandidates cfg core.registry core.health req.token
        w.modelHosts core.scratch).1) := by
  have hcaptured : ∀ ref ∈ w.modelHosts, ref ∈ req.captured := by
    simp [Request.captured, hphase]
  have hrefills : Refills cfg (Asked core req) core.scratch
      (currentCandidates cfg core.registry core.health req.token w.modelHosts core.scratch).2 :=
    (currentCandidates_refills req.token w.modelHosts core.scratch).mono
      fun id caps hpresents => Or.inl (Presents.mono hcaptured id caps hpresents)
  have hlater := currentCandidates_later cfg core.registry core.health req.token w.modelHosts
    core.scratch
  unfold poll
  simp only
  generalize hcand : currentCandidates _ _ _ _ _ _ = found at hrefills hlater
  obtain ⟨result, st₁⟩ := found
  split
  · next heq =>
    cases heq
    exact .keep hrefills rfl
  · next heq =>
    cases heq
    refine .keep ?_ (sleepAgain_slot _ _ _)
    rw [sleepAgain_scratch]
    exact hrefills
  · next candidates _ _ heq =>
    cases heq
    have hdispatch : Refills cfg (Asked (core.withScratch st₁) req) st₁
        (dispatchFor cfg requestId (core.withScratch st₁)
          (candidates.map (·.backend.backendId))).2.2 :=
      dispatchFor_refills req _
    generalize hdisp : dispatchFor _ _ _ _ = dispatched at hdispatch
    obtain ⟨res, queue, st₂⟩ := dispatched
    have hall : Refills cfg (Asked core req) core.scratch st₂ := hrefills.trans hdispatch
    split
    · next heq =>
      cases heq
      exact .keep hall rfl
    · next heq =>
      cases heq
      split
      · next hdispatched =>
        subst hdispatched
        refine ⟨?_, fun htied hdistinct hnone hostId hslot => ?_⟩
        · rw [route_scratch]
          exact hall
        · obtain ⟨c, hc, hid⟩ := route_slot hnone hslot
          have hmodel := hdistinct.mono hcaptured
          obtain ⟨ref, href, hhost, hfree, hhealthy, -⟩ :=
            selectedAs_of_candidate htied hbook hmodel hcand hc
          -- the callback has looked the host up once more, after those of the others
          have hstays := currentCandidates_stays hbook hcand hc
          obtain ⟨a, own, hla, hta, hagain⟩ := dispatchFor_own hdisp hown
          have hlater₁ : Later cfg core.scratch a := hlater.1.trans hla
          have hallows := (hstays.later (hlater.1.consistent hbook) hla).allows hagain
          have hbuilt := currentCandidates_built (hta (hrefills.tied htied))
            (hlater₁.consistent hbook) hmodel hagain href hfree hhealthy
            (by rw [hhost]; exact hallows)
          refine ⟨ref, href, hcaptured ref href, hhost.trans hid, ?_, ⟨c, hc, hid⟩, ?_⟩
          · rw [route_scratch, ← hid, ← hhost]
            exact hbuilt
          · rw [← hid, ← hhost]
            exact candidates_window hmodel hcand href
      · refine .keep ?_ (sleepAgain_slot _ _ _)
        rw [sleepAgain_scratch]
        exact hall

/-- What comes after the backend call touches neither the cache nor the slot a request got. -/
structure CallEnds (core : Core) (req : Request) (core' : Core) (req' : Request) : Prop where
  scratch : core'.scratch = core.scratch
  slot : req'.slot = req.slot

theorem releaseThen_ends {hostId : String} {next : Core → Request → Core × Request}
    (hsame : SameShared core₀ core) (hnext : Settles next) :
    CallEnds core₀ req (releaseThen core req hostId next).1
      (releaseThen core req hostId next).2 := by
  unfold releaseThen
  split
  · next registry _ =>
    obtain ⟨hshared, hreq, -⟩ := hnext (core.withRegistry registry)
      { req with releases := req.releases ++ [true] }
    exact ⟨hshared.scratch.trans hsame.scratch, hreq.slot⟩
  · exact ⟨hsame.scratch, rfl⟩

theorem afterComplete_ends (hostId : String) (failoverInPlay : Bool)
    (result : Except Exn BackendResponse) :
    CallEnds core req (afterComplete requestId now core req hostId failoverInPlay result).1
      (afterComplete requestId now core req hostId failoverInPlay result).2 := by
  unfold afterComplete
  split
  · exact releaseThen_ends (.refl core) (answer_settles hostId failoverInPlay _)
  · refine releaseThen_ends ?_ (settles_fail _)
    exact (sameShared_recordFailover requestId core _ _).trans (sameShared_recordProbe _ _ _ _)
  · exact releaseThen_ends (.refl core) (settles_fail _)

theorem afterLastChunk_ends (hostId : String) (head : StreamHead) (st : StreamState) :
    CallEnds core req (afterLastChunk now core req hostId head st).1
      (afterLastChunk now core req hostId head st).2 := by
  unfold afterLastChunk
  split
  · exact releaseThen_ends (.refl core) (settles_fail _)
  · refine ⟨?_, rfl⟩
    simp only [Core.recordProbe]
    split <;> split <;> rfl

theorem resumeStream_ends {hostId : String} {phase : StreamPhase} {signal : Signal}
    (h : resumeStream now core req hostId phase signal = some (core', req')) :
    CallEnds core req core' req' := by
  have hrelease : ∀ {next}, Settles next →
      some (releaseThen core req hostId next) = some (core', req') →
      CallEnds core req core' req' := by
    intro next hnext h
    have hends : CallEnds core req (releaseThen core req hostId next).1 _ :=
      releaseThen_ends (.refl core) hnext
    rwa [Option.some.inj h] at hends
  unfold resumeStream at h
  split at h
  · cases h
    exact ⟨rfl, rfl⟩
  · exact hrelease (settles_fail _) h
  · cases h
    exact ⟨rfl, rfl⟩
  · next head st =>
    have hends : CallEnds core req (afterLastChunk now core req hostId head st).1 _ :=
      afterLastChunk_ends hostId head st
    rwa [Option.some.inj h] at hends
  · split at h
    · cases h
      exact ⟨rfl, rfl⟩
    · split at h <;> cases h <;> exact ⟨rfl, rfl⟩
  · cases h
    exact ⟨rfl, rfl⟩
  · cases h
    exact ⟨rfl, rfl⟩
  · refine hrelease ?_ h
    exact fun core req => ⟨.refl core,
      recast_phase req (.streaming hostId .finishing) req.admitted, rfl⟩
  · exact hrelease (settles_fail _) h
  · exact hrelease (settles_fail _) h
  · exact hrelease (settles_fail _) h
  · cases h
    exact ⟨rfl, rfl⟩
  · cases h
    exact ⟨rfl, rfl⟩
  · cases h

theorem CallEnds.selects (h : CallEnds core req core' req') :
    Selects cfg core req core' req' sel :=
  .keep (.same ⟨by rw [h.scratch], by rw [h.scratch]⟩) h.slot

theorem resume_selects {signal : Signal} (hbook : core.scratch.book.Consistent)
    (hown : ∀ w, req.phase = .waiting w →
      core.queue.eligibility.get? requestId = some ⟨req.token, w.modelHosts⟩)
    (h : resume cfg requestId now core req signal = some (core', req')) :
    Selects cfg core req core' req' (selectionAtResume cfg core req signal) := by
  unfold resume at h
  unfold selectionAtResume
  split at h
  · cases h
    exact .keep (.refl _) rfl
  · next ref d loaded hphase =>
    have hselects : Selects cfg core req
        (continueDiscovery cfg requestId core req
          (d.listed core.registry req.body.model ref loaded)).1
        (continueDiscovery cfg requestId core req
          (d.listed core.registry req.body.model ref loaded)).2
        (selectionFrom cfg core req (d.listed core.registry req.body.model ref loaded)) :=
      continueDiscovery_selects hbook (.refl core.scratch) (.refl core.scratch)
        (listed_captured hphase)
    rw [Option.some.inj h] at hselects
    simpa only [hphase] using hselects
  · next w hphase =>
    -- its own callback is the last the dispatch has asked
    have hselects : Selects cfg core req (poll cfg requestId core req w).1 _ _ :=
      poll_selects hphase hbook (hown w hphase)
    rw [Option.some.inj h] at hselects
    simpa only [hphase] using hselects
  · cases h
    exact .keep (.same ⟨rfl, rfl⟩) rfl
  · next hostId failoverInPlay result hphase =>
    -- what follows the call acquires nothing
    have hends : CallEnds core req
        (afterComplete requestId now core req hostId failoverInPlay result).1 _ :=
      afterComplete_ends hostId failoverInPlay result
    rw [Option.some.inj h] at hends
    exact hends.selects
  · exact (resumeStream_ends h).selects
  · cases h

end LlmHomeLab
