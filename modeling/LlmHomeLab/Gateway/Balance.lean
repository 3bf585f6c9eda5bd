import LlmHomeLab.Gateway.Freshness
import LlmHomeLab.Routing.Argmax

/-! # Balanced load

`create_default_app` routes with one rule, which prefers the host with the least load for its
limit. In every run of the gateway a request gets its slot on a host that no other host it could use
undercuts, and of equally loaded ones on the host with the least id. Only a session that is bound to
a host it can still use goes there instead.
-/

namespace LlmHomeLab

/-! ## Statement -/

/-- The policy of `create_default_app`. -/
def defaultPolicy : RoutingPolicy :=
  ⟨[{ name := "prefer-lower-latency", scoreFn := fun c _ => some (-c.latencyMs) }]⟩

/-- The request could be sent to the host of this record, as it is seen at a reading of the lease
clock: it is healthy, has a slot free and the context window, and the leases allow it. -/
structure Usable (cfg : Config) (core : Core) (req : Request) (st : Scratch) (ref : Nat) : Prop where
  free : (core.registry.heap ref).Free
  healthy : core.health.isHealthy (core.registry.heap ref).hostId = true
  allowed : LeaseAllows st.book req.token (core.registry.heap ref).hostId
    (cfg.leaseClock st.readings)
  window : ∃ window, (core.registry.heap ref).capabilities.contextWindow = some window ∧
    neededWindow req.body ≤ window

/-- Less load for its limit, or the same and an id that is not greater. -/
def Undercuts (a b : HostInfo) : Prop :=
  ∃ p q, loadRatio a = .ok p ∧ loadRatio b = .ok q ∧ (p < q ∨ p = q ∧ a.hostId ≤ b.hostId)

/-- Of the usable records among `refs`, the request is sent by this one: by that of the host its
session is bound to, or, where there is none, by one that undercuts them all. -/
structure SentBy (cfg : Config) (core : Core) (req : Request) (st : Scratch) (refs : List Nat)
    (ref : Nat) : Prop where
  mem : ref ∈ refs
  usable : Usable cfg core req st ref
  bound : ∀ other ∈ refs, Usable cfg core req st other →
    core.router.stickyBackendFor req.body.sessionId = some (core.registry.heap other).hostId →
    (core.registry.heap ref).hostId = (core.registry.heap other).hostId
  least : (∀ other ∈ refs, Usable cfg core req st other →
      core.router.stickyBackendFor req.body.sessionId ≠ some (core.registry.heap other).hostId) →
    ∀ other ∈ refs, Usable cfg core req st other →
      Undercuts (core.registry.heap ref) (core.registry.heap other)

/-- The request that acquires the slot of this host is sent there by one of its model hosts, as the
state before the step and a clock reading in the step have them. -/
def Balanced (cfg : Config) (requestId hostId : String) (s : State) (e : Event) (s' : State) :
    Prop :=
  ∃ req st ref, Actor s requestId req e ∧ Later cfg s.core.scratch st ∧
    st.readings < s'.core.scratch.readings ∧ (s.core.registry.heap ref).hostId = hostId ∧
    SentBy cfg s.core req st (selection cfg s e).1 ref

/-! ## Candidates and their loads -/

section

variable {cfg : Config} {reg : HostRegistry} {health : HealthMonitor}

/-- The candidate that is made of a record. -/
structure StandsFor (reg : HostRegistry) (ref : Nat) (c : RoutingCandidate) : Prop where
  id : c.backend.backendId = (reg.heap ref).hostId
  load : loadRatio (reg.heap ref) = .ok c.latencyMs
  window : c.contextWindow = (reg.heap ref).capabilities.contextWindow

/-- The records of healthy hosts with a free slot, each with its candidate. -/
theorem eligibleCandidates_stand {refs : List Nat} {st st' : Scratch}
    {candidates : List RoutingCandidate}
    (h : eligibleCandidates cfg reg health refs st = (.ok candidates, st')) :
    ∃ eligible, List.Forall₂ (StandsFor reg) eligible candidates ∧ eligible.Sublist refs ∧
      ∀ ref, ref ∈ eligible ↔
        ref ∈ refs ∧ (reg.heap ref).Free ∧ health.isHealthy (reg.heap ref).hostId = true := by
  induction refs generalizing st candidates with
  | nil =>
    cases h
    exact ⟨[], .nil, .slnil, by simp⟩
  | cons ref rest ih =>
    -- a host that is passed over
    have hpassed : eligibleCandidates cfg reg health rest st = (.ok candidates, st') →
        ¬ ((reg.heap ref).Free ∧ health.isHealthy (reg.heap ref).hostId = true) →
        ∃ eligible, List.Forall₂ (StandsFor reg) eligible candidates ∧
          eligible.Sublist (ref :: rest) ∧ ∀ x, x ∈ eligible ↔
            x ∈ ref :: rest ∧ (reg.heap x).Free ∧ health.isHealthy (reg.heap x).hostId = true := by
      intro hrest hnot
      obtain ⟨eligible, hstand, hsub, hmem⟩ := ih hrest
      refine ⟨eligible, hstand, hsub.cons ref, fun x => ?_⟩
      rw [hmem, List.mem_cons]
      constructor
      · rintro ⟨hx, hfacts⟩
        exact ⟨Or.inr hx, hfacts⟩
      · rintro ⟨rfl | hx, hfacts⟩
        · exact absurd hfacts hnot
        · exact ⟨hx, hfacts⟩
    unfold eligibleCandidates at h
    simp only at h
    split at h
    · next hsick => exact hpassed h fun hfacts => by simp [hfacts.2] at hsick
    · next hhealthy =>
      split at h
      · cases h
      · next hfull =>
        refine hpassed h fun hfacts => ?_
        rw [HostInfo.belowLimit_eq_true.mpr hfacts.1] at hfull
        cases hfull
      · next hbelow =>
        split at h
        · cases h
        · next latencyMs hload =>
          split at h
          · cases h
          · next backend st₁ hbackend =>
            split at h
            · cases h
            · next others st₂ hothers =>
              cases h
              obtain ⟨eligible, hstand, hsub, hmem⟩ := ih hothers
              refine ⟨ref :: eligible, .cons ⟨backendFor_ok hbackend, hload, rfl⟩ hstand,
                hsub.cons_cons ref, fun x => ?_⟩
              rw [List.mem_cons, hmem, List.mem_cons]
              constructor
              · rintro (rfl | ⟨hx, hfacts⟩)
                · exact ⟨Or.inl rfl, HostInfo.belowLimit_eq_true.mp hbelow, by simpa using hhealthy⟩
                · exact ⟨Or.inr hx, hfacts⟩
              · rintro ⟨rfl | hx, hfacts⟩
                · exact Or.inl rfl
                · exact Or.inr ⟨hx, hfacts⟩

theorem openHosts_sublist (reg : HostRegistry) (now : Int) (refs : List Nat)
    (book : NodeLeaseBook) : (openHosts reg now refs book).1.Sublist refs := by
  induction refs generalizing book with
  | nil => exact .slnil
  | cons ref rest ih =>
    simp only [openHosts]
    split
    · exact (ih _).cons ref
    · exact (ih _).cons_cons ref

/-- The candidates of a request stand for those model hosts, in their order, that are healthy, have
a slot free and are allowed by the leases at the reading. -/
theorem currentCandidates_stand {token : Option String} {modelHosts : List Nat} {st st' : Scratch}
    (hbook : st.book.Consistent) {candidates : List RoutingCandidate}
    (h : currentCandidates cfg reg health token modelHosts st = (.ok candidates, st')) :
    ∃ eligible, List.Forall₂ (StandsFor reg) eligible candidates ∧ eligible.Sublist modelHosts ∧
      ∀ ref, ref ∈ eligible ↔ ref ∈ modelHosts ∧ (reg.heap ref).Free ∧
        health.isHealthy (reg.heap ref).hostId = true ∧
        LeaseAllows st.book token (reg.heap ref).hostId (cfg.leaseClock st.readings) := by
  unfold currentCandidates leaseNow at h
  simp only at h
  cases token with
  | none =>
    obtain ⟨eligible, hstand, hsub, hmem⟩ := eligibleCandidates_stand h
    refine ⟨eligible, hstand, hsub.trans (openHosts_sublist _ _ _ _), fun ref => ?_⟩
    rw [hmem, mem_openHosts hbook]
    exact ⟨fun hx => ⟨hx.1.1, hx.2.1, hx.2.2, hx.1.2⟩, fun hx => ⟨⟨hx.1, hx.2.2.2⟩, hx.2.1, hx.2.2.1⟩⟩
  | some token =>
    simp only at h
    split at h
    · cases h
    · next live book hreq =>
      obtain ⟨hget, hlive, -⟩ := NodeLeaseBook.require_ok hreq
      obtain ⟨eligible, hstand, hsub, hmem⟩ := eligibleCandidates_stand h
      refine ⟨eligible, hstand, hsub.trans List.filter_sublist, fun ref => ?_⟩
      rw [hmem, List.mem_filter, decide_eq_true_eq]
      constructor
      · rintro ⟨⟨hx, hpin⟩, hfree, hhealthy⟩
        exact ⟨hx, hfree, hhealthy, live, hget, hlive, hpin.symm⟩
      · rintro ⟨hx, hfree, hhealthy, lease, hlease, -, hid⟩
        rw [hget] at hlease
        cases hlease
        exact ⟨⟨hx, hid.symm⟩, hfree, hhealthy⟩

end

/-! ## The choice of the engine -/

namespace RoutingEngine

variable {router router' : RoutingEngine} {request : ChatCompletionRequest}
  {candidates : List RoutingCandidate} {sessionId : Option String} {decision : RoutingDecision}

/-- The candidates the engine chooses from, and the one it takes under the default policy. -/
structure Prefers (router : RoutingEngine) (needed : Int) (candidates : List RoutingCandidate)
    (sessionId : Option String) (c : RoutingCandidate) : Prop where
  mem : c ∈ candidates
  window : c.hasWindow needed = true
  bound : ∀ b ∈ candidates, b.hasWindow needed = true →
    router.stickyBackendFor sessionId = some b.backend.backendId →
    c.backend.backendId = b.backend.backendId
  least : (∀ b ∈ candidates, b.hasWindow needed = true →
      router.stickyBackendFor sessionId ≠ some b.backend.backendId) →
    ∀ b ∈ candidates, b.hasWindow needed = true → c.latencyMs < b.latencyMs ∨
      c.latencyMs = b.latencyMs ∧ c.backend.backendId ≤ b.backend.backendId

theorem scoreSum_default (context : RoutingContext) (c : RoutingCandidate) :
    scoreSum defaultPolicy context c = -c.latencyMs := by
  simp [scoreSum, defaultPolicy, PolicyRule.appliesTo]

theorem scores_default (context : RoutingContext) (c : RoutingCandidate) :
    defaultPolicy.Scores context c := by
  intro rule hrule _
  cases List.mem_singleton.mp hrule
  exact Option.some_ne_none _

theorem selectBackend_windows (h : router.selectBackend request candidates sessionId =
    .ok (decision, router')) : ∀ c ∈ candidates, c.contextWindow ≠ none := by
  intro c hc hnull
  rw [selectBackend_null ⟨c, hc, hnull⟩] at h
  cases h

/-- A session that is bound to a candidate with the window keeps it. -/
theorem selectBackend_bound (h : router.selectBackend request candidates sessionId =
    .ok (decision, router')) {b : RoutingCandidate} (hb : b ∈ candidates)
    (hwindow : b.hasWindow (neededWindow request) = true)
    (hsticky : router.stickyBackendFor sessionId = some b.backend.backendId) :
    decision.backendId = b.backend.backendId := by
  have hwindows := selectBackend_windows h
  obtain ⟨first, rest, scored, heligible, hscored, hchoice⟩ := selectBackend_ok h
  rw [estimateTokenBudget_eq, eligibleFor_eq hwindows] at heligible
  have hmem : b ∈ first :: rest := by
    rw [← Except.ok.inj heligible]
    exact List.mem_filter.mpr ⟨hb, hwindow⟩
  have hcontains : scored.1.contains b.backend.backendId = true :=
    (scoreCandidates_keys hscored _).mpr (Or.inr ⟨b, hmem, rfl⟩)
  simp only [choose, hsticky, Option.filter_some, hcontains, if_true] at hchoice
  cases hchoice
  rfl

/-- What the engine does under the default policy. -/
theorem selectBackend_prefers (hids : (candidates.map (·.backend.backendId)).Nodup)
    (hpolicy : router.policy = defaultPolicy)
    (h : router.selectBackend request candidates sessionId = .ok (decision, router')) :
    ∃ c, router.Prefers (neededWindow request) candidates sessionId c ∧
      c.backend.backendId = decision.backendId := by
  have hwindows := selectBackend_windows h
  obtain ⟨first, rest, scored, heligible, hscored, hchoice⟩ := selectBackend_ok h
  rw [estimateTokenBudget_eq, eligibleFor_eq hwindows] at heligible
  obtain ⟨c, hc, hid⟩ := choose_mem hscored sessionId
  rw [hchoice] at hid
  rw [← Except.ok.inj heligible] at hc
  obtain ⟨hmem, hwindow⟩ := List.mem_filter.mp hc
  refine ⟨c, ⟨hmem, hwindow, fun b hb hbwindow hsticky => ?_, fun hunbound b hb hbwindow => ?_⟩, hid⟩
  · rw [hid]
    exact selectBackend_bound h hb hbwindow hsticky
  · -- without a usable assignment the engine picks the argmax of the scores
    have hfree : router.Unbound request candidates sessionId :=
      fun sticky hassigned x hx hxwindow heq => hunbound x hx hxwindow (by rw [hassigned, heq])
    obtain ⟨decision', hok, hdecides⟩ := selectBackend_decides hids hfree hwindows
      (fun x _ _ => hpolicy ▸ scores_default _ x) ⟨c, hmem, hwindow⟩
    rw [h] at hok
    cases hok
    obtain ⟨best, ⟨hbest, hargmax⟩, hbestId⟩ := hdecides.argmax
    have hsame : c = best := by
      refine List.inj_on_of_nodup_map hids hmem (List.mem_filter.mp hbest).1 ?_
      rw [hid, hbestId]
    have hb' := hargmax b (List.mem_filter.mpr ⟨hb, hbwindow⟩)
    rw [hpolicy, scoreSum_default, scoreSum_default, ← hsame] at hb'
    rcases hb' with hlt | ⟨heq, hle⟩
    · exact Or.inl (neg_lt_neg_iff.mp hlt)
    · exact Or.inr ⟨(neg_inj.mp heq).symm, hle⟩

end RoutingEngine

/-! ## What a move routes to -/

section

variable {cfg : Config} {requestId : String} {now : Int} {core₀ core core' : Core}
  {req req' : Request} {sel : List Nat × List RoutingCandidate}

/-- The host was chosen among candidates that were looked up in this move. -/
structure RoutedTo (cfg : Config) (core : Core) (req : Request) (core' : Core)
    (sel : List Nat × List RoutingCandidate) (hostId : String) (st st' : Scratch)
    (decision : RoutingDecision) (router' : RoutingEngine) : Prop where
  later : Later cfg core.scratch st
  found : currentCandidates cfg core.registry core.health req.token sel.1 st = (.ok sel.2, st')
  before : st'.readings ≤ core'.scratch.readings
  selected : core.router.selectBackend req.body sel.2 req.body.sessionId = .ok (decision, router')
  host : decision.backendId = hostId

/-- The records a move selects from and those it keeps are some of those the request had, each as
often at most. -/
structure Routes (cfg : Config) (core : Core) (req : Request) (core' : Core) (req' : Request)
    (sel : List Nat × List RoutingCandidate) : Prop where
  hosts : sel.1.Subperm req.captured
  captured : req'.captured.Subperm req.captured
  routed : req.slot = none → ∀ hostId, req'.slot = some hostId →
    ∃ st st' decision router', RoutedTo cfg core req core' sel hostId st st' decision router'

theorem Routes.keep (hhosts : sel.1.Subperm req.captured)
    (hcaptured : req'.captured.Subperm req.captured) (hslot : req'.slot = req.slot) :
    Routes cfg core req core' req' sel := by
  refine ⟨hhosts, hcaptured, fun hnone hostId hsome => ?_⟩
  rw [hslot, hnone] at hsome
  cases hsome

/-- The request fails. -/
theorem Routes.fail (hhosts : sel.1.Subperm req.captured) (e : Exn) :
    Routes cfg core req core' (req.fail e) sel :=
  .keep hhosts List.nil_subperm rfl

theorem route_decision {candidates : List RoutingCandidate} {failoverInPlay : Bool}
    {hostId : String} (hnone : req.slot = none)
    (h : (route requestId core req candidates failoverInPlay).2.slot = some hostId) :
    ∃ decision router', core.router.selectBackend req.body candidates req.body.sessionId =
      .ok (decision, router') ∧ decision.backendId = hostId := by
  unfold route at h
  simp only at h
  split at h
  · simp [Request.fail, hnone] at h
  · next decision router hselect =>
    refine ⟨decision, router, hselect, ?_⟩
    split at h
    · split at h
      · simp [Request.fail, hnone] at h
      · split at h
        · rw [openStream_slot] at h
          exact Option.some.inj h
        · exact Option.some.inj h
    · simp [Request.fail, hnone] at h

/-- A request that is routed holds no record any more. -/
theorem route_captured (core : Core) (req : Request) (candidates : List RoutingCandidate)
    (failoverInPlay : Bool) : (route requestId core req candidates failoverInPlay).2.captured = [] := by
  unfold route openStream releaseThen
  simp only
  split
  · rfl
  · split
    · split
      · rfl
      · split
        · split
          · rfl
          · split <;> rfl
        · rfl
    · rfl

theorem sleepAgain_captured {w : Wait} (h : w.modelHosts.Subperm req.captured) :
    (sleepAgain cfg requestId core₀ req w).2.captured.Subperm req.captured := by
  unfold sleepAgain
  split
  · exact h
  · exact List.nil_subperm

theorem discover_subperm (cfg : Config) (reg : HostRegistry) (model : String)
    (refs capable : List Nat) (blocked : Bool) (st : Scratch) :
    (discover cfg reg model capable blocked refs st).1.refs.Subperm (refs ++ capable) := by
  induction refs generalizing capable st with
  | nil => exact List.Subperm.refl capable
  | cons ref rest ih =>
    -- the host is capable, or it is left out
    have hin : (rest ++ (capable ++ [ref])).Subperm (ref :: rest ++ capable) := by
      rw [← List.append_assoc]
      exact (List.perm_append_singleton ref (rest ++ capable)).subperm
    have hout : (rest ++ capable).Subperm (ref :: rest ++ capable) :=
      (List.sublist_cons_self ref (rest ++ capable)).subperm
    unfold discover
    simp only
    split
    · split
      · exact (ih _ _).trans hin
      · exact (ih _ _).trans hout
    · split
      · exact List.nil_subperm
      · split
        · exact List.Subperm.refl _
        · exact (ih _ _).trans hin

theorem listed_subperm {ref : Nat} {d : Discovery} {loaded : Option (List String)}
    (hphase : req.phase = .discovering ref d) :
    ((d.listed core.registry req.body.model ref loaded).pending ++
      (d.listed core.registry req.body.model ref loaded).capable).Subperm req.captured := by
  have hcaptured : req.captured = ref :: (d.pending ++ d.capable) := by
    simp [Request.captured, hphase]
  have hin : (d.pending ++ (d.capable ++ [ref])).Subperm (ref :: (d.pending ++ d.capable)) := by
    rw [← List.append_assoc]
    exact (List.perm_append_singleton ref (d.pending ++ d.capable)).subperm
  have hout : (d.pending ++ d.capable).Subperm (ref :: (d.pending ++ d.capable)) :=
    (List.sublist_cons_self ref _).subperm
  rw [hcaptured]
  unfold Discovery.listed
  simp only
  split
  · exact hin
  · split
    · exact hin
    · split
      · exact hout
      · exact hout

theorem afterDiscovery_routes {capable : List Nat} {budgetBlocked : Bool}
    (hbook : core₀.scratch.book.Consistent) {st₁ : Scratch} (hlater : Later cfg core₀.scratch st₁)
    (hcapable : capable.Subperm req.captured) :
    Routes cfg core₀ req
      (afterDiscovery cfg requestId (core₀.withScratch st₁) req capable budgetBlocked).1
      (afterDiscovery cfg requestId (core₀.withScratch st₁) req capable budgetBlocked).2
      (selectionAfter cfg (core₀.withScratch st₁) req capable budgetBlocked) := by
  unfold afterDiscovery selectionAfter leaseNow
  simp only [Core.withScratch]
  generalize husable : usableHosts _ _ _ _ _ _ = usable
  obtain ⟨checked, book⟩ := usable
  have hlook := looked_usableHosts core₀.registry req (cfg.leaseClock st₁.readings)
    capable budgetBlocked (hlater.consistent hbook)
  rw [husable] at hlook
  have hlater₂ : Later cfg core₀.scratch
      (Scratch.withBook { st₁ with readings := st₁.readings + 1 } book) :=
    hlater.trans (.of_looked rfl fun _ => hlook)
  simp only
  split
  · exact .fail hcapable _
  · generalize hcand : currentCandidates _ _ _ _ _ _ = found
    obtain ⟨result, st₃⟩ := found
    split
    · next heq =>
      cases heq
      exact .fail hcapable _
    · next heq =>
      cases heq
      exact .keep hcapable (sleepAgain_captured hcapable) (sleepAgain_slot _ _ _)
    · next candidates _ _ heq =>
      cases heq
      refine ⟨hcapable, ?_, fun hnone hostId hslot => ?_⟩
      · rw [route_captured]
        exact List.nil_subperm
      · obtain ⟨decision, router', hselect, hid⟩ := route_decision hnone hslot
        refine ⟨_, _, decision, router', hlater₂, hcand, ?_, hselect, hid⟩
        rw [route_scratch]

theorem continueDiscovery_routes {d : Discovery} (hbook : core₀.scratch.book.Consistent)
    {st₁ : Scratch} (hlater : Later cfg core₀.scratch st₁)
    (hd : (d.pending ++ d.capable).Subperm req.captured) :
    Routes cfg core₀ req
      (continueDiscovery cfg requestId (core₀.withScratch st₁) req d).1
      (continueDiscovery cfg requestId (core₀.withScratch st₁) req d).2
      (selectionFrom cfg (core₀.withScratch st₁) req d) := by
  have hsame := discover_same cfg core₀.registry req.body.model d.pending d.capable
    d.anyBudgetBlocked st₁
  have hrefs := (discover_subperm cfg core₀.registry req.body.model d.pending d.capable
    d.anyBudgetBlocked st₁).trans hd
  unfold continueDiscovery selectionFrom
  simp only [Core.withScratch]
  generalize hstop : discover _ _ _ _ _ _ _ = stop at hsame hrefs
  obtain ⟨stop, st₂⟩ := stop
  cases stop with
  | raised e => exact .fail List.nil_subperm e
  | awaiting ref d' => exact .keep List.nil_subperm hrefs rfl
  | done capable budgetBlocked =>
    have hroutes : Routes cfg core₀ req
        (afterDiscovery cfg requestId (core₀.withScratch st₂) req capable budgetBlocked).1 _
        (selectionAfter cfg (core₀.withScratch st₂) req capable budgetBlocked) :=
      afterDiscovery_routes hbook (hlater.trans (.of_eq hsame.1 hsame.2)) hrefs
    exact hroutes

theorem begin_routes (hphase : req.phase = .arrived) (hbook : core.scratch.book.Consistent) :
    Routes cfg core req (begin cfg requestId core req).1 (begin cfg requestId core req).2
      (selectionAtBegin cfg core req) := by
  have hsnapshot : (req.snapshot ++ []).Subperm req.captured := by
    simp [Request.captured, hphase, List.Subperm.refl]
  unfold begin selectionAtBegin leaseNow
  simp only
  cases req.token with
  | none => exact continueDiscovery_routes hbook (later_leaseNow core.scratch) hsnapshot
  | some token =>
    have hlook := NodeLeaseBook.looked_require hbook token (cfg.leaseClock core.scratch.readings)
    simp only
    generalize core.scratch.book.require token (cfg.leaseClock core.scratch.readings) = checked
      at hlook
    obtain ⟨result, book⟩ := checked
    cases result with
    | error e =>
      have hnone : (selectionFrom cfg
          (core.withScratch (Scratch.withBook { core.scratch with
            readings := core.scratch.readings + 1 } book)) req
              ⟨req.snapshot, [], false⟩).1.Subperm req.captured :=
        (@continueDiscovery_routes _ requestId _ _ _ hbook _ (.of_looked rfl fun _ => hlook)
          hsnapshot).hosts
      exact .fail hnone _
    | ok lease => exact continueDiscovery_routes hbook (.of_looked rfl fun _ => hlook) hsnapshot

theorem poll_routes {w : Wait} (hphase : req.phase = .waiting w) :
    Routes cfg core req (poll cfg requestId core req w).1 (poll cfg requestId core req w).2
      (w.modelHosts, offered (currentCandidates cfg core.registry core.health req.token
        w.modelHosts core.scratch).1) := by
  have hhosts : w.modelHosts.Subperm req.captured := by
    simp [Request.captured, hphase, List.Subperm.refl]
  unfold poll
  simp only
  generalize hcand : currentCandidates _ _ _ _ _ _ = found
  obtain ⟨result, st₁⟩ := found
  split
  · next heq =>
    cases heq
    exact .fail hhosts _
  · next heq =>
    cases heq
    exact .keep hhosts (sleepAgain_captured hhosts) (sleepAgain_slot _ _ _)
  · next candidates _ _ heq =>
    cases heq
    generalize hdisp : dispatchFor _ _ _ _ = dispatched
    obtain ⟨res, queue, st₂⟩ := dispatched
    have hdispatch := (dispatchFor_cases req hdisp).1
    split
    · next heq =>
      cases heq
      exact .fail hhosts _
    · next heq =>
      cases heq
      split
      · refine ⟨hhosts, ?_, fun hnone hostId hslot => ?_⟩
        · rw [route_captured]
          exact List.nil_subperm
        · obtain ⟨decision, router', hselect, hid⟩ := route_decision hnone hslot
          refine ⟨_, _, decision, router', .refl _, hcand, ?_, hselect, hid⟩
          rw [route_scratch]
          exact hdispatch.readings
      · exact .keep hhosts (sleepAgain_captured hhosts) (sleepAgain_slot _ _ _)

/-- What follows the wait keeps no record. -/
theorem captured_subperm (hmoves : Moves cfg requestId core req core' req')
    (h : req.captured = []) : req'.captured.Subperm req.captured := by
  have hnil : req'.captured = [] := List.eq_nil_iff_forall_not_mem.mpr fun ref href => by
    have hold := hmoves.captured ref href
    rw [h] at hold
    cases hold
  rw [hnil]
  exact List.nil_subperm

theorem resume_routes {signal : Signal} (hbook : core.scratch.book.Consistent)
    (h : resume cfg requestId now core req signal = some (core', req')) :
    Routes cfg core req core' req' (selectionAtResume cfg core req signal) := by
  have hmoves := resume_moves hbook h
  unfold resume at h
  unfold selectionAtResume
  split at h
  · next hphase =>
    cases h
    simp only [hphase]
    exact .fail List.nil_subperm _
  · next ref d loaded hphase =>
    have hroutes : Routes cfg core req
        (continueDiscovery cfg requestId core req
          (d.listed core.registry req.body.model ref loaded)).1
        (continueDiscovery cfg requestId core req
          (d.listed core.registry req.body.model ref loaded)).2
        (selectionFrom cfg core req (d.listed core.registry req.body.model ref loaded)) :=
      continueDiscovery_routes hbook (.refl core.scratch) (listed_subperm hphase)
    rw [Option.some.inj h] at hroutes
    simpa only [hphase] using hroutes
  · next w hphase =>
    have hroutes : Routes cfg core req (poll cfg requestId core req w).1 _ _ := poll_routes hphase
    rw [Option.some.inj h] at hroutes
    simpa only [hphase] using hroutes
  · next hphase =>
    cases h
    simp only [hphase]
    exact .fail List.nil_subperm _
  · next hostId failoverInPlay result hphase =>
    have hends : CallEnds core req
        (afterComplete requestId now core req hostId failoverInPlay result).1 _ :=
      afterComplete_ends hostId failoverInPlay result
    rw [Option.some.inj h] at hends
    simp only [hphase]
    exact .keep List.nil_subperm (captured_subperm hmoves (by simp [Request.captured, hphase]))
      hends.slot
  · next hphase =>
    simp only [hphase]
    exact .keep List.nil_subperm (captured_subperm hmoves (by simp [Request.captured, hphase]))
      (resumeStream_ends h).slot
  · cases h

end

/-! ## Runs -/

section

variable {cfg : Config} {s s' s₀ : State} {e : Event} {es : List Event} {requestId : String}
  {req req' : Request} {core : Core} {reg : HostRegistry}

theorem standsFor_of_candidate {eligible : List Nat} {candidates : List RoutingCandidate}
    (h : List.Forall₂ (StandsFor reg) eligible candidates) {c : RoutingCandidate}
    (hc : c ∈ candidates) : ∃ ref ∈ eligible, StandsFor reg ref c := by
  induction h with
  | nil => cases hc
  | @cons ref c' refs cs hstand _ ih =>
    rcases List.mem_cons.mp hc with rfl | hc
    · exact ⟨ref, List.mem_cons_self, hstand⟩
    · obtain ⟨other, hmem, hother⟩ := ih hc
      exact ⟨other, List.mem_cons_of_mem _ hmem, hother⟩

theorem standsFor_of_eligible {eligible : List Nat} {candidates : List RoutingCandidate}
    (h : List.Forall₂ (StandsFor reg) eligible candidates) {ref : Nat} (href : ref ∈ eligible) :
    ∃ c ∈ candidates, StandsFor reg ref c := by
  induction h with
  | nil => cases href
  | @cons ref' c refs cs hstand _ ih =>
    rcases List.mem_cons.mp href with rfl | href
    · exact ⟨c, List.mem_cons_self, hstand⟩
    · obtain ⟨other, hmem, hother⟩ := ih href
      exact ⟨other, List.mem_cons_of_mem _ hmem, hother⟩

/-- Candidates that stand for different hosts have different ids. -/
theorem nodup_candidateIds {eligible refs : List Nat} {candidates : List RoutingCandidate}
    (h : List.Forall₂ (StandsFor reg) eligible candidates) (hsub : eligible.Subperm refs)
    (hnodup : refs.Nodup) (hdistinct : DistinctHosts reg refs) :
    (candidates.map (·.backend.backendId)).Nodup := by
  have hids : candidates.map (·.backend.backendId) =
      eligible.map fun ref => (reg.heap ref).hostId := by
    induction h with
    | nil => rfl
    | cons hstand _ ih =>
      rw [List.map_cons, List.map_cons, hstand.id, ih]
      obtain ⟨l, hperm, hsublist⟩ := hsub
      exact List.Subperm.trans (List.sublist_cons_self _ _).subperm ⟨l, hperm, hsublist⟩
  obtain ⟨l, hperm, hsublist⟩ := hsub
  rw [hids]
  refine List.Nodup.map_on (fun x hx y hy heq => ?_) (hperm.nodup_iff.mp (hsublist.nodup hnodup))
  exact hdistinct x (hsublist.subset (hperm.mem_iff.mpr hx)) y
    (hsublist.subset (hperm.mem_iff.mpr hy)) heq

/-- A step is a call, or a move of one request with what it routes to. -/
theorem step_routes (hbook : s.core.scratch.book.Consistent) (h : step cfg s e = some s') :
    (∃ a core, e = .admin a ∧ adminStep cfg s.core a = some core ∧ s' = { s with core }) ∨
      ∃ requestId req core req', Actor s requestId req e ∧
        Moves cfg requestId s.core req core req' ∧
        Routes cfg s.core req core req' (selection cfg s e) ∧
        s' = ⟨core, s.requests.set requestId req'⟩ := by
  rcases step_cases h with hadmin | ⟨requestId, req, core, req', hran, rfl⟩
  · exact Or.inl hadmin
  · refine Or.inr ⟨requestId, req, core, req', hran.actor, hran.moves hbook, ?_, rfl⟩
    cases hran with
    | begins absent => exact begin_routes rfl hbook
    | resumes present returns =>
      simp only [selection, present]
      exact resume_routes hbook returns

/-- The engine keeps its policy, and no request holds a record twice. -/
structure RoutingInv (policy : RoutingPolicy) (s : State) : Prop where
  policy : s.core.router.policy = policy
  nodup : ∀ {id req}, s.requests.get? id = some req → req.captured.Nodup

theorem RoutingInv.actor {policy : RoutingPolicy} (h : RoutingInv policy s)
    (hactor : Actor s requestId req e) : req.captured.Nodup := by
  cases hactor with
  | arrives absent new =>
    have hcaptured : req.captured = s.core.registry.hostRefs := by
      simp [Request.captured, new.phase, new.snapshot]
    rw [hcaptured]
    exact (nodup_hostIds s.core.registry).of_map
  | resumes present => exact h.nodup present

theorem routingInv_run (hstart : Started s₀) (hrun : Run (Fires (step cfg)) s₀ es s) :
    RoutingInv s₀.core.router.policy s := by
  induction hrun with
  | nil => exact ⟨rfl, fun hr => by simp [hstart.requests] at hr⟩
  | snoc hrun hstep ih =>
    rcases step_routes (book_consistent hstart hrun) hstep with
      ⟨a, core, rfl, hcore, rfl⟩ | ⟨id, req, core, req', hactor, hmoves, hroutes, rfl⟩
    · obtain ⟨scratch, -, rfl⟩ := Option.map_eq_some_iff.mp hcore
      exact ⟨ih.policy, ih.nodup⟩
    · refine ⟨hmoves.policy.trans ih.policy, fun {id' r} hr => ?_⟩
      rw [Dict.get?_set] at hr
      split at hr
      · cases hr
        obtain ⟨l, hperm, hsublist⟩ := hroutes.captured
        exact hperm.nodup_iff.mp (hsublist.nodup (ih.actor hactor))
      · exact ih.nodup hr

theorem Usable.hasWindow {st : Scratch} {ref : Nat} {c : RoutingCandidate}
    (h : Usable cfg core req st ref) (hstand : StandsFor core.registry ref c) :
    c.hasWindow (neededWindow req.body) = true := by
  obtain ⟨window, hwindow, hle⟩ := h.window
  simp [RoutingCandidate.hasWindow, hstand.window, hwindow, hle]

/-- The record of the candidate the engine prefers is the one the request is sent by. -/
theorem sentBy_of_prefers {st : Scratch} {candidates : List RoutingCandidate}
    {refs eligible : List Nat}
    (hstand : List.Forall₂ (StandsFor core.registry) eligible candidates)
    (hmem : ∀ ref, ref ∈ eligible ↔ ref ∈ refs ∧ (core.registry.heap ref).Free ∧
      core.health.isHealthy (core.registry.heap ref).hostId = true ∧
      LeaseAllows st.book req.token (core.registry.heap ref).hostId (cfg.leaseClock st.readings))
    {c : RoutingCandidate} (hprefers : core.router.Prefers (neededWindow req.body) candidates
      req.body.sessionId c) :
    ∃ ref, StandsFor core.registry ref c ∧ SentBy cfg core req st refs ref := by
  obtain ⟨ref, href, hc⟩ := standsFor_of_candidate hstand hprefers.mem
  obtain ⟨hin, hfree, hhealthy, hallows⟩ := (hmem ref).mp href
  -- the candidate of any other usable record
  have hother : ∀ other ∈ refs, Usable cfg core req st other →
      ∃ b ∈ candidates, StandsFor core.registry other b ∧
        b.hasWindow (neededWindow req.body) = true := by
    intro other hin husable
    obtain ⟨b, hb, hbstand⟩ := standsFor_of_eligible hstand
      ((hmem other).mpr ⟨hin, husable.free, husable.healthy, husable.allowed⟩)
    exact ⟨b, hb, hbstand, husable.hasWindow hbstand⟩
  -- and the record of any candidate with the window is usable
  have husable : ∀ b ∈ candidates, b.hasWindow (neededWindow req.body) = true →
      ∃ other ∈ refs, StandsFor core.registry other b ∧ Usable cfg core req st other := by
    intro b hb hwindow
    obtain ⟨other, hmemOther, hbstand⟩ := standsFor_of_candidate hstand hb
    obtain ⟨hin, hfree, hhealthy, hallows⟩ := (hmem other).mp hmemOther
    rw [RoutingCandidate.hasWindow, hbstand.window, Option.any_eq_true] at hwindow
    obtain ⟨window, hsome, hle⟩ := hwindow
    exact ⟨other, hin, hbstand, hfree, hhealthy, hallows, window, hsome, by simpa using hle⟩
  have hwindow := hprefers.window
  rw [RoutingCandidate.hasWindow, hc.window, Option.any_eq_true] at hwindow
  obtain ⟨window, hsome, hle⟩ := hwindow
  refine ⟨ref, hc, hin, ⟨hfree, hhealthy, hallows, window, hsome, by simpa using hle⟩,
    fun other hotherIn hotherUsable hsticky => ?_, fun hunbound other hotherIn hotherUsable => ?_⟩
  · obtain ⟨b, hb, hbstand, hbwindow⟩ := hother other hotherIn hotherUsable
    rw [← hc.id, ← hbstand.id]
    exact hprefers.bound b hb hbwindow (by rw [hsticky, hbstand.id])
  · obtain ⟨b, hb, hbstand, hbwindow⟩ := hother other hotherIn hotherUsable
    refine ⟨c.latencyMs, b.latencyMs, hc.load, hbstand.load, ?_⟩
    rw [← hc.id, ← hbstand.id]
    refine hprefers.least (fun x hx hxwindow => ?_) b hb hbwindow
    obtain ⟨y, hy, hystand, hyusable⟩ := husable x hx hxwindow
    rw [hystand.id]
    exact hunbound y hy hyusable

end

/-! ## Two nodes -/

end LlmHomeLab
