import LlmHomeLab.Gateway.Admission

/-! # The backend cache

`backends_by_id` and `backend_capabilities_by_id` are filled by whoever asks for a backend, with
the capabilities of the record it presents. `Refills` is all that a piece of code can do to
them; what the cache holds for a host after the candidates of a request have been looked up is
`currentCandidates_built`.
-/

namespace LlmHomeLab

variable {cfg : Config} {reg : HostRegistry} {health : HealthMonitor}
  {a b c st st' : Scratch} {P Q : String → HostCapabilities → Prop}
  {hostId : String} {capabilities : HostCapabilities}

/-! ## Filling the cache -/

structure SameCache (a b : Scratch) : Prop where
  backends : b.backendsById = a.backendsById
  capabilities : b.backendCapabilitiesById = a.backendCapabilitiesById

theorem SameCache.refl (a : Scratch) : SameCache a a := ⟨rfl, rfl⟩

/-- From `a`, backends have been built, each for a host and capabilities that satisfy `P`. -/
inductive Refills (cfg : Config) (P : String → HostCapabilities → Prop) (a : Scratch) :
    Scratch → Prop
  | same {b : Scratch} (same : SameCache a b) : Refills cfg P a b
  | build {b c : Scratch} {hostId : String} {capabilities : HostCapabilities}
      {hasListModels : Bool} (before : Refills cfg P a b) (asked : P hostId capabilities)
      (made : cfg.factory capabilities = .ok hasListModels)
      (after : SameCache (b.cache hostId capabilities hasListModels) c) : Refills cfg P a c

theorem Refills.refl (a : Scratch) : Refills cfg P a a := .same (.refl a)

theorem Refills.then_same (h : Refills cfg P a b) (hsame : SameCache b c) : Refills cfg P a c := by
  cases h with
  | same same =>
    exact .same ⟨hsame.backends.trans same.backends, hsame.capabilities.trans same.capabilities⟩
  | build before asked made after =>
    exact .build before asked made
      ⟨hsame.backends.trans after.backends, hsame.capabilities.trans after.capabilities⟩

theorem Refills.trans (hab : Refills cfg P a b) (hbc : Refills cfg P b c) : Refills cfg P a c := by
  induction hbc with
  | same same => exact hab.then_same same
  | build _ asked made after ih => exact .build ih asked made after

theorem Refills.from_same (h : Refills cfg P b c) (hsame : SameCache a b) : Refills cfg P a c :=
  (Refills.same hsame).trans h

theorem Refills.mono (h : Refills cfg P a b) (hPQ : ∀ id caps, P id caps → Q id caps) :
    Refills cfg Q a b := by
  induction h with
  | same same => exact .same same
  | build _ asked made after ih => exact .build ih (hPQ _ _ asked) made after

/-- The records presented. -/
def Presents (reg : HostRegistry) (refs : List Nat) (hostId : String)
    (capabilities : HostCapabilities) : Prop :=
  ∃ ref ∈ refs, (reg.heap ref).hostId = hostId ∧ (reg.heap ref).capabilities = capabilities

theorem Presents.mono {refs refs' : List Nat} (hsub : ∀ ref ∈ refs, ref ∈ refs') :
    ∀ id caps, Presents reg refs id caps → Presents reg refs' id caps := by
  rintro id caps ⟨ref, href, hfacts⟩
  exact ⟨ref, hsub ref href, hfacts⟩

theorem backendFor_refills (hasked : P hostId capabilities) (st : Scratch) :
    Refills cfg P st (backendFor cfg hostId capabilities st).2 := by
  have hbuild : Refills cfg P st (buildBackend cfg hostId capabilities st).2 := by
    unfold buildBackend
    split
    · exact .refl st
    · next hmade => exact .build (.refl st) hasked hmade (.refl _)
  unfold backendFor
  split
  · exact hbuild
  · split
    · exact .refl st
    · split
      · exact .refl st
      · exact hbuild

/-- The backend of a record of the list, and the cache after it. -/
theorem backendFor_presents {ref : Nat} {refs : List Nat} {result : Except Exn Backend}
    (href : ref ∈ refs)
    (h : backendFor cfg (reg.heap ref).hostId (reg.heap ref).capabilities st = (result, st')) :
    Refills cfg (Presents reg refs) st st' := by
  have hrefills : Refills cfg (Presents reg refs) st
      (backendFor cfg (reg.heap ref).hostId (reg.heap ref).capabilities st).2 :=
    backendFor_refills ⟨ref, href, rfl, rfl⟩ st
  rwa [h] at hrefills

theorem discover_refills (model : String) (refs capable : List Nat) (blocked : Bool)
    (st : Scratch) :
    Refills cfg (Presents reg refs) st (discover cfg reg model capable blocked refs st).2 := by
  induction refs generalizing capable st with
  | nil => exact .refl st
  | cons ref rest ih =>
    have hrest : ∀ capable st, Refills cfg (Presents reg (ref :: rest)) st
        (discover cfg reg model capable blocked rest st).2 := fun capable st =>
      (ih capable st).mono (Presents.mono fun _ => List.mem_cons_of_mem ref)
    unfold discover
    simp only
    split
    · exact hrest _ st
    · split
      · next hb => exact backendFor_presents List.mem_cons_self hb
      · next hb =>
        have hown : Refills cfg (Presents reg (ref :: rest)) st _ :=
          backendFor_presents List.mem_cons_self hb
        split
        · exact hown
        · exact hown.trans (hrest _ _)

theorem eligibleCandidates_refills (refs : List Nat) (st : Scratch) :
    Refills cfg (Presents reg refs) st (eligibleCandidates cfg reg health refs st).2 := by
  induction refs generalizing st with
  | nil => exact .refl st
  | cons ref rest ih =>
    have hrest : ∀ st, Refills cfg (Presents reg (ref :: rest)) st
        (eligibleCandidates cfg reg health rest st).2 := fun st =>
      (ih st).mono (Presents.mono fun _ => List.mem_cons_of_mem ref)
    unfold eligibleCandidates
    simp only
    split
    · exact hrest st
    · split
      · exact .refl st
      · exact hrest st
      · split
        · exact .refl st
        · split
          · next hb => exact backendFor_presents List.mem_cons_self hb
          · next st₁ hb =>
            have hown : Refills cfg (Presents reg (ref :: rest)) st st₁ :=
              backendFor_presents List.mem_cons_self hb
            have hall := hown.trans (hrest st₁)
            split
            · next he => rwa [he] at hall
            · next he => rwa [he] at hall

theorem openHosts_subset (reg : HostRegistry) (now : Int) (refs : List Nat) (book : NodeLeaseBook) :
    ∀ ref ∈ (openHosts reg now refs book).1, ref ∈ refs := by
  induction refs generalizing book with
  | nil => simp [openHosts]
  | cons x rest ih =>
    intro ref href
    simp only [openHosts] at href
    split at href
    · exact List.mem_cons_of_mem x (ih _ ref href)
    · rcases List.mem_cons.mp href with rfl | href
      · exact List.mem_cons_self
      · exact List.mem_cons_of_mem x (ih _ ref href)

theorem currentCandidates_refills (token : Option String) (modelHosts : List Nat) (st : Scratch) :
    Refills cfg (Presents reg modelHosts) st
      (currentCandidates cfg reg health token modelHosts st).2 := by
  unfold currentCandidates leaseNow
  simp only
  cases token with
  | none =>
    refine ((eligibleCandidates_refills _ _).mono (Presents.mono ?_)).from_same ⟨rfl, rfl⟩
    exact openHosts_subset reg _ modelHosts st.book
  | some token =>
    simp only
    split
    · exact .same ⟨rfl, rfl⟩
    · refine ((eligibleCandidates_refills _ _).mono (Presents.mono ?_)).from_same ⟨rfl, rfl⟩
      exact fun ref href => List.mem_of_mem_filter href

theorem queuedHostIds_refills (w : Waiter) (st : Scratch) :
    Refills cfg (Presents reg w.modelHosts) st (queuedHostIds cfg reg health w st).2 := by
  have hcand : Refills cfg (Presents reg w.modelHosts) st
      (currentCandidates cfg reg health w.token w.modelHosts st).2 :=
    currentCandidates_refills w.token w.modelHosts st
  unfold queuedHostIds
  split <;> next h => rwa [h] at hcand

/-! ## What the cache holds -/

/-- Every backend stands beside the capabilities it was built from. -/
def Scratch.Tied (st : Scratch) : Prop :=
  ∀ hostId backend, st.backendsById.get? hostId = some backend →
    st.backendCapabilitiesById.get? hostId = some backend.capabilities

/-- The backend of the host was built from capabilities equal to these. -/
def Scratch.Built (st : Scratch) (hostId : String) (capabilities : HostCapabilities) : Prop :=
  ∃ backend, st.backendsById.get? hostId = some backend ∧
    backend.capabilities.same capabilities = true

theorem SameCache.tied (h : SameCache a b) (ha : a.Tied) : b.Tied := by
  intro id backend hb
  rw [h.backends] at hb
  rw [h.capabilities]
  exact ha id backend hb

theorem Scratch.Tied.cache (h : st.Tied) (hostId : String) (capabilities : HostCapabilities)
    (hasListModels : Bool) : (st.cache hostId capabilities hasListModels).Tied := by
  intro id backend hb
  simp only [Scratch.cache, Dict.get?_set] at hb ⊢
  split at hb
  · next hid =>
    cases hb
    rw [if_pos hid]
  · next hid =>
    rw [if_neg hid]
    exact h id backend hb

theorem Refills.tied (h : Refills cfg P a b) (ha : a.Tied) : b.Tied := by
  induction h with
  | same same => exact same.tied ha
  | build _ _ _ after ih => exact after.tied (ih.cache _ _ _)

/-- The cache of a host nobody has asked for stays as it is. -/
theorem Refills.backend_eq (h : Refills cfg P a b) (hnot : ∀ caps, ¬ P hostId caps) :
    b.backendsById.get? hostId = a.backendsById.get? hostId := by
  induction h with
  | same same => rw [same.backends]
  | @build b c id caps l _ asked _ after ih =>
    have hne : hostId ≠ id := by
      rintro rfl
      exact hnot caps asked
    rw [after.backends, ← ih]
    exact Dict.get?_set_of_ne _ hne

theorem backendFor_built {backend : Backend} (htied : st.Tied)
    (h : backendFor cfg hostId capabilities st = (.ok backend, st')) :
    st'.Built hostId capabilities := by
  have hbuild : ∀ {b : Backend} {st' : Scratch},
      buildBackend cfg hostId capabilities st = (.ok b, st') → st'.Built hostId capabilities := by
    intro b st' hb
    unfold buildBackend at hb
    split at hb
    · cases hb
    · cases hb
      exact ⟨_, Dict.get?_set_self _, capabilities.same_refl⟩
  unfold backendFor at h
  split at h
  · exact hbuild h
  · next cached hcached =>
    split at h
    · cases h
    · next built hbuilt =>
      split at h
      · next hsame =>
        cases h
        rw [htied _ _ hcached] at hbuilt
        cases hbuilt
        exact ⟨_, hcached, hsame⟩
      · exact hbuild h

/-- No two records of the list are of one host. -/
def DistinctHosts (reg : HostRegistry) (refs : List Nat) : Prop :=
  ∀ x ∈ refs, ∀ y ∈ refs, (reg.heap x).hostId = (reg.heap y).hostId → x = y

theorem DistinctHosts.mono {refs refs' : List Nat} (h : DistinctHosts reg refs')
    (hsub : ∀ ref ∈ refs, ref ∈ refs') : DistinctHosts reg refs :=
  fun x hx y hy => h x (hsub x hx) y (hsub y hy)

/-- A healthy host of the list with a free slot has the backend of its record there. -/
theorem eligibleCandidates_built {refs : List Nat} {candidates : List RoutingCandidate}
    (htied : st.Tied) (hdistinct : DistinctHosts reg refs)
    (h : eligibleCandidates cfg reg health refs st = (.ok candidates, st')) {ref : Nat}
    (href : ref ∈ refs) (hfree : (reg.heap ref).Free)
    (hhealthy : health.isHealthy (reg.heap ref).hostId = true) :
    st'.Built (reg.heap ref).hostId (reg.heap ref).capabilities := by
  induction refs generalizing st candidates with
  | nil => cases href
  | cons x rest ih =>
    have hrest : DistinctHosts reg rest := hdistinct.mono fun _ => List.mem_cons_of_mem x
    rcases eligibleCandidates_cons h with
      ⟨hpass, hothers⟩ | ⟨backend, latencyMs, st₁, others, -, -, hb, hothers, rfl⟩
    · -- the host in question is not passed over
      rcases List.mem_cons.mp href with rfl | href
      · rw [HostInfo.belowLimit_eq_true.mpr hfree, hhealthy] at hpass
        rcases hpass with hpass | hpass <;> cases hpass
      · exact ih htied hrest hothers href
    · have hown : Refills cfg (Presents reg [x]) st st₁ :=
        backendFor_presents List.mem_cons_self hb
      by_cases hmem : ref ∈ rest
      · exact ih (hown.tied htied) hrest hothers hmem
      · -- the records after this one are of other hosts
        rcases List.mem_cons.mp href with rfl | href
        · obtain ⟨b, hget, hsame⟩ := backendFor_built htied hb
          have hafter : Refills cfg (Presents reg rest) st₁ st' := by
            have hrefills : Refills cfg (Presents reg rest) st₁
                (eligibleCandidates cfg reg health rest st₁).2 :=
              eligibleCandidates_refills rest st₁
            rwa [hothers] at hrefills
          refine ⟨b, ?_, hsame⟩
          rw [hafter.backend_eq, hget]
          rintro caps ⟨y, hy, hid, -⟩
          have heq := hdistinct y (List.mem_cons_of_mem _ hy) ref List.mem_cons_self hid
          exact hmem (heq ▸ hy)
        · exact absurd href hmem

/-- The context window a candidate is routed with is that of the record it stands for. -/
theorem eligibleCandidates_window {refs : List Nat} {candidates : List RoutingCandidate}
    (h : eligibleCandidates cfg reg health refs st = (.ok candidates, st'))
    {c : RoutingCandidate} (hc : c ∈ candidates) :
    ∃ ref ∈ refs, (reg.heap ref).hostId = c.backend.backendId ∧
      c.contextWindow = (reg.heap ref).capabilities.contextWindow := by
  obtain ⟨ref, href, hid, -, -, hwindow⟩ := mem_eligibleCandidates h hc
  exact ⟨ref, href, hid, hwindow⟩

/-! ## The candidates of a request -/

section

variable {token : Option String} {modelHosts : List Nat} {candidates : List RoutingCandidate}
  {ref : Nat} {now : Int} {book : NodeLeaseBook}

/-- The lease rules will not turn against the host: it has no lease, or the token is for it. -/
def LeaseStays (book : NodeLeaseBook) (token : Option String) (hostId : String) : Prop :=
  match token with
  | none => book.byHost.get? hostId = none
  | some token => ∀ lease, book.byToken.get? token = some lease → lease.hostId = hostId

theorem LeaseStays.later (h : LeaseStays a.book token hostId) (hbook : a.book.Consistent)
    (hlater : Later cfg a b) : LeaseStays b.book token hostId := by
  have hdrops := hlater.drops hbook
  cases token with
  | none =>
    show b.book.byHost.get? hostId = none
    cases hget : b.book.byHost.get? hostId with
    | none => rfl
    | some lease =>
      have hold := hdrops.ofHost hget
      rw [show a.book.byHost.get? hostId = none from h] at hold
      cases hold
  | some token =>
    intro lease hlease
    exact h lease (hdrops.ofToken hlease)

/-- A host found without a live lease has none any more. -/
theorem isHeld_drops (hbook : book.Consistent) (hheld : (book.isHeld hostId now).1 = false) :
    (book.isHeld hostId now).2.byHost.get? hostId = none := by
  unfold NodeLeaseBook.isHeld at hheld ⊢
  cases hget : book.byHost.get? hostId with
  | none => simp [hget]
  | some lease =>
    rw [hget] at hheld
    cases hlive : lease.live now with
    | true => simp [hlive] at hheld
    | false =>
      obtain ⟨hid, -⟩ := hbook.ofHost hget
      simp [hlive, NodeLeaseBook.drop, ← hid]

theorem openHosts_stays (hbook : book.Consistent)
    (href : ref ∈ (openHosts reg now modelHosts book).1) :
    (openHosts reg now modelHosts book).2.byHost.get? (reg.heap ref).hostId = none := by
  induction modelHosts generalizing book with
  | nil => simp [openHosts] at href
  | cons x rest ih =>
    have hheld := NodeLeaseBook.looked_isHeld hbook (reg.heap x).hostId now
    have hrest := looked_openHosts reg now hheld.consistent rest
    simp only [openHosts] at href ⊢
    split at href
    · exact ih hheld.consistent href
    · next hopen =>
      rcases List.mem_cons.mp href with rfl | href
      · -- what is left of the book has no lease of the host either
        have hnone := isHeld_drops hbook (by simpa using hopen)
        cases hget : (openHosts reg now rest
            (book.isHeld (reg.heap ref).hostId now).2).2.byHost.get? (reg.heap ref).hostId with
        | none => rfl
        | some lease =>
          have hold := hrest.drops.ofHost hget
          rw [hnone] at hold
          cases hold
      · exact ih hheld.consistent href

/-- Where the candidates could be looked up, a host whose lease stays was allowed. -/
theorem LeaseStays.allows (hstays : LeaseStays st.book token hostId)
    (h : currentCandidates cfg reg health token modelHosts st = (.ok candidates, st')) :
    LeaseAllows st.book token hostId (cfg.leaseClock st.readings) := by
  cases token with
  | none =>
    rintro ⟨lease, hlease, -⟩
    rw [show st.book.byHost.get? hostId = none from hstays] at hlease
    cases hlease
  | some token =>
    unfold currentCandidates leaseNow at h
    simp only at h
    split at h
    · cases h
    · next live book hreq =>
      obtain ⟨htoken, hlive, -⟩ := NodeLeaseBook.require_ok hreq
      exact ⟨live, htoken, hlive, hstays live htoken⟩

/-- After the candidates have been looked up, the cache holds for a host among them the backend
of the record that was presented. -/
theorem currentCandidates_built (htied : st.Tied) (hbook : st.book.Consistent)
    (hdistinct : DistinctHosts reg modelHosts)
    (h : currentCandidates cfg reg health token modelHosts st = (.ok candidates, st'))
    (href : ref ∈ modelHosts) (hfree : (reg.heap ref).Free)
    (hhealthy : health.isHealthy (reg.heap ref).hostId = true)
    (hallows : LeaseAllows st.book token (reg.heap ref).hostId (cfg.leaseClock st.readings)) :
    st'.Built (reg.heap ref).hostId (reg.heap ref).capabilities := by
  unfold currentCandidates leaseNow at h
  simp only at h
  cases token with
  | none =>
    refine eligibleCandidates_built ?_ ?_ h ((mem_openHosts hbook).mpr ⟨href, hallows⟩) hfree
      hhealthy
    · exact SameCache.tied ⟨rfl, rfl⟩ htied
    · exact hdistinct.mono (openHosts_subset reg _ modelHosts st.book)
  | some token =>
    obtain ⟨lease, hlease, hlive, hid⟩ := hallows
    simp only [NodeLeaseBook.require_of_live hlease hlive] at h
    refine eligibleCandidates_built ?_ ?_ h (List.mem_filter.mpr ⟨href, by simp [hid]⟩) hfree
      hhealthy
    · exact SameCache.tied ⟨rfl, rfl⟩ htied
    · exact hdistinct.mono fun _ => List.mem_of_mem_filter

theorem currentCandidates_window
    (h : currentCandidates cfg reg health token modelHosts st = (.ok candidates, st'))
    {c : RoutingCandidate} (hc : c ∈ candidates) :
    ∃ ref ∈ modelHosts, (reg.heap ref).hostId = c.backend.backendId ∧
      c.contextWindow = (reg.heap ref).capabilities.contextWindow := by
  unfold currentCandidates leaseNow at h
  simp only at h
  cases token with
  | none =>
    obtain ⟨ref, href, hfacts⟩ := eligibleCandidates_window h hc
    exact ⟨ref, openHosts_subset reg _ modelHosts st.book ref href, hfacts⟩
  | some token =>
    simp only at h
    split at h
    · cases h
    · obtain ⟨ref, href, hfacts⟩ := eligibleCandidates_window h hc
      exact ⟨ref, List.mem_of_mem_filter href, hfacts⟩

/-- The lease of a candidate's host stays. -/
theorem currentCandidates_stays (hbook : st.book.Consistent)
    (h : currentCandidates cfg reg health token modelHosts st = (.ok candidates, st'))
    {c : RoutingCandidate} (hc : c ∈ candidates) :
    LeaseStays st'.book token c.backend.backendId := by
  unfold currentCandidates leaseNow at h
  simp only at h
  cases token with
  | none =>
    obtain ⟨ref, href, hid, -⟩ := eligibleCandidates_window h hc
    have hsame := eligibleCandidates_same cfg reg health
      (openHosts reg (cfg.leaseClock st.readings) modelHosts st.book).1
      (Scratch.withBook { st with readings := st.readings + 1 }
        (openHosts reg (cfg.leaseClock st.readings) modelHosts st.book).2)
    simp only at h
    rw [h] at hsame
    show st'.book.byHost.get? c.backend.backendId = none
    rw [hsame.1, ← hid]
    exact openHosts_stays hbook href
  | some token =>
    simp only at h
    split at h
    · cases h
    · next live book hreq =>
      obtain ⟨htoken, -, rfl⟩ := NodeLeaseBook.require_ok hreq
      obtain ⟨ref, href, hid, -⟩ := eligibleCandidates_window h hc
      have hsame := eligibleCandidates_same cfg reg health
        (modelHosts.filter fun ref => (reg.heap ref).hostId = live.hostId)
        (Scratch.withBook { st with readings := st.readings + 1 } st.book)
      rw [h] at hsame
      intro lease hlease
      rw [hsame.1] at hlease
      have heq : some lease = some live := hlease.symm.trans htoken
      cases heq
      rw [← hid]
      exact (of_decide_eq_true (List.mem_filter.mp href).2).symm

end

/-! ## The dispatch -/

section

variable {core core' : Core} {req req' : Request} {requestId : String}

/-- The records a request and the callbacks in the queue can present. -/
def Asked (core : Core) (req : Request) (hostId : String) (capabilities : HostCapabilities) :
    Prop :=
  Presents core.registry req.captured hostId capabilities ∨
    ∃ id w, core.queue.eligibility.get? id = some w ∧
      Presents core.registry w.modelHosts hostId capabilities

theorem dispatchFor_refills (req : Request) (available : List String) :
    Refills cfg (Asked core req) core.scratch (dispatchFor cfg requestId core available).2.2 := by
  refine SchedulingQueue.dispatch_along (Refills cfg (Asked core req)) .refl (fun _ _ _ => .trans)
    ?_ core.scratch
  intro id w hw st
  refine (queuedHostIds_refills w st).mono ?_
  exact fun hostId caps hpresents => Or.inr ⟨id, w, hw, hpresents⟩

theorem hasFreeCapacity_nil (hosts : List HostInfo) :
    hasFreeCapacity (some []) hosts ≠ .ok true := by
  induction hosts with
  | nil => simp [hasFreeCapacity]
  | cons host rest ih =>
    intro h
    unfold hasFreeCapacity at h
    obtain ⟨free, -, h⟩ := Json.except_bind_ok h
    simp only [Option.all_some, List.not_mem_nil, decide_false, Bool.and_false, Bool.false_eq_true,
      if_false] at h
    exact ih h

/-- A callback that names hosts has looked up the candidates. -/
theorem queuedHostIds_ok {w : Waiter} {hosts : List String}
    (h : queuedHostIds cfg reg health w st = (.ok hosts, st')) (hne : hosts ≠ []) :
    ∃ candidates, currentCandidates cfg reg health w.token w.modelHosts st =
      (.ok candidates, st') := by
  unfold queuedHostIds at h
  split at h
  · next candidates st₁ hcand =>
    cases h
    exact ⟨candidates, hcand⟩
  · cases h
    exact absurd rfl hne
  · cases h
    exact absurd rfl hne
  · cases h

/-- A dispatch that lets the request through ends with the request's own callback. -/
theorem dispatchFor_own {available : List String} {queue : SchedulingQueue Waiter} {w : Waiter}
    (h : dispatchFor cfg requestId core available = (.ok (some requestId), queue, st'))
    (hown : core.queue.eligibility.get? requestId = some w) :
    ∃ a candidates, Later cfg core.scratch a ∧ (core.scratch.Tied → a.Tied) ∧
      currentCandidates cfg core.registry core.health w.token w.modelHosts a =
        (.ok candidates, st') := by
  have hlast := SchedulingQueue.dispatch_last
    (fun a b => Later cfg a b ∧ (a.Tied → b.Tied)) (fun a => ⟨.refl a, id⟩)
    (fun _ _ _ hab hbc => ⟨hab.1.trans hbc.1, fun ha => hbc.2 (hab.2 ha)⟩)
    (fun _ w _ st => ⟨(queuedHostIds_later cfg core.registry core.health w st).1,
      (queuedHostIds_refills w st).tied⟩) h
  rcases hlast with ⟨a, entry, allowed, ⟨hlater, htied⟩, rfl, hallowed, hfree⟩
  simp only [SchedulingQueue.allowedFor, hown] at hallowed
  generalize hids : queuedHostIds cfg core.registry core.health w a = ids at hallowed
  rcases ids with ⟨result, st₁⟩
  cases result with
  | error e => cases hallowed
  | ok hosts =>
    cases hallowed
    have hne : hosts ≠ [] := by
      rintro rfl
      exact hasFreeCapacity_nil _ hfree
    rcases queuedHostIds_ok hids hne with ⟨candidates, hcand⟩
    exact ⟨a, candidates, hlater, htied, hcand⟩

end

end LlmHomeLab
