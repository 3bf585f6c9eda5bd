import LlmHomeLab.Health.Monitor
import LlmHomeLab.Scheduling.Queue

/-! # Which hosts a chat request may use

The closures of `create_app` that decide it: `_backend_for` with its cache,
`_fits_in_budget`, `_model_capable_hosts`, `_eligible_candidates`, and `current_candidates` and
`queued_host_ids` of a request. They read the registry and the health monitor and change only
what `Scratch` holds: they drop expired leases, fill the backend cache and read the lease
clock.
-/

namespace LlmHomeLab

/-! ## Model -/

/-- The arguments of `create_app` a chat request depends on. `factory` runs
`backend_factories[backend_type](capabilities)` and says whether the backend has a
`list_models`. `leaseClock n` is the `n`-th reading of the lease clock. -/
structure Config where
  factory : HostCapabilities → Except Exn Bool
  leaseClock : Nat → Int
  dispatchWaitTimeout : ℚ := 30
  dispatchPollInterval : ℚ := 1 / 10

/-- The lease book, the backend cache and the number of lease clock readings so far. -/
structure Scratch where
  book : NodeLeaseBook
  backendsById : Dict String Backend := .empty
  backendCapabilitiesById : Dict String HostCapabilities := .empty
  readings : Nat := 0
  cached : ∀ {h b}, backendsById.get? h = some b →
    b.backendId = h ∧ ∃ c, backendCapabilitiesById.get? h = some c := by simp

namespace Scratch

def withBook (st : Scratch) (book : NodeLeaseBook) : Scratch := { st with book }

/-- Put a backend and what it was built from into the cache. -/
def cache (st : Scratch) (hostId : String) (capabilities : HostCapabilities)
    (hasListModels : Bool) : Scratch where
  book := st.book
  backendsById := st.backendsById.set hostId ⟨hostId, capabilities, hasListModels⟩
  backendCapabilitiesById := st.backendCapabilitiesById.set hostId capabilities
  readings := st.readings
  cached {h b} hb := by
    rw [Dict.get?_set] at hb
    rw [Dict.get?_set]
    split at hb
    · next heq =>
      cases hb
      simp [heq]
    · next hne =>
      simpa [hne] using st.cached hb

/-- The cache part of `_prune_backend_cache`. -/
def prune (st : Scratch) (liveIds : List String) : Scratch where
  book := st.book
  backendsById := st.backendsById.filter fun h _ => h ∈ liveIds
  backendCapabilitiesById := st.backendCapabilitiesById.filter fun h _ => h ∈ liveIds
  readings := st.readings
  cached {h b} hb := by
    rw [Dict.get?_filter, Option.filter_eq_some_iff] at hb
    obtain ⟨hid, c, hc⟩ := st.cached hb.1
    refine ⟨hid, c, ?_⟩
    rw [Dict.get?_filter, Option.filter_eq_some_iff]
    exact ⟨hc, hb.2⟩

end Scratch

variable (cfg : Config)

/-- `_lease_now()`. -/
def leaseNow (st : Scratch) : Int × Scratch :=
  (cfg.leaseClock st.readings, { st with readings := st.readings + 1 })

/-- Build the backend of a host. -/
def buildBackend (hostId : String) (capabilities : HostCapabilities) (st : Scratch) :
    Except Exn Backend × Scratch :=
  match cfg.factory capabilities with
  | .error e => (.error e, st)
  | .ok hasListModels =>
    (.ok ⟨hostId, capabilities, hasListModels⟩, st.cache hostId capabilities hasListModels)

/-- `_backend_for`. -/
def backendFor (hostId : String) (capabilities : HostCapabilities) (st : Scratch) :
    Except Exn Backend × Scratch :=
  match st.backendsById.get? hostId with
  | none => buildBackend cfg hostId capabilities st
  | some backend =>
    match st.backendCapabilitiesById.get? hostId with
    | none => (.error (.builtin .keyError), st)
    | some built =>
      if built.same capabilities then (.ok backend, st)
      else buildBackend cfg hostId capabilities st

/-- The sizes of the loaded models, if all are known. -/
def loadedSize (sizes : Dict String ℚ) : List String → Option ℚ
  | [] => some 0
  | model :: rest => do return (← sizes.get? model) + (← loadedSize sizes rest)

/-- `_fits_in_budget`. -/
def fitsInBudget (capabilities : HostCapabilities) (model : String) (loaded : List String) : Bool :=
  match capabilities.memoryBudgetGb with
  | none => false
  | some budget =>
    let sizes := capabilities.modelSizesGb.getD .empty
    match sizes.get? model, loadedSize sizes loaded with
    | some requested, some current => current + requested ≤ budget
    | _, _ => false

/-- Where `_model_capable_hosts` is: the hosts it has not looked at, the capable ones it has
found, and whether a budget was in the way. -/
structure Discovery where
  pending : List Nat
  capable : List Nat := []
  anyBudgetBlocked : Bool := false
deriving DecidableEq, Repr

inductive DiscoveryStop where
  | done (capable : List Nat) (anyBudgetBlocked : Bool)
  /-- Suspended in `list_models` of a host. -/
  | awaiting (ref : Nat) (d : Discovery)
  | raised (e : Exn)

/-- `_model_capable_hosts` up to its end or its next `await`. -/
def discover (reg : HostRegistry) (model : String) (capable : List Nat) (anyBudgetBlocked : Bool) :
    List Nat → Scratch → DiscoveryStop × Scratch
  | [], st => (.done capable anyBudgetBlocked, st)
  | ref :: rest, st =>
    let host := reg.heap ref
    match host.capabilities.allowedModels with
    | some allowed =>
      discover reg model (if model ∈ allowed then capable ++ [ref] else capable) anyBudgetBlocked
        rest st
    | none =>
      match backendFor cfg host.hostId host.capabilities st with
      | (.error e, st) => (.raised e, st)
      | (.ok backend, st) =>
        if backend.hasListModels then (.awaiting ref ⟨rest, capable, anyBudgetBlocked⟩, st)
        else discover reg model (capable ++ [ref]) anyBudgetBlocked rest st

/-- What the loop body does with the answer of `list_models`. -/
def Discovery.listed (d : Discovery) (reg : HostRegistry) (model : String) (ref : Nat)
    (loaded : Option (List String)) : Discovery :=
  let host := reg.heap ref
  match loaded with
  | none => { d with capable := d.capable ++ [ref] }
  | some loaded =>
    if model ∈ loaded || fitsInBudget host.capabilities model loaded then
      { d with capable := d.capable ++ [ref] }
    else if host.capabilities.memoryBudgetGb.isSome then { d with anyBudgetBlocked := true }
    else d

/-- `host.in_flight / host.capacity.max_concurrent_requests`. -/
def loadRatio (host : HostInfo) : Except Exn ℚ :=
  match host.capacity.maxConcurrentRequests with
  | none => .error (.builtin .typeError)
  | some limit => if limit = 0 then .error .zeroDivisionError else .ok (host.inFlight / limit)

/-- `_eligible_candidates`. -/
def eligibleCandidates (reg : HostRegistry) (health : HealthMonitor) :
    List Nat → Scratch → Except Exn (List RoutingCandidate) × Scratch
  | [], st => (.ok [], st)
  | ref :: rest, st =>
    let host := reg.heap ref
    if !health.isHealthy host.hostId then eligibleCandidates reg health rest st
    else
      match host.belowLimit with
      | .error e => (.error (.builtin e), st)
      | .ok false => eligibleCandidates reg health rest st
      | .ok true =>
        match loadRatio host with
        | .error e => (.error e, st)
        | .ok latencyMs =>
          match backendFor cfg host.hostId host.capabilities st with
          | (.error e, st) => (.error e, st)
          | (.ok backend, st) =>
            match eligibleCandidates reg health rest st with
            | (.error e, st) => (.error e, st)
            | (.ok others, st) =>
              (.ok (⟨backend, latencyMs, host.capabilities.contextWindow⟩ :: others), st)

/-- The hosts no lease holds. -/
def openHosts (reg : HostRegistry) (now : Int) : List Nat → NodeLeaseBook → List Nat × NodeLeaseBook
  | [], book => ([], book)
  | ref :: rest, book =>
    let held := book.isHeld (reg.heap ref).hostId now
    let others := openHosts reg now rest held.2
    (if held.1 then others.1 else ref :: others.1, others.2)

/-- `current_candidates` of a request with this token and these model hosts. -/
def currentCandidates (reg : HostRegistry) (health : HealthMonitor) (token : Option String)
    (modelHosts : List Nat) (st : Scratch) : Except Exn (List RoutingCandidate) × Scratch :=
  let (now, st) := leaseNow cfg st
  match token with
  | none =>
    let usable := openHosts reg now modelHosts st.book
    eligibleCandidates cfg reg health usable.1 (st.withBook usable.2)
  | some token =>
    match st.book.require token now with
    | (.error e, book) => (.error (.lease e), st.withBook book)
    | (.ok live, book) =>
      eligibleCandidates cfg reg health
        (modelHosts.filter fun ref => (reg.heap ref).hostId = live.hostId) (st.withBook book)

/-- What the closures of a waiting request capture. -/
structure Waiter where
  token : Option String
  modelHosts : List Nat
deriving DecidableEq, Repr

/-- `queued_host_ids`. -/
def queuedHostIds (reg : HostRegistry) (health : HealthMonitor) (w : Waiter) (st : Scratch) :
    Except Exn (List String) × Scratch :=
  match currentCandidates cfg reg health w.token w.modelHosts st with
  | (.ok candidates, st) => (.ok (candidates.map (·.backend.backendId)), st)
  | (.error (.lease .notHeld), st) => (.ok [], st)
  | (.error (.lease (.ended _ _)), st) => (.ok [], st)
  | (.error e, st) => (.error e, st)

/-! ## Later scratch states -/

variable {cfg}

/-- `b` comes after `a`: the clock was read some more times, and of the leases only such are
gone as had expired at one of these readings. -/
structure Later (cfg : Config) (a b : Scratch) : Prop where
  readings : a.readings ≤ b.readings
  consistent : a.book.Consistent → b.book.Consistent
  drops : a.book.Consistent → NodeLeaseBook.Drops
    (fun l => ∃ k, a.readings ≤ k ∧ k < b.readings ∧ l.live (cfg.leaseClock k) = false)
    a.book b.book

theorem Later.refl (a : Scratch) : Later cfg a a :=
  ⟨le_refl _, id, fun _ => .refl _ _⟩

theorem Later.trans {a b c : Scratch} (hab : Later cfg a b) (hbc : Later cfg b c) :
    Later cfg a c where
  readings := hab.readings.trans hbc.readings
  consistent h := hbc.consistent (hab.consistent h)
  drops h := by
    have h₁ := (hab.drops h).mono (Q := fun l =>
      ∃ k, a.readings ≤ k ∧ k < c.readings ∧ l.live (cfg.leaseClock k) = false)
      fun l ⟨k, hk, hk', hl⟩ => ⟨k, hk, lt_of_lt_of_le hk' hbc.readings, hl⟩
    have h₂ := (hbc.drops (hab.consistent h)).mono (Q := fun l =>
      ∃ k, a.readings ≤ k ∧ k < c.readings ∧ l.live (cfg.leaseClock k) = false)
      fun l ⟨k, hk, hk', hl⟩ => ⟨k, hab.readings.trans hk, hk', hl⟩
    exact h₁.trans h₂

/-- Same book, same number of readings. -/
theorem Later.of_eq {a b : Scratch} (hb : b.book = a.book) (hr : b.readings = a.readings) :
    Later cfg a b where
  readings := hr.ge
  consistent h := hb ▸ h
  drops _ := hb ▸ .refl _ _

/-- A lookup at the reading just taken. -/
theorem Later.of_looked {a b : Scratch} (hr : b.readings = a.readings + 1)
    (h : a.book.Consistent →
      NodeLeaseBook.Looked (cfg.leaseClock a.readings) a.book b.book) : Later cfg a b where
  readings := hr ▸ Nat.le_succ _
  consistent hc := (h hc).consistent
  drops hc := (h hc).drops.mono fun _ hl =>
    ⟨a.readings, le_refl _, hr ▸ Nat.lt_succ_self _, hl⟩

theorem backendFor_same (cfg : Config) (hostId : String) (capabilities : HostCapabilities)
    (st : Scratch) :
    (backendFor cfg hostId capabilities st).2.book = st.book ∧
      (backendFor cfg hostId capabilities st).2.readings = st.readings := by
  have hbuild : (buildBackend cfg hostId capabilities st).2.book = st.book ∧
      (buildBackend cfg hostId capabilities st).2.readings = st.readings := by
    unfold buildBackend
    split <;> exact ⟨rfl, rfl⟩
  unfold backendFor
  split
  · exact hbuild
  · split
    · exact ⟨rfl, rfl⟩
    · split
      · exact ⟨rfl, rfl⟩
      · exact hbuild

theorem backendFor_ok {hostId : String} {capabilities : HostCapabilities} {st st' : Scratch}
    {backend : Backend} (h : backendFor cfg hostId capabilities st = (.ok backend, st')) :
    backend.backendId = hostId := by
  have hbuild : ∀ {b : Backend} {st' : Scratch},
      buildBackend cfg hostId capabilities st = (.ok b, st') → b.backendId = hostId := by
    intro b st' hb
    unfold buildBackend at hb
    split at hb
    · cases hb
    · cases hb
      rfl
  unfold backendFor at h
  split at h
  · exact hbuild h
  · next cachedBackend hcached =>
    split at h
    · cases h
    · split at h
      · cases h
        exact (st.cached hcached).1
      · exact hbuild h

/-! ## What the candidates are -/

section

variable {reg : HostRegistry} {health : HealthMonitor}

theorem discover_same (cfg : Config) (reg : HostRegistry) (model : String)
    (refs capable : List Nat) (blocked : Bool) (st : Scratch) :
    (discover cfg reg model capable blocked refs st).2.book = st.book ∧
      (discover cfg reg model capable blocked refs st).2.readings = st.readings := by
  induction refs generalizing capable st with
  | nil => exact ⟨rfl, rfl⟩
  | cons ref rest ih =>
    unfold discover
    simp only
    split
    · exact ih _ _
    · have hsame := backendFor_same cfg (reg.heap ref).hostId (reg.heap ref).capabilities st
      split
      · next hb => simpa [hb] using hsame
      · next hb =>
        rw [hb] at hsame
        split
        · exact hsame
        · exact ⟨(ih _ _).1.trans hsame.1, (ih _ _).2.trans hsame.2⟩

/-- The references a suspended or finished discovery holds are among those it started with. -/
def DiscoveryStop.refs : DiscoveryStop → List Nat
  | .done capable _ => capable
  | .awaiting ref d => ref :: (d.pending ++ d.capable)
  | .raised _ => []

theorem discover_refs (cfg : Config) (reg : HostRegistry) (model : String)
    (refs capable : List Nat) (blocked : Bool) (st : Scratch) :
    ∀ ref ∈ (discover cfg reg model capable blocked refs st).1.refs, ref ∈ refs ++ capable := by
  induction refs generalizing capable st with
  | nil => simp [discover, DiscoveryStop.refs]
  | cons x rest ih =>
    unfold discover
    simp only
    split
    · intro ref href
      have := ih _ _ ref href
      split at this <;> simp at this ⊢ <;> tauto
    · split
      · simp [DiscoveryStop.refs]
      · split
        · intro ref href
          simp only [DiscoveryStop.refs, List.mem_cons, List.mem_append] at href
          simp only [List.cons_append, List.mem_cons, List.mem_append]
          exact href
        · intro ref href
          have := ih _ _ ref href
          simp at this ⊢
          tauto

theorem eligibleCandidates_same (cfg : Config) (reg : HostRegistry) (health : HealthMonitor)
    (refs : List Nat) (st : Scratch) :
    (eligibleCandidates cfg reg health refs st).2.book = st.book ∧
      (eligibleCandidates cfg reg health refs st).2.readings = st.readings := by
  induction refs generalizing st with
  | nil => exact ⟨rfl, rfl⟩
  | cons ref rest ih =>
    unfold eligibleCandidates
    simp only
    have hsame := backendFor_same cfg (reg.heap ref).hostId (reg.heap ref).capabilities st
    split
    · exact ih st
    · split
      · exact ⟨rfl, rfl⟩
      · exact ih st
      · split
        · exact ⟨rfl, rfl⟩
        · split
          · next hb => simpa [hb] using hsame
          · next backend st' hb =>
            rw [hb] at hsame
            have hrest := ih st'
            split
            · next he =>
              rw [he] at hrest
              exact ⟨hrest.1.trans hsame.1, hrest.2.trans hsame.2⟩
            · next he =>
              rw [he] at hrest
              exact ⟨hrest.1.trans hsame.1, hrest.2.trans hsame.2⟩

/-- The first host is passed over, or gives the first candidate. -/
theorem eligibleCandidates_cons {ref : Nat} {rest : List Nat} {st st' : Scratch}
    {candidates : List RoutingCandidate}
    (h : eligibleCandidates cfg reg health (ref :: rest) st = (.ok candidates, st')) :
    ((health.isHealthy (reg.heap ref).hostId = false ∨ (reg.heap ref).belowLimit = .ok false) ∧
      eligibleCandidates cfg reg health rest st = (.ok candidates, st')) ∨
    ∃ backend latencyMs st₁ others,
      health.isHealthy (reg.heap ref).hostId = true ∧ (reg.heap ref).belowLimit = .ok true ∧
      backendFor cfg (reg.heap ref).hostId (reg.heap ref).capabilities st = (.ok backend, st₁) ∧
      eligibleCandidates cfg reg health rest st₁ = (.ok others, st') ∧
      candidates = ⟨backend, latencyMs, (reg.heap ref).capabilities.contextWindow⟩ :: others := by
  unfold eligibleCandidates at h
  simp only at h
  split at h
  · next hsick => exact Or.inl ⟨Or.inl (by simpa using hsick), h⟩
  · next hhealthy =>
    split at h
    · cases h
    · next hfull => exact Or.inl ⟨Or.inr hfull, h⟩
    · next hbelow =>
      split at h
      · cases h
      · next latencyMs _ =>
        split at h
        · cases h
        · next backend st₁ hb =>
          split at h
          · cases h
          · next others st₂ hothers =>
            cases h
            exact Or.inr ⟨backend, latencyMs, st₁, others, by simpa using hhealthy, hbelow, hb,
              hothers, rfl⟩

/-- A candidate stands for a healthy host of the list whose record has a free slot, and has the
context window of the record. -/
theorem mem_eligibleCandidates {refs : List Nat} {st st' : Scratch}
    {candidates : List RoutingCandidate}
    (h : eligibleCandidates cfg reg health refs st = (.ok candidates, st'))
    {c : RoutingCandidate} (hc : c ∈ candidates) :
    ∃ ref ∈ refs, (reg.heap ref).hostId = c.backend.backendId ∧ (reg.heap ref).Free ∧
      health.isHealthy (reg.heap ref).hostId = true ∧
      c.contextWindow = (reg.heap ref).capabilities.contextWindow := by
  induction refs generalizing st candidates with
  | nil =>
    cases h
    cases hc
  | cons ref rest ih =>
    have hrest : ∀ {st candidates},
        eligibleCandidates cfg reg health rest st = (.ok candidates, st') →
        c ∈ candidates → ∃ ref' ∈ ref :: rest, (reg.heap ref').hostId = c.backend.backendId ∧
          (reg.heap ref').Free ∧ health.isHealthy (reg.heap ref').hostId = true ∧
          c.contextWindow = (reg.heap ref').capabilities.contextWindow := by
      intro st candidates h hc
      obtain ⟨ref', hmem, hfacts⟩ := ih h hc
      exact ⟨ref', List.mem_cons_of_mem _ hmem, hfacts⟩
    rcases eligibleCandidates_cons h with
      ⟨-, hpassed⟩ | ⟨backend, latencyMs, st₁, others, hhealthy, hbelow, hb, hothers, rfl⟩
    · exact hrest hpassed hc
    · rcases List.mem_cons.mp hc with rfl | hc
      · exact ⟨ref, List.mem_cons_self, (backendFor_ok hb).symm,
          HostInfo.belowLimit_eq_true.mp hbelow, hhealthy, rfl⟩
      · exact hrest hothers hc

/-- Nothing raises when this host is looked at. -/
def Buildable (cfg : Config) (host : HostInfo) : Prop :=
  (∃ limit, host.capacity.maxConcurrentRequests = some limit ∧ (host.inFlight < limit → limit ≠ 0)) ∧
    ∃ hasListModels, cfg.factory host.capabilities = .ok hasListModels

theorem backendFor_of_factory {capabilities : HostCapabilities} (hostId : String)
    (h : ∃ b, cfg.factory capabilities = .ok b) (st : Scratch) :
    ∃ backend st', backendFor cfg hostId capabilities st = (.ok backend, st') := by
  obtain ⟨b, hb⟩ := h
  have hbuild : buildBackend cfg hostId capabilities st =
      (.ok ⟨hostId, capabilities, b⟩, st.cache hostId capabilities b) := by
    simp [buildBackend, hb]
  unfold backendFor
  split
  · exact ⟨_, _, hbuild⟩
  · next backend hbackend =>
    obtain ⟨_, c, hc⟩ := st.cached hbackend
    rw [hc]
    simp only
    split
    · exact ⟨_, _, rfl⟩
    · exact ⟨_, _, hbuild⟩

/-- If nothing raises, every healthy host of the list with a free slot is a candidate, with the
context window of its record. -/
theorem eligibleCandidates_complete (health : HealthMonitor) {refs : List Nat}
    (hbuild : ∀ ref ∈ refs, Buildable cfg (reg.heap ref)) (st : Scratch) :
    ∃ candidates st', eligibleCandidates cfg reg health refs st = (.ok candidates, st') ∧
      ∀ ref ∈ refs, (reg.heap ref).Free → health.isHealthy (reg.heap ref).hostId = true →
        ∃ c ∈ candidates, c.backend.backendId = (reg.heap ref).hostId ∧
          c.contextWindow = (reg.heap ref).capabilities.contextWindow := by
  induction refs generalizing st with
  | nil => exact ⟨[], st, rfl, by simp⟩
  | cons ref rest ih =>
    have hrest := fun r hr => hbuild r (List.mem_cons_of_mem _ hr)
    obtain ⟨⟨limit, hlimit, hzero⟩, hfactory⟩ := hbuild ref List.mem_cons_self
    by_cases hhealthy : health.isHealthy (reg.heap ref).hostId = true
    · by_cases hfree : (reg.heap ref).inFlight < limit
      · obtain ⟨backend, st₁, hb⟩ := backendFor_of_factory (reg.heap ref).hostId hfactory st
        obtain ⟨others, st₂, hothers, hall⟩ := ih hrest st₁
        refine ⟨⟨backend, (reg.heap ref).inFlight / limit,
          (reg.heap ref).capabilities.contextWindow⟩ :: others, st₂, ?_, ?_⟩
        · simp [eligibleCandidates, hhealthy, HostInfo.belowLimit, hlimit, hfree, loadRatio,
            hzero hfree, hb, hothers]
        · intro r hr hf hh
          rcases List.mem_cons.mp hr with rfl | hr
          · exact ⟨_, List.mem_cons_self, backendFor_ok hb, rfl⟩
          · obtain ⟨c, hc, hfacts⟩ := hall r hr hf hh
            exact ⟨c, List.mem_cons_of_mem _ hc, hfacts⟩
      · -- no free slot: no candidate, and none is asked for
        obtain ⟨others, st₁, hothers, hall⟩ := ih hrest st
        refine ⟨others, st₁, ?_, ?_⟩
        · simp [eligibleCandidates, hhealthy, HostInfo.belowLimit, hlimit, hfree, hothers]
        · intro r hr hf hh
          rcases List.mem_cons.mp hr with rfl | hr
          · obtain ⟨l, hl, hlt⟩ := hf
            rw [hlimit] at hl
            cases hl
            exact absurd hlt hfree
          · exact hall r hr hf hh
    · obtain ⟨others, st₁, hothers, hall⟩ := ih hrest st
      refine ⟨others, st₁, ?_, ?_⟩
      · simp [eligibleCandidates, hhealthy, hothers]
      · intro r hr hf hh
        rcases List.mem_cons.mp hr with rfl | hr
        · exact absurd hh hhealthy
        · exact hall r hr hf hh

theorem looked_openHosts (reg : HostRegistry) (now : Int) {book : NodeLeaseBook}
    (h : book.Consistent) (refs : List Nat) :
    NodeLeaseBook.Looked now book (openHosts reg now refs book).2 := by
  induction refs generalizing book with
  | nil => exact ⟨h, .refl _ _⟩
  | cons ref rest ih =>
    have hheld := NodeLeaseBook.looked_isHeld h (reg.heap ref).hostId now
    have hrest := ih hheld.consistent
    exact ⟨hrest.consistent, hheld.drops.trans hrest.drops⟩

/-- The open hosts are those without a live lease. -/
theorem mem_openHosts {now : Int} {book : NodeLeaseBook} (h : book.Consistent) {refs : List Nat}
    {ref : Nat} :
    ref ∈ (openHosts reg now refs book).1 ↔
      ref ∈ refs ∧ ¬ book.Leased (reg.heap ref).hostId now := by
  induction refs generalizing book with
  | nil => simp [openHosts]
  | cons x rest ih =>
    have hheld := NodeLeaseBook.looked_isHeld h (reg.heap x).hostId now
    have hrest := ih hheld.consistent
    rw [hheld.leased_iff] at hrest
    simp only [openHosts]
    -- a host that is held is left out
    by_cases hx : (book.isHeld (reg.heap x).hostId now).1 = true
    · have hleased := NodeLeaseBook.isHeld_iff.mp hx
      rw [if_pos hx, hrest, List.mem_cons]
      constructor
      · exact fun h' => ⟨Or.inr h'.1, h'.2⟩
      · rintro ⟨rfl | hmem, hnot⟩
        · exact absurd hleased hnot
        · exact ⟨hmem, hnot⟩
    · have hleased : ¬ book.Leased (reg.heap x).hostId now := fun h' =>
        hx (NodeLeaseBook.isHeld_iff.mpr h')
      rw [if_neg hx, List.mem_cons, hrest, List.mem_cons]
      constructor
      · rintro (rfl | h')
        · exact ⟨Or.inl rfl, hleased⟩
        · exact ⟨Or.inr h'.1, h'.2⟩
      · rintro ⟨rfl | hmem, hnot⟩
        · exact Or.inl rfl
        · exact Or.inr ⟨hmem, hnot⟩

/-- The lease rules: without a token, a host that is not leased; with one, the host of its
live lease. -/
def LeaseAllows (book : NodeLeaseBook) (token : Option String) (hostId : String) (now : Int) :
    Prop :=
  match token with
  | none => ¬ book.Leased hostId now
  | some token => ∃ lease, book.byToken.get? token = some lease ∧ lease.live now = true ∧
      lease.hostId = hostId

theorem currentCandidates_later (cfg : Config) (reg : HostRegistry) (health : HealthMonitor)
    (token : Option String) (modelHosts : List Nat) (st : Scratch) :
    Later cfg st (currentCandidates cfg reg health token modelHosts st).2 ∧
      (currentCandidates cfg reg health token modelHosts st).2.readings = st.readings + 1 := by
  suffices h : (currentCandidates cfg reg health token modelHosts st).2.readings = st.readings + 1 ∧
      (st.book.Consistent → NodeLeaseBook.Looked (cfg.leaseClock st.readings) st.book
        (currentCandidates cfg reg health token modelHosts st).2.book) from
    ⟨.of_looked h.1 h.2, h.1⟩
  unfold currentCandidates leaseNow
  simp only
  cases token with
  | none =>
    obtain ⟨hbook, hreads⟩ := eligibleCandidates_same cfg reg health
      (openHosts reg (cfg.leaseClock st.readings) modelHosts st.book).1
      (Scratch.withBook { st with readings := st.readings + 1 }
        (openHosts reg (cfg.leaseClock st.readings) modelHosts st.book).2)
    refine ⟨hreads, fun hc => ?_⟩
    simp only
    rw [hbook]
    exact looked_openHosts reg _ hc modelHosts
  | some token =>
    have hlook := fun hc : st.book.Consistent =>
      NodeLeaseBook.looked_require hc token (cfg.leaseClock st.readings)
    simp only
    split
    · next hreq =>
      rw [hreq] at hlook
      exact ⟨rfl, hlook⟩
    · next live book hreq =>
      rw [hreq] at hlook
      obtain ⟨hbook, hreads⟩ := eligibleCandidates_same cfg reg health
        (modelHosts.filter fun ref => (reg.heap ref).hostId = live.hostId)
        (Scratch.withBook { st with readings := st.readings + 1 } book)
      refine ⟨hreads, fun hc => ?_⟩
      rw [hbook]
      exact hlook hc

theorem queuedHostIds_later (cfg : Config) (reg : HostRegistry) (health : HealthMonitor)
    (w : Waiter)
    (st : Scratch) :
    Later cfg st (queuedHostIds cfg reg health w st).2 ∧
      (queuedHostIds cfg reg health w st).2.readings = st.readings + 1 := by
  have hlater := currentCandidates_later cfg reg health w.token w.modelHosts st
  unfold queuedHostIds
  split <;> next h => rwa [h] at hlater

/-- A candidate stands for a healthy model host whose record has a free slot and which the
lease rules allow at the clock reading of the call, and has the window of the record. -/
theorem mem_currentCandidates {token : Option String} {modelHosts : List Nat} {st st' : Scratch}
    (hbook : st.book.Consistent) {candidates : List RoutingCandidate}
    (h : currentCandidates cfg reg health token modelHosts st = (.ok candidates, st'))
    {c : RoutingCandidate} (hc : c ∈ candidates) :
    ∃ ref ∈ modelHosts, (reg.heap ref).hostId = c.backend.backendId ∧ (reg.heap ref).Free ∧
      health.isHealthy (reg.heap ref).hostId = true ∧
      LeaseAllows st.book token c.backend.backendId (cfg.leaseClock st.readings) ∧
      c.contextWindow = (reg.heap ref).capabilities.contextWindow := by
  unfold currentCandidates leaseNow at h
  simp only at h
  cases token with
  | none =>
    -- without a token: a host nobody has reserved
    obtain ⟨ref, hmem, hid, hfree, hhealthy, hwindow⟩ := mem_eligibleCandidates h hc
    obtain ⟨hmodel, hopen⟩ := (mem_openHosts hbook).mp hmem
    exact ⟨ref, hmodel, hid, hfree, hhealthy, hid ▸ hopen, hwindow⟩
  | some token =>
    -- with a token: the host of the lease
    simp only at h
    split at h
    · cases h
    · next live book hreq =>
      obtain ⟨ref, hmem, hid, hfree, hhealthy, hwindow⟩ := mem_eligibleCandidates h hc
      obtain ⟨hmodel, hpin⟩ := List.mem_filter.mp hmem
      have hok := NodeLeaseBook.require_ok hreq
      refine ⟨ref, hmodel, hid, hfree, hhealthy, ⟨live, hok.1, hok.2.1, ?_⟩, hwindow⟩
      rw [← hid]
      exact (of_decide_eq_true hpin).symm

/-- Conversely, if nothing raises, each such host is a candidate. -/
theorem currentCandidates_complete {token : Option String} {modelHosts : List Nat} {st : Scratch}
    (hbook : st.book.Consistent)
    (hbuild : ∀ ref ∈ modelHosts, Buildable cfg (reg.heap ref))
    {ref : Nat} (href : ref ∈ modelHosts) (hfree : (reg.heap ref).Free)
    (hhealthy : health.isHealthy (reg.heap ref).hostId = true)
    (hallows : LeaseAllows st.book token (reg.heap ref).hostId (cfg.leaseClock st.readings)) :
    ∃ candidates st', currentCandidates cfg reg health token modelHosts st = (.ok candidates, st') ∧
      ∃ c ∈ candidates, c.backend.backendId = (reg.heap ref).hostId ∧
        c.contextWindow = (reg.heap ref).capabilities.contextWindow := by
  unfold currentCandidates leaseNow
  simp only
  cases token with
  | none =>
    simp only
    have hopen : ∀ ref ∈ (openHosts reg (cfg.leaseClock st.readings) modelHosts st.book).1,
        Buildable cfg (reg.heap ref) := fun r hr => hbuild r ((mem_openHosts hbook).mp hr).1
    obtain ⟨candidates, st', heq, hall⟩ := eligibleCandidates_complete health hopen _
    have hopen := (mem_openHosts hbook).mpr ⟨href, hallows⟩
    exact ⟨candidates, st', heq, hall ref hopen hfree hhealthy⟩
  | some token =>
    obtain ⟨lease, hlease, hlive, hid⟩ := hallows
    simp only [NodeLeaseBook.require_of_live hlease hlive]
    have hpinned : ∀ ref ∈ modelHosts.filter fun ref => (reg.heap ref).hostId = lease.hostId,
        Buildable cfg (reg.heap ref) := fun r hr => hbuild r (List.mem_filter.mp hr).1
    obtain ⟨candidates, st', heq, hall⟩ := eligibleCandidates_complete health hpinned _
    exact ⟨candidates, st', heq,
      hall ref (List.mem_filter.mpr ⟨href, by simp [hid]⟩) hfree hhealthy⟩

end

end LlmHomeLab
