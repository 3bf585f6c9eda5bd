import LlmHomeLab.Gateway.Selection

/-! # Fresh backends

A request is sent through the backend its host has in the cache when the slot is acquired. That
backend was built from the record the request captured when it arrived, whatever other requests,
probes and reservations have put into the cache before: it is the backend of the registered
record exactly if the two records have equal capabilities.
-/

namespace LlmHomeLab

variable {cfg : Config} {s s' s₀ : State} {e : Event} {es : List Event}
  {requestId hostId : String} {req req' : Request} {reg reg' : HostRegistry} {core : Core}

/-! ## Admissions -/

/-- The request acquires a slot of the host in this step. -/
structure Acquires (requestId hostId : String) (s s' : State) : Prop where
  before : (s.requests.get? requestId).bind (·.slot) = none
  after : (s'.requests.get? requestId).bind (·.slot) = some hostId

/-- The capabilities registered for the host. -/
def HostRegistry.registered (reg : HostRegistry) (hostId : String) : Option HostCapabilities :=
  (reg.lookup hostId).map (·.capabilities)

/-- The backend of the host and the capabilities noted beside it correspond to the registered
record, and so does the context window the request was routed with. -/
structure FreshAs (cfg : Config) (hostId : String) (s : State) (e : Event) (s' : State)
    (registered : HostCapabilities) (backend : Backend) (built : HostCapabilities) : Prop where
  current : s'.core.registry.registered hostId = some registered
  cached : s'.core.scratch.backendsById.get? hostId = some backend
  noted : s'.core.scratch.backendCapabilitiesById.get? hostId = some built
  sameBackend : backend.capabilities.same registered = true
  sameNoted : built.same registered = true
  candidate : ∃ c ∈ (selection cfg s e).2, c.backend.backendId = hostId
  window : ∀ c ∈ (selection cfg s e).2, c.backend.backendId = hostId →
    c.contextWindow = registered.contextWindow

def Fresh (cfg : Config) (hostId : String) (s : State) (e : Event) (s' : State) : Prop :=
  ∃ registered backend built, FreshAs cfg hostId s e s' registered backend built

/-- The records of the host the request holds have the capabilities registered for it. -/
def HoldsRegistered (requestId hostId : String) (s : State) : Prop :=
  ∀ req, s.requests.get? requestId = some req → ∀ ref ∈ req.captured,
    (s.core.registry.heap ref).hostId = hostId →
    ∃ registered, s.core.registry.registered hostId = some registered ∧
      (s.core.registry.heap ref).capabilities.same registered = true

/-- Every admission in a run over these events satisfies `P`. -/
def Admissions (cfg : Config) (s₀ : State) (es : List Event)
    (P : String → String → State → Event → State → Prop) : Prop :=
  ∀ before e after s s' requestId hostId, es = before ++ e :: after →
    Run (Fires (step cfg)) s₀ before s → step cfg s e = some s' →
    Acquires requestId hostId s s' → P requestId hostId s e s'

/-- The gateway starts with an empty cache. -/
structure ColdStart (s : State) : Prop extends Started s where
  backends : s.core.scratch.backendsById = .empty
  capabilities : s.core.scratch.backendCapabilitiesById = .empty

/-! ## The invariant -/

structure CacheInv (s : State) : Prop where
  tied : s.core.scratch.Tied
  exist : ∀ {id req}, s.requests.get? id = some req → ∀ ref ∈ req.captured,
    ref < s.core.registry.next
  distinct : ∀ {id req}, s.requests.get? id = some req →
    DistinctHosts s.core.registry req.captured

theorem KeepsObjects.distinctHosts {refs : List Nat} (h : KeepsObjects reg reg')
    (hexist : ∀ ref ∈ refs, ref < reg.next) (hdistinct : DistinctHosts reg refs) :
    DistinctHosts reg' refs := by
  intro x hx y hy hid
  rw [(h.settings (hexist x hx)).hostId, (h.settings (hexist y hy)).hostId] at hid
  exact hdistinct x hx y hy hid

theorem Scratch.Tied.prune {st : Scratch} (h : st.Tied) (liveIds : List String) :
    (st.prune liveIds).Tied := by
  intro id backend hb
  simp only [Scratch.prune, Dict.get?_filter, Option.filter_eq_some_iff] at hb ⊢
  exact ⟨h id backend hb.1, hb.2⟩

/-- Only the book and the clock change with a lease. -/
theorem sameCache_atLeaseTime (st : Scratch) (op : NodeLeaseBook → Int → NodeLeaseBook) :
    SameCache st (atLeaseTime cfg st op) := ⟨rfl, rfl⟩

theorem sameCache_leaseNow (st : Scratch) : SameCache st (leaseNow cfg st).2 := ⟨rfl, rfl⟩

/-- A call prunes the cache, or fills it from records that exist. -/
theorem admin_cache {a : AdminEvent} (h : adminStep cfg s.core a = some core) :
    (∃ liveIds, core.scratch = s.core.scratch.prune liveIds) ∨
      Refills cfg (Presents s.core.registry (List.range s.core.registry.next)) s.core.scratch
        core.scratch := by
  obtain ⟨scratch, hs, rfl⟩ := Option.map_eq_some_iff.mp h
  dsimp only
  cases a with
  | deregister | prune =>
    cases hs
    exact Or.inl ⟨_, rfl⟩
  | backendFor ref =>
    simp only [scratchAfter] at hs
    split at hs
    · next hexists =>
      cases hs
      exact Or.inr (backendFor_refills ⟨ref, List.mem_range.mpr hexists, rfl, rfl⟩ s.core.scratch)
    · cases hs
  | reserve =>
    simp only [scratchAfter] at hs
    split at hs
    · cases hs
    · cases hs
      exact Or.inr (.from_same (.same (sameCache_atLeaseTime _ _)) (sameCache_leaseNow _))
  | leaseHeartbeat | leaseRelease | forceRelease | listNodes =>
    cases hs
    exact Or.inr (.same (sameCache_atLeaseTime _ _))
  | _ =>
    cases hs
    exact Or.inr (.refl _)

theorem admin_tied {a : AdminEvent} (h : adminStep cfg s.core a = some core)
    (htied : s.core.scratch.Tied) : core.scratch.Tied := by
  rcases admin_cache h with ⟨liveIds, hpruned⟩ | hrefills
  · rw [hpruned]
    exact htied.prune liveIds
  · exact hrefills.tied htied

/-- The records of the request that takes a step. -/
theorem CacheInv.actor (h : CacheInv s) (hactor : Actor s requestId req e) :
    (∀ ref ∈ req.captured, ref < s.core.registry.next) ∧
      DistinctHosts s.core.registry req.captured := by
  cases hactor with
  | arrives absent new =>
    have hcaptured : req.captured = s.core.registry.hostRefs := by
      simp [Request.captured, new.phase, new.snapshot]
    rw [hcaptured]
    refine ⟨fun ref href => HostRegistry.hostRefs_lt href, fun x hx y hy hid => ?_⟩
    have hget := HostRegistry.mem_hostRefs hx
    rw [hid, HostRegistry.mem_hostRefs hy] at hget
    exact (Option.some.inj hget).symm
  | resumes present => exact ⟨h.exist present, h.distinct present⟩

/-- A step is a call, or a move of one request with what it selects. -/
theorem step_selects (hbook : s.core.scratch.book.Consistent) (hqueue : QueueInv s)
    (h : step cfg s e = some s') :
    (∃ a core, e = .admin a ∧ adminStep cfg s.core a = some core ∧ s' = { s with core }) ∨
      ∃ requestId req core req', Actor s requestId req e ∧
        Moves cfg requestId s.core req core req' ∧
        Selects cfg s.core req core req' (selection cfg s e) ∧
        s' = ⟨core, s.requests.set requestId req'⟩ := by
  rcases step_cases h with hadmin | ⟨requestId, req, core, req', hran, rfl⟩
  · exact Or.inl hadmin
  · refine Or.inr ⟨requestId, req, core, req', hran.actor, hran.moves hbook, ?_, rfl⟩
    cases hran with
    | begins absent => exact begin_selects rfl hbook
    | @resumes req req' signal now core present returns =>
      simp only [selection, present]
      refine resume_selects hbook (fun w hw => ?_) returns
      -- a waiting request has its callback in the queue
      have hwaits : WaitsWith s requestId req w.modelHosts := ⟨present, by rw [hw]; rfl⟩
      exact (hqueue.waits hwaits).1

theorem CacheInv.own (h : CacheInv s) {sel : List Nat × List RoutingCandidate}
    (hactor : Actor s requestId req e) (hmoves : Moves cfg requestId s.core req core req')
    (hselects : Selects cfg s.core req core req' sel) :
    CacheInv ⟨core, s.requests.set requestId req'⟩ := by
  obtain ⟨hexist, hdistinct⟩ := h.actor hactor
  obtain ⟨hobjects, -⟩ := hmoves.slot.keepsObjects
  refine ⟨hselects.refills.tied h.tied, hmoves.captured_exist hexist h.exist,
    fun {id r} hr => ?_⟩
  rw [Dict.get?_set] at hr
  split at hr
  · cases hr
    have hexist' : ∀ ref ∈ req'.captured, ref < s.core.registry.next := fun ref href =>
      hexist ref (hmoves.captured ref href)
    exact hobjects.distinctHosts hexist' (hdistinct.mono hmoves.captured)
  · exact hobjects.distinctHosts (h.exist hr) (h.distinct hr)

theorem CacheInv.admin (h : CacheInv s) {a : AdminEvent}
    (hcore : adminStep cfg s.core a = some core) :
    CacheInv { s with core } := by
  have hobjects := keepsObjects_registryAfter s.core.registry a
  have hregistry := (admin_queue hcore).2
  refine ⟨admin_tied hcore h.tied, fun hr ref href => ?_, fun hr => ?_⟩
  · simp only [hregistry]
    exact lt_of_lt_of_le (h.exist hr ref href) hobjects.next
  · simp only [hregistry]
    exact hobjects.distinctHosts (h.exist hr) (h.distinct hr)

theorem cacheInv_run (hstart : ColdStart s₀) (hrun : Run (Fires (step cfg)) s₀ es s) :
    CacheInv s := by
  induction hrun with
  | nil =>
    refine ⟨fun id backend hb => ?_, fun hr => ?_, fun hr => ?_⟩
    · rw [hstart.backends] at hb
      simp at hb
    · simp [hstart.requests] at hr
    · simp [hstart.requests] at hr
  | snoc hrun hstep ih =>
    have hbook := book_consistent hstart.toStarted hrun
    have hqueue := queueInv_run hstart.toStarted hrun
    rcases step_selects hbook hqueue hstep with
      ⟨a, core, rfl, hcore, rfl⟩ | ⟨id, req, core, req', hactor, hmoves, hselects, rfl⟩
    · exact ih.admin hcore
    · exact ih.own hactor hmoves hselects

/-! ## Freshness -/

/-- A move of a request leaves the registrations as they are. -/
theorem registered_of_moves (hmoves : Moves cfg requestId s.core req core req') (hostId : String) :
    core.registry.registered hostId = s.core.registry.registered hostId := by
  obtain ⟨hobjects, hhosts⟩ := hmoves.slot.keepsObjects
  unfold HostRegistry.registered HostRegistry.lookup
  rw [hhosts]
  cases hget : s.core.registry.hosts.get? hostId with
  | none => rfl
  | some ref =>
    have hsettings := hobjects.settings (s.core.registry.refs_lt hget)
    simp [hsettings.capabilities]

/-- A host whose slot is acquired is registered. -/
theorem registered_of_acquired (hmoves : Moves cfg requestId s.core req core req')
    (hnone : req.slot = none) (hslot : req'.slot = some hostId) :
    ∃ registered, s.core.registry.registered hostId = some registered := by
  have hlookup : ∀ {reg' : HostRegistry}, s.core.registry.acquireSlot hostId = some reg' →
      ∃ registered, s.core.registry.registered hostId = some registered := by
    intro reg' h
    obtain ⟨ref, href, -⟩ := Option.map_eq_some_iff.mp h
    exact ⟨_, by rw [HostRegistry.registered, HostRegistry.lookup, href]; rfl⟩
  have hmove := hmoves.slot
  generalize core.registry = reg' at hmove
  -- a slot is acquired in two kinds of moves, and both have found the host registered
  cases hmove with
  | keep _ slot _ =>
    rw [slot, hnone] at hslot
    cases hslot
  | acquire _ acquired _ slot _ _ =>
    rw [slot] at hslot
    cases hslot
    exact hlookup acquired
  | bounce _ acquired _ _ slot _ _ =>
    rw [slot] at hslot
    cases hslot
    exact hlookup acquired
  | release _ _ _ slot _ =>
    rw [slot, hnone] at hslot
    cases hslot
  | releaseRaises _ _ _ slot _ =>
    rw [slot, hnone] at hslot
    cases hslot

/-- The request that acquires a slot, and the record it was selected by. -/
theorem Acquires.selected (h : Acquires requestId hostId s s') (hinv : CacheInv s)
    (hbook : s.core.scratch.book.Consistent) (hqueue : QueueInv s)
    (hstep : step cfg s e = some s') :
    ∃ req ref, Actor s requestId req e ∧
      SelectedAs s.core req s'.core (selection cfg s e) hostId ref ∧ s'.core.scratch.Tied ∧
      ∃ registered, s.core.registry.registered hostId = some registered ∧
        s'.core.registry.registered hostId = some registered := by
  obtain ⟨hbefore, hafter⟩ := h
  rcases step_selects hbook hqueue hstep with
    ⟨a, core, rfl, hcore, rfl⟩ | ⟨id, req, core, req', hactor, hmoves, hselects, rfl⟩
  · rw [hbefore] at hafter
    cases hafter
  · simp only [Dict.get?_set] at hafter
    split at hafter
    · next heq =>
      subst heq
      have hnone : req.slot = none := by
        cases hactor with
        | arrives absent new => exact new.slot
        | resumes present => simpa [present] using hbefore
      obtain ⟨ref, hselected⟩ := hselects.sent hinv.tied (hinv.actor hactor).2 hnone hostId hafter
      obtain ⟨registered, hregistered⟩ := registered_of_acquired hmoves hnone hafter
      refine ⟨req, ref, hactor, hselected, hselects.refills.tied hinv.tied, registered,
        hregistered, ?_⟩
      rw [← hregistered]
      exact registered_of_moves hmoves hostId
    · rw [hbefore] at hafter
      cases hafter

/-- An admission is fresh exactly if the request holds the registered record, or one equal to
it. -/
theorem fresh_iff_holdsRegistered (hstart : ColdStart s₀) (hrun : Run (Fires (step cfg)) s₀ es s)
    (hstep : step cfg s e = some s') (hacquires : Acquires requestId hostId s s') :
    Fresh cfg hostId s e s' ↔ HoldsRegistered requestId hostId s := by
  have hinv := cacheInv_run hstart hrun
  obtain ⟨req, ref, hactor, hselected, htied, registered, hbefore, hafter⟩ :=
    hacquires.selected hinv (book_consistent hstart.toStarted hrun)
      (queueInv_run hstart.toStarted hrun) hstep
  obtain ⟨backend, hbackend, hsame⟩ := hselected.built
  -- the backend's capabilities are equal to what the record's are equal to
  have hcongr := HostCapabilities.same_congr hsame registered
  constructor
  · rintro ⟨registered', backend', built, hfresh⟩ r hr x hx hid
    have hregistered := hfresh.current
    rw [hafter] at hregistered
    cases hregistered
    have hcached := hfresh.cached
    rw [hbackend] at hcached
    cases hcached
    refine ⟨registered, hbefore, ?_⟩
    -- the request was there before the step, and has one record of the host
    cases hactor with
    | arrives absent _ =>
      rw [absent] at hr
      cases hr
    | resumes present =>
      rw [present] at hr
      cases hr
      have heq := hinv.distinct present x hx ref hselected.captured
        (hid.trans hselected.ofHost.symm)
      rw [heq, ← hcongr]
      exact hfresh.sameBackend
  · intro hholds
    have hrecord : (s.core.registry.heap ref).capabilities.same registered = true := by
      cases hactor with
      | arrives absent new =>
        -- the records of a request that has just arrived are the registered ones
        have hmem : ref ∈ s.core.registry.hostRefs := by
          have hcaptured := hselected.captured
          simpa [Request.captured, new.phase, new.snapshot] using hcaptured
        have hget := HostRegistry.mem_hostRefs hmem
        rw [hselected.ofHost] at hget
        have hown : registered = (s.core.registry.heap ref).capabilities := by
          simpa [HostRegistry.registered, HostRegistry.lookup, hget, eq_comm] using hbefore
        rw [hown]
        exact HostCapabilities.same_refl _
      | resumes present =>
        obtain ⟨registered', hregistered, hsame'⟩ :=
          hholds req present ref hselected.captured hselected.ofHost
        rw [hbefore] at hregistered
        cases hregistered
        exact hsame'
    have hbuilt : backend.capabilities.same registered = true := hcongr.trans hrecord
    refine ⟨registered, backend, backend.capabilities, hafter, hbackend,
      htied hostId backend hbackend, hbuilt, hbuilt, hselected.candidate, ?_⟩
    intro c hc hid
    rw [hselected.window c hc hid]
    exact HostCapabilities.same_contextWindow hrecord

/-- In a run of a gateway started with an empty cache, every request is sent through the backend
of the registered record, exactly if every request holds this record of its host, or one equal
to it, when it acquires its slot. -/
theorem backends_fresh_iff (hstart : ColdStart s₀) :
    Admissions cfg s₀ es (fun _ hostId s e s' => Fresh cfg hostId s e s') ↔
      Admissions cfg s₀ es (fun requestId hostId s _ _ => HoldsRegistered requestId hostId s) := by
  constructor
  · intro h before e after s s' requestId hostId hes hrun hstep hacquires
    rw [← fresh_iff_holdsRegistered hstart hrun hstep hacquires]
    exact h before e after s s' requestId hostId hes hrun hstep hacquires
  · intro h before e after s s' requestId hostId hes hrun hstep hacquires
    rw [fresh_iff_holdsRegistered hstart hrun hstep hacquires]
    exact h before e after s s' requestId hostId hes hrun hstep hacquires

/-- So it is as long as nobody changes the host's registration while the request holds a record
of it. -/
theorem holdsRegistered_of_keepsCaptured (hstart : Started s₀)
    (hrun : Run (Guarded (KeepsCaptured requestId hostId) (Fires (step cfg))) s₀ es s) :
    HoldsRegistered requestId hostId s := by
  intro req hreq ref href hid
  have hget := (capturesCurrent_run hstart hrun).1.current hreq ref href hid
  refine ⟨(s.core.registry.heap ref).capabilities, ?_, HostCapabilities.same_refl _⟩
  rw [HostRegistry.registered, HostRegistry.lookup, hget]
  rfl

/-! ## One node, with and without a change -/

theorem Lab.coldStart : ColdStart Lab.start := ⟨Lab.started, rfl, rfl⟩

/-- The node moves to another address. -/
def Lab.moveTo (hostId baseUrl : String) : Event :=
  .admin (.patch hostId { baseUrl := some (some baseUrl) } 0)

/-- What shows that the request acquires a slot, and where its backend and its node are. -/
def Lab.addresses (requestId hostId : String) (e : Event) (s : State) :
    Option String × Option (Option String) × Option (Option String) × Option (Option String) :=
  ((s.requests.get? requestId).bind (·.slot),
    (step Lab.config s e).map fun s' => (s'.requests.get? requestId).bind (·.slot),
    (step Lab.config s e).map fun s' =>
      (s'.core.scratch.backendsById.get? hostId).bind (·.capabilities.baseUrl),
    (step Lab.config s e).map fun s' =>
      (s'.core.registry.registered hostId).bind (·.baseUrl))

/-- A request that is admitted while its node stays registered as it was. -/
theorem backends_fresh_undisturbed :
    Admissions Lab.config Lab.start [Lab.register "gpu-1" none 1, Lab.ask "a", Lab.list "a"]
        (fun _ hostId s e s' => Fresh Lab.config hostId s e s') ∧
      ∃ s s', Run (Fires (step Lab.config)) Lab.start [Lab.register "gpu-1" none 1, Lab.ask "a"] s ∧
        step Lab.config s (Lab.list "a") = some s' ∧ Acquires "a" "gpu-1" s s' := by
  constructor
  · refine (backends_fresh_iff Lab.coldStart).mpr ?_
    intro before e after s s' requestId hostId hes hrun hstep hacquires
    cases before with
    | nil =>
      rw [hrun.nil_eq]
      intro req hreq
      simp [Lab.start] at hreq
    | cons x rest =>
      -- the node is registered before the request is there, and nothing changes it after that
      rw [List.cons_append, List.cons.injEq] at hes
      obtain ⟨rfl, hrests⟩ := hes
      obtain ⟨t, hfirst, hrest⟩ := hrun.of_cons
      have hguard : ∀ y ∈ rest, ∀ s, KeepsCaptured requestId hostId s y := by
        intro y hy s
        have hmem : y ∈ [Lab.ask "a", Lab.list "a"] := by
          rw [hrests]
          exact List.mem_append_left _ hy
        simp only [List.mem_cons, List.not_mem_nil, or_false] at hmem
        rcases hmem with rfl | rfl
        · trivial
        · trivial
      have hguarded : Run (Guarded (KeepsCaptured requestId hostId) (Fires (step Lab.config)))
          Lab.start ([Lab.register "gpu-1" none 1] ++ rest) s := by
        refine .append (.single ⟨?_, hfirst⟩) (hrest.guard hguard)
        simp [Lab.register, KeepsCaptured, State.Captures, Lab.start]
      exact holdsRegistered_of_keepsCaptured Lab.started hguarded
  · have hshows : (exec (step Lab.config) Lab.start
        [Lab.register "gpu-1" none 1, Lab.ask "a"]).map
        (Lab.addresses "a" "gpu-1" (Lab.list "a")) =
        some (none, some (some "gpu-1"), some (some "http://gpu:11434"),
          some (some "http://gpu:11434")) := by
      decide +kernel
    obtain ⟨s, hrun, hshown⟩ := run_of_shows hshows
    simp only [Lab.addresses, Prod.mk.injEq] at hshown
    obtain ⟨hbefore, hafter, -, -⟩ := hshown
    obtain ⟨s', hstep, hafter⟩ := Option.map_eq_some_iff.mp hafter
    exact ⟨s, s', hrun, hstep, hbefore, hafter⟩

/-- The node is moved while a request asks it for its models. The request is sent to the old
address. -/
theorem backend_stale_after_patch :
    ¬ Admissions Lab.config Lab.start
      [Lab.register "gpu-1" none 1, Lab.ask "a", Lab.moveTo "gpu-1" "http://gpu:8080", Lab.list "a"]
      (fun _ hostId s e s' => Fresh Lab.config hostId s e s') := by
  intro hall
  have hshows : (exec (step Lab.config) Lab.start
      [Lab.register "gpu-1" none 1, Lab.ask "a", Lab.moveTo "gpu-1" "http://gpu:8080"]).map
      (Lab.addresses "a" "gpu-1" (Lab.list "a")) =
      some (none, some (some "gpu-1"), some (some "http://gpu:11434"),
        some (some "http://gpu:8080")) := by
    decide +kernel
  obtain ⟨s, hrun, hshown⟩ := run_of_shows hshows
  simp only [Lab.addresses, Prod.mk.injEq] at hshown
  obtain ⟨hbefore, hafter, hbackend, hregistered⟩ := hshown
  obtain ⟨s', hstep, hafter⟩ := Option.map_eq_some_iff.mp hafter
  obtain ⟨registered, backend, built, hfresh⟩ :=
    hall _ (Lab.list "a") [] s s' "a" "gpu-1" rfl hrun hstep ⟨hbefore, hafter⟩
  rw [hstep] at hbackend hregistered
  simp only [Option.map_some, hfresh.cached, Option.bind_some, Option.some.injEq] at hbackend
  simp only [Option.map_some, hfresh.current, Option.bind_some, Option.some.injEq] at hregistered
  have hurl := HostCapabilities.same_baseUrl hfresh.sameBackend
  rw [hbackend, hregistered] at hurl
  exact absurd hurl (by decide)

end LlmHomeLab
