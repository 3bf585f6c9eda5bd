import LlmHomeLab.Gateway.Capacity
import LlmHomeLab.Gateway.Waiting

/-! # Admission of waiting requests

A poll of the wait loop looks at a request's hosts twice: in the records it captured before the
wait, and, in `dispatch`, in the live registry. The two agree while the registration of a host
stays as it was, and then a poll that finds the host usable admits the request.
-/

namespace LlmHomeLab

variable {cfg : Config} {s s' s₀ : State} {e : Event} {es : List Event}
  {requestId hostId : String} {req req' : Request} {reg : HostRegistry} {health : HealthMonitor}

/-! ## When a poll must admit -/

/-- The entry may be dispatched: of the hosts its callback returns, one has a free slot. -/
def Admissible (cfg : Config) (core : Core) (entry : QueueEntry) (st : Scratch) : Prop :=
  ∃ w hosts, core.queue.eligibility.get? entry.requestId = some w ∧
    (queuedHostIds cfg core.registry core.health w st).1 = .ok hosts ∧
    hasFreeCapacity (some hosts) (core.registry.hostRefs.map core.registry.heap) = .ok true

/-- In the poll from `s` to `s'` a model host can serve the request: by its current record it
is registered and below its limit, it is healthy, and the lease rules allow it at every clock
reading of the poll. -/
structure Serves (cfg : Config) (s s' : State) (req : Request) (w : Wait) (hostId : String) :
    Prop where
  capable : ∃ ref ∈ w.modelHosts, (s.core.registry.heap ref).hostId = hostId
  free : ∃ info, s.core.registry.lookup hostId = some info ∧ info.Free
  healthy : s.core.health.isHealthy hostId = true
  allowed : ∀ k, s.core.scratch.readings ≤ k → k < s'.core.scratch.readings →
    LeaseAllows s.core.scratch.book req.token hostId (cfg.leaseClock k)

/-- The request's turn: its entry is the head of its session, and no head that stands before it
in the rotation is admissible at any moment of the poll. -/
structure FirstInLine (cfg : Config) (s s' : State) (requestId : String) (req : Request) :
    Prop where
  head : ∃ entry rest, (s.core.queue.tier 0).get? (req.queueSessionId requestId) =
    some (entry :: rest) ∧ entry.requestId = requestId
  before : ∃ pre post, s.core.queue.rotations.get? 0 =
      some (pre ++ req.queueSessionId requestId :: post) ∧
    ∀ session ∈ pre, ∀ x xs, (s.core.queue.tier 0).get? session = some (x :: xs) →
      ∀ st, Later cfg s.core.scratch st → st.readings < s'.core.scratch.readings →
        ¬ Admissible cfg s.core x st

/-- No record that is registered or held by a request has a null limit or a backend that cannot
be built. -/
def RecordsSound (cfg : Config) (s : State) : Prop :=
  ∀ ref, (ref ∈ s.core.registry.hostRefs ∨
    ∃ id req, s.requests.get? id = some req ∧ ref ∈ req.captured) →
    Buildable cfg (s.core.registry.heap ref)

/-- The request is let through to the routing. -/
def LetThrough (s : State) (requestId : String) : Prop :=
  ∃ req, s.requests.get? requestId = some req ∧ req.admitted = true

/-! ## Looking at hosts -/

theorem hasFreeCapacity_total {hosts : List HostInfo}
    (h : ∀ host ∈ hosts, ∃ limit, host.capacity.maxConcurrentRequests = some limit)
    (available : Option (List String)) :
    ∃ free, hasFreeCapacity available hosts = .ok free := by
  induction hosts with
  | nil => exact ⟨false, rfl⟩
  | cons host rest ih =>
    rcases h host List.mem_cons_self with ⟨limit, hlimit⟩
    rcases ih (fun x hx => h x (List.mem_cons_of_mem _ hx)) with ⟨free, hfree⟩
    have hbelow : host.belowLimit = .ok (decide (host.inFlight < limit)) := by
      simp [HostInfo.belowLimit, hlimit]
    simp only [hasFreeCapacity, hbelow, hfree, bind, Except.bind]
    split
    · exact ⟨true, rfl⟩
    · exact ⟨free, rfl⟩

theorem hasFreeCapacity_of_free {ids : List String} {hosts : List HostInfo} {host : HostInfo}
    (hmem : host ∈ hosts) (hfree : host.Free) (hid : host.hostId ∈ ids) {b : Bool}
    (h : hasFreeCapacity (some ids) hosts = .ok b) : b = true := by
  induction hosts with
  | nil => cases hmem
  | cons x rest ih =>
    simp only [hasFreeCapacity, bind, Except.bind] at h
    split at h
    · cases h
    · next below hbelow =>
      split at h
      · cases h
        rfl
      · next hnot =>
        rcases List.mem_cons.mp hmem with rfl | hmem
        · -- this host has a free slot and is among the ids
          rw [HostInfo.belowLimit_eq_true.mpr hfree] at hbelow
          cases hbelow
          simp [hid] at hnot
        · exact ih hmem h

/-- Without a record that raises, there are candidates unless the lease is over. -/
theorem currentCandidates_error {token : Option String} {modelHosts : List Nat} {st st' : Scratch}
    {e : Exn} (hbook : st.book.Consistent)
    (hbuild : ∀ ref ∈ modelHosts, Buildable cfg (reg.heap ref))
    (h : currentCandidates cfg reg health token modelHosts st = (.error e, st')) :
    e = .lease .notHeld ∨ ∃ hostId holder, e = .lease (.ended hostId holder) := by
  unfold currentCandidates leaseNow at h
  simp only at h
  cases token with
  | none =>
    have hopen : ∀ ref ∈ (openHosts reg (cfg.leaseClock st.readings) modelHosts st.book).1,
        Buildable cfg (reg.heap ref) := fun r hr => hbuild r ((mem_openHosts hbook).mp hr).1
    rcases eligibleCandidates_complete health hopen
      (Scratch.withBook { st with readings := st.readings + 1 }
        (openHosts reg (cfg.leaseClock st.readings) modelHosts st.book).2)
      with ⟨candidates, st', heq, -⟩
    simp only [heq] at h
    cases h
  | some token =>
    simp only at h
    generalize hreq : st.book.require token (cfg.leaseClock st.readings) = res at h
    rcases res with ⟨result, book⟩
    cases result with
    | error err =>
      cases h
      unfold NodeLeaseBook.require at hreq
      split at hreq
      · cases hreq
        exact Or.inl rfl
      · split at hreq
        · cases hreq
        · cases hreq
          exact Or.inr ⟨_, _, rfl⟩
    | ok live =>
      have hpinned : ∀ ref ∈ modelHosts.filter fun ref => (reg.heap ref).hostId = live.hostId,
          Buildable cfg (reg.heap ref) := fun r hr => hbuild r (List.mem_filter.mp hr).1
      rcases eligibleCandidates_complete health hpinned
        (Scratch.withBook { st with readings := st.readings + 1 } book) with ⟨candidates, st', heq, -⟩
      simp only [heq] at h
      cases h

/-- A callback returns, if nothing it looks at raises. -/
theorem queuedHostIds_total {w : Waiter} {st : Scratch} (hbook : st.book.Consistent)
    (hbuild : ∀ ref ∈ w.modelHosts, Buildable cfg (reg.heap ref)) :
    ∃ hosts, (queuedHostIds cfg reg health w st).1 = .ok hosts := by
  unfold queuedHostIds
  generalize hfound : currentCandidates cfg reg health w.token w.modelHosts st = found
  rcases found with ⟨result, st'⟩
  cases result with
  | ok candidates => exact ⟨_, rfl⟩
  | error e =>
    -- a lease that is over leaves the request without hosts
    rcases currentCandidates_error hbook hbuild hfound with rfl | ⟨hostId, holder, rfl⟩
    · exact ⟨_, rfl⟩
    · exact ⟨_, rfl⟩

/-- What the lease rules allow at every reading from `a` on, they allow in the later states. -/
theorem LeaseAllows.later {a b : Scratch} {token : Option String} {n : Nat}
    (h : ∀ k, a.readings ≤ k → k < n → LeaseAllows a.book token hostId (cfg.leaseClock k))
    (hbook : a.book.Consistent) (hlater : Later cfg a b) (hn : b.readings < n) :
    LeaseAllows b.book token hostId (cfg.leaseClock b.readings) := by
  have hnow := h b.readings hlater.readings hn
  cases token with
  | none =>
    rintro ⟨lease, hlease, hlive⟩
    exact hnow ⟨lease, (hlater.drops hbook).ofHost hlease, hlive⟩
  | some token =>
    rcases hnow with ⟨lease, hlease, hlive, hid⟩
    refine ⟨lease, (hlater.drops hbook).tokenKept hlease ?_, hlive, hid⟩
    -- the lease has been live at every reading so far
    rintro ⟨k, hk, hk', hdead⟩
    rcases h k hk (hk'.trans hn) with ⟨lease', hlease', hlive', -⟩
    rw [hlease] at hlease'
    cases hlease'
    rw [hdead] at hlive'
    cases hlive'

/-! ## The poll -/

theorem route_admitted (core : Core) (req : Request) (candidates : List RoutingCandidate)
    (failoverInPlay : Bool) :
    (route requestId core req candidates failoverInPlay).2.admitted = true := by
  unfold route openStream releaseThen
  simp only
  split
  · rfl
  · split
    · split
      · rfl
      · split
        · split
          · rfl
          · split <;> rfl
        · rfl
    · rfl

theorem route_scratch (core : Core) (req : Request) (candidates : List RoutingCandidate)
    (failoverInPlay : Bool) :
    (route requestId core req candidates failoverInPlay).1.scratch = core.scratch := by
  have hfail := fun core : Core =>
    (sameShared_recordFailover requestId core failoverInPlay true).scratch
  unfold route openStream releaseThen
  simp only
  split
  · rfl
  · split
    · split
      · rfl
      · split
        · split
          · exact hfail _
          · split <;> exact hfail _
        · rfl
    · rfl

theorem sleepAgain_scratch (core : Core) (req : Request) (w : Wait) :
    (sleepAgain cfg requestId core req w).1.scratch = core.scratch := by
  unfold sleepAgain
  split
  · rfl
  · exact (sameShared_recordFailover requestId core w.failoverInPlay false).scratch

/-- `dispatch` returns the request if its turn has come and a host is free for it. -/
theorem dispatchFor_takes {core : Core} {available : List String} {queue : SchedulingQueue Waiter}
    {fin : Scratch} {res : Except Exn (Option String)} {pre post : List String} {session : String}
    {entry : QueueEntry} {rest : List QueueEntry}
    (h : dispatchFor cfg requestId core available = (res, queue, fin))
    (hfree : hasFreeCapacity (some available)
      (core.registry.hostRefs.map core.registry.heap) = .ok true)
    (hkeys : core.queue.tiers.keys = [0])
    (hrotation : core.queue.rotations.get? 0 = some (pre ++ session :: post))
    (hhead : (core.queue.tier 0).get? session = some (entry :: rest))
    (hid : entry.requestId = requestId)
    (hpre : ∀ x ∈ pre, ∃ head xs w, (core.queue.tier 0).get? x = some (head :: xs) ∧
      core.queue.eligibility.get? head.requestId = some w ∧ ∀ st, Later cfg core.scratch st →
        ∃ hosts, (queuedHostIds cfg core.registry core.health w st).1 = .ok hosts ∧
          (st.readings < fin.readings → hasFreeCapacity (some hosts)
            (core.registry.hostRefs.map core.registry.heap) = .ok false))
    (hown : ∃ w, core.queue.eligibility.get? requestId = some w ∧ ∀ st, Later cfg core.scratch st →
      ∃ hosts, (queuedHostIds cfg core.registry core.health w st).1 = .ok hosts ∧
        (st.readings < fin.readings → hasFreeCapacity (some hosts)
          (core.registry.hostRefs.map core.registry.heap) = .ok true)) :
    res = .ok (some requestId) := by
  have hsort : ([0] : List Int).insertionSort (· ≤ ·) = [0] := rfl
  unfold dispatchFor SchedulingQueue.dispatch at h
  simp only [hfree, hkeys, hsort, SchedulingQueue.scanTiers, hrotation] at h
  generalize hscan : SchedulingQueue.scanRotation _ _ _ _ _ _ _ _ = scanned at h
  rcases scanned with ⟨verdict, st'⟩
  have hfin : st' = fin := by
    cases verdict with
    | error e =>
      cases h
      rfl
    | ok v =>
      cases v with
      | pass | blocked =>
        cases h
        rfl
      | take =>
        cases h
        rfl
  subst hfin
  -- the readings left after a callback was run in a state
  have hreads : ∀ {w st}, Later cfg (queuedHostIds cfg core.registry core.health w st).2 st' →
      st.readings < st'.readings := by
    intro w st hl
    have hone := (queuedHostIds_later cfg core.registry core.health w st).2
    have hle := hl.readings
    omega
  have htake : verdict = .ok (.take session entry) := by
    refine SchedulingQueue.scanRotation_takes (Later cfg) .refl (fun _ _ _ => .trans)
      (fun w st => (queuedHostIds_later cfg core.registry core.health w st).1) hscan ?_ hhead
      (by simp [hid]) ?_
    · intro x hx
      rcases hpre x hx with ⟨head, xs, w, hqueue, hw, hall⟩
      refine ⟨head, xs, hqueue, ?_⟩
      intro a ha
      rcases hall a ha with ⟨hosts, hok, hblocked⟩
      refine ⟨some hosts, ?_, ?_⟩
      · simp [SchedulingQueue.allowedFor, hw, hok, Except.map]
      · intro hl
        simp only [SchedulingQueue.allowedFor, hw] at hl
        exact hblocked (hreads hl)
    · intro a ha
      rcases hown with ⟨w, hw, hall⟩
      rcases hall a ha with ⟨hosts, hok, hopen⟩
      refine ⟨some hosts, ?_, ?_⟩
      · simp [SchedulingQueue.allowedFor, hid, hw, hok, Except.map]
      · intro hl
        simp only [SchedulingQueue.allowedFor, hid, hw] at hl
        exact hopen (hreads hl)
  subst htake
  cases h
  rw [hid]

/-- What a poll comes to once `dispatch` has been called. -/
theorem poll_dispatched {core : Core} {w : Wait} {candidates : List RoutingCandidate}
    {st fin : Scratch} {res : Except Exn (Option String)} {queue : SchedulingQueue Waiter}
    (hcand : currentCandidates cfg core.registry core.health req.token w.modelHosts core.scratch =
      (.ok candidates, st)) (hne : candidates ≠ [])
    (hdisp : dispatchFor cfg requestId (core.withScratch st)
      (candidates.map (·.backend.backendId)) = (res, queue, fin)) :
    (poll cfg requestId core req w).1.scratch = fin ∧
      (res = .ok (some requestId) → (poll cfg requestId core req w).2.admitted = true) := by
  cases candidates with
  | nil => exact absurd rfl hne
  | cons c cs =>
    unfold poll
    simp only [hcand, hdisp]
    cases res with
    | error e => exact ⟨rfl, by simp⟩
    | ok dispatched =>
      simp only
      split
      · next hown =>
        rw [route_scratch]
        exact ⟨rfl, fun _ => route_admitted _ _ _ _⟩
      · next hother =>
        -- not its turn: it goes on waiting, or gives up
        rw [sleepAgain_scratch]
        refine ⟨rfl, ?_⟩
        intro hok
        exact absurd (Except.ok.inj hok) hother

/-- A poll reads the clock at least once. -/
theorem poll_readings (core : Core) (req : Request) (w : Wait) :
    core.scratch.readings < (poll cfg requestId core req w).1.scratch.readings := by
  have hone := (currentCandidates_later cfg core.registry core.health req.token w.modelHosts
    core.scratch).2
  generalize hcand : currentCandidates cfg core.registry core.health req.token w.modelHosts
    core.scratch = found at hone
  rcases found with ⟨result, st⟩
  have hlt : core.scratch.readings < st.readings := by
    simp only at hone
    omega
  cases result with
  | error e =>
    simp only [poll, hcand]
    exact hlt
  | ok candidates =>
    cases candidates with
    | nil =>
      simp only [poll, hcand, sleepAgain_scratch]
      exact hlt
    | cons c cs =>
      -- the dispatch reads the clock again
      generalize hdisp : dispatchFor cfg requestId (core.withScratch st)
        ((c :: cs).map (·.backend.backendId)) = dispatched
      rcases dispatched with ⟨res, queue, fin⟩
      rw [(poll_dispatched hcand (List.cons_ne_nil c cs) hdisp).1]
      exact lt_of_lt_of_le hlt (dispatchFor_cases req hdisp).1.readings

/-- With integer limits, `_has_free_capacity` does not raise. -/
theorem hasFreeCapacity_heap (hlimits : ∀ ref ∈ reg.hostRefs,
      ∃ limit, (reg.heap ref).capacity.maxConcurrentRequests = some limit)
    (available : Option (List String)) :
    ∃ free, hasFreeCapacity available (reg.hostRefs.map reg.heap) = .ok free := by
  refine hasFreeCapacity_total ?_ available
  intro host hhost
  rcases List.mem_map.mp hhost with ⟨ref, href, rfl⟩
  exact hlimits ref href

/-- It is true of the ids of a registered host with a free slot. -/
theorem hasFreeCapacity_of_lookup (hlimits : ∀ ref ∈ reg.hostRefs,
      ∃ limit, (reg.heap ref).capacity.maxConcurrentRequests = some limit) {ids : List String}
    {ref : Nat} (hcurrent : reg.hosts.get? hostId = some ref) (hfree : (reg.heap ref).Free)
    (hid : hostId ∈ ids) :
    hasFreeCapacity (some ids) (reg.hostRefs.map reg.heap) = .ok true := by
  have hmem : reg.heap ref ∈ reg.hostRefs.map reg.heap :=
    List.mem_map_of_mem ((Dict.mem_values reg.hosts).mpr ⟨hostId, hcurrent⟩)
  rcases hasFreeCapacity_heap hlimits (some ids) with ⟨b, hb⟩
  rw [hb, hasFreeCapacity_of_free hmem hfree (by rw [reg.hostId_eq hcurrent]; exact hid) hb]

theorem RecordsSound.limits (h : RecordsSound cfg s) : ∀ ref ∈ s.core.registry.hostRefs,
    ∃ limit, (s.core.registry.heap ref).capacity.maxConcurrentRequests = some limit := by
  intro ref href
  rcases (h ref (Or.inl href)).1 with ⟨limit, hlimit, -⟩
  exact ⟨limit, hlimit⟩

theorem RecordsSound.modelHosts (h : RecordsSound cfg s) {id : String} {r : Request}
    {hosts : List Nat} (hwaits : WaitsWith s id r hosts) :
    ∀ ref ∈ hosts, Buildable cfg (s.core.registry.heap ref) := by
  rcases hwaits with ⟨hr, hhosts⟩
  intro ref href
  refine h ref (Or.inr ⟨id, r, hr, ?_⟩)
  cases hphase : r.phase <;> rw [hphase] at hhosts <;> cases hhosts
  simpa [Request.captured, hphase] using href

/-- The record a request has captured of a host that can serve it is the current one. -/
theorem Serves.current {w : Wait} (h : Serves cfg s s' req w hostId)
    (hcaptures : CapturesCurrent requestId hostId s)
    (hreq : s.requests.get? requestId = some req) (hw : req.phase = .waiting w) :
    ∃ ref ∈ w.modelHosts, (s.core.registry.heap ref).hostId = hostId ∧
      s.core.registry.hosts.get? hostId = some ref ∧ (s.core.registry.heap ref).Free := by
  rcases h.capable with ⟨ref, href, hid⟩
  have hcaptured : req.captured = w.modelHosts := by simp [Request.captured, hw]
  have hcurrent := hcaptures.current hreq ref (by rwa [hcaptured]) hid
  refine ⟨ref, href, hid, hcurrent, ?_⟩
  rcases h.free with ⟨info, hinfo, hfree⟩
  rcases HostRegistry.lookup_eq_some.mp hinfo with ⟨ref', href', rfl⟩
  rw [hcurrent] at href'
  cases href'
  exact hfree

section

variable (hqueue : QueueInv s) (hbook : s.core.scratch.book.Consistent)
  (hsound : RecordsSound cfg s)
include hqueue hbook hsound

/-- The heads of the queue are those of waiting requests; their callbacks return. -/
theorem head_callback {session : String}
    (hcontains : (s.core.queue.tier 0).contains session = true) :
    ∃ head rest w, (s.core.queue.tier 0).get? session = some (head :: rest) ∧
      s.core.queue.eligibility.get? head.requestId = some w ∧
      ∀ st, Later cfg s.core.scratch st →
        ∃ hosts, (queuedHostIds cfg s.core.registry s.core.health w st).1 = .ok hosts := by
  rcases (Dict.contains_iff _).mp hcontains with ⟨dq, hdq⟩
  cases dq with
  | nil => exact absurd hdq hqueue.wf.nonempty
  | cons head rest =>
    rcases hqueue.entry ⟨_, hdq, List.mem_cons_self⟩ with ⟨r, hosts, hr, -⟩
    refine ⟨head, rest, ⟨r.token, hosts⟩, hdq, (hqueue.waits hr).1, ?_⟩
    intro st hst
    exact queuedHostIds_total (hst.consistent hbook) (hsound.modelHosts hr)

/-- The request's own callback returns the host that can serve it. -/
theorem own_callback {w : Wait} (hreq : s.requests.get? requestId = some req)
    (hw : req.phase = .waiting w) {ref : Nat} (href : ref ∈ w.modelHosts)
    (hid : (s.core.registry.heap ref).hostId = hostId) (hfree : (s.core.registry.heap ref).Free)
    (hhealthy : s.core.health.isHealthy hostId = true) {n : Nat}
    (hallowed : ∀ k, s.core.scratch.readings ≤ k → k < n →
      LeaseAllows s.core.scratch.book req.token hostId (cfg.leaseClock k)) :
    ∃ own, s.core.queue.eligibility.get? requestId = some own ∧
      ∀ st, Later cfg s.core.scratch st →
        ∃ hosts, (queuedHostIds cfg s.core.registry s.core.health own st).1 = .ok hosts ∧
          (st.readings < n → hostId ∈ hosts) := by
  have hwaits : WaitsWith s requestId req w.modelHosts := ⟨hreq, by rw [hw]; rfl⟩
  refine ⟨_, (hqueue.waits hwaits).1, ?_⟩
  intro st hst
  have htotal : ∃ ids, (queuedHostIds cfg s.core.registry s.core.health
      ⟨req.token, w.modelHosts⟩ st).1 = .ok ids :=
    queuedHostIds_total (hst.consistent hbook) (hsound.modelHosts hwaits)
  rcases htotal with ⟨ids, hids⟩
  refine ⟨ids, hids, ?_⟩
  -- while the host is allowed, the callback names it
  intro hlt
  rcases currentCandidates_complete (hst.consistent hbook) (hsound.modelHosts hwaits) href hfree
    (by rw [hid]; exact hhealthy) (by rw [hid]; exact LeaseAllows.later hallowed hbook hst hlt)
    with ⟨found, st', hfound, c, hc, hcid, -⟩
  simp only [queuedHostIds, hfound] at hids
  cases hids
  exact List.mem_map.mpr ⟨c, hc, hcid.trans hid⟩

end

/-- In every run in which a host is not registered, patched or deregistered while a request
holds a record of it: a poll that finds the host able to serve the request, with the request
first in line and no record in the way that raises, admits the request. -/
theorem waiting_admitted {w : Wait} {now : Int} (hstart : Started s₀)
    (hrun : Run (Guarded (KeepsCaptured requestId hostId) (Fires (step cfg))) s₀ es s)
    (hreq : s.requests.get? requestId = some req) (hw : req.phase = .waiting w)
    (hstep : step cfg s (.resume requestId .slept now) = some s')
    (hserves : Serves cfg s s' req w hostId) (hfirst : FirstInLine cfg s s' requestId req)
    (hsound : RecordsSound cfg s) : LetThrough s' requestId := by
  rcases capturesCurrent_run hstart hrun with ⟨hcaptures, hbook⟩
  have hqueue := queueInv_run hstart (hrun.mono fun _ _ _ h => h.2)
  rcases hserves.current hcaptures hreq hw with ⟨ref, href, hid, hcurrent, hfree⟩
  rw [step_slept hreq hw] at hstep
  cases hstep
  -- the first look at the candidates finds the host
  rcases currentCandidates_complete hbook (hsound.modelHosts ⟨hreq, by rw [hw]; rfl⟩) href hfree
    (by rw [hid]; exact hserves.healthy)
    (by rw [hid]; exact hserves.allowed _ le_rfl (poll_readings s.core req w))
    with ⟨candidates, st, hcand, c, hc, hcid, -⟩
  have hlater : Later cfg s.core.scratch st := by
    have hfound := (currentCandidates_later cfg s.core.registry s.core.health req.token w.modelHosts
      s.core.scratch).1
    rwa [hcand] at hfound
  generalize hdisp : dispatchFor cfg requestId (s.core.withScratch st)
    (candidates.map (·.backend.backendId)) = dispatched
  rcases dispatched with ⟨res, queue, fin⟩
  rcases poll_dispatched hcand (List.ne_nil_of_mem hc) hdisp with ⟨hscratch, hadmits⟩
  refine ⟨_, Dict.get?_set_self _, hadmits ?_⟩
  rcases hfirst.head with ⟨entry, rest, hhead, hown⟩
  rcases hfirst.before with ⟨pre, post, hrotation, hnone⟩
  have hcontains := (Dict.contains_iff _).mpr ⟨_, hhead⟩
  have hallowed := hserves.allowed
  simp only [hscratch] at hnone hallowed
  -- and so does `dispatch`, which no entry before this one stops
  refine dispatchFor_takes hdisp ?_ ?_ hrotation hhead hown ?_ ?_
  · refine hasFreeCapacity_of_lookup hsound.limits hcurrent hfree ?_
    exact List.mem_map.mpr ⟨c, hc, hcid.trans hid⟩
  · exact Dict.keys_eq_singleton (SchedulingQueue.contains_tiers_of_holds hcontains) hqueue.tierZero
  · intro x hx
    have hx' : (s.core.queue.tier 0).contains x = true := by
      rcases hqueue.wf.rotation_of_contains hcontains with ⟨r, hr, -, hmem⟩
      rw [hrotation] at hr
      cases hr
      exact (hmem x).mp (List.mem_append_left _ hx)
    rcases head_callback hqueue hbook hsound hx' with ⟨head, xs, own, hdq, hcallback, hreturns⟩
    refine ⟨head, xs, own, hdq, hcallback, ?_⟩
    intro a ha
    rcases hreturns a (hlater.trans ha) with ⟨ids, hids⟩
    refine ⟨ids, hids, ?_⟩
    intro hlt
    rcases hasFreeCapacity_heap hsound.limits (some ids) with ⟨b, hb⟩
    cases b with
    | false => exact hb
    | true =>
      exact absurd ⟨own, ids, hcallback, hids, hb⟩
        (hnone x hx head xs hdq a (hlater.trans ha) hlt)
  · rcases own_callback hqueue hbook hsound hreq hw href hid hfree hserves.healthy hallowed
      with ⟨own, hcallback, hreturns⟩
    refine ⟨own, hcallback, ?_⟩
    intro a ha
    rcases hreturns a (hlater.trans ha) with ⟨ids, hids, hmem⟩
    refine ⟨ids, hids, ?_⟩
    intro hlt
    exact hasFreeCapacity_of_lookup hsound.limits hcurrent hfree (hmem hlt)

/-! ## The last in the queue, with the node free again -/

/-- Request `b` is alone in the queue, for `gpu-1`, which is registered, healthy, not leased
and has a free slot. -/
def Lab.waitsAlone (s : State) : Bool :=
  let reg := s.core.registry
  (s.requests.get? "b").any (fun req => req.token = none && req.body.sessionId = none &&
    req.phase.waitingHosts = some [0]) &&
  (reg.heap 0).hostId = "gpu-1" && (reg.lookup "gpu-1").any (fun info => info.Free) &&
  s.core.health.isHealthy "gpu-1" && s.core.scratch.book.byHost.entries = [] &&
  s.core.queue.rotations.get? 0 = some ["b"] &&
  (s.core.queue.tier 0).get? "b" = some [⟨"b", "b", 0, 0⟩] &&
  (reg.hostRefs ++ s.requests.values.flatMap (·.captured)).all fun ref =>
    (reg.heap ref).capacity = ⟨some 1⟩

theorem Lab.able_of_waitsAlone (h : Lab.waitsAlone s = true) :
    ∃ req w, s.requests.get? "b" = some req ∧ req.phase = .waiting w ∧
      (∀ s', Serves Lab.config s s' req w "gpu-1") ∧
      (∀ s', FirstInLine Lab.config s s' "b" req) ∧ RecordsSound Lab.config s := by
  simp only [Lab.waitsAlone, Bool.and_eq_true, decide_eq_true_eq, Option.any_eq_true_iff_get] at h
  rcases h with ⟨⟨⟨⟨⟨⟨⟨⟨hsome, ⟨htoken, hsession⟩, hhosts⟩, hid⟩, hlookup, hfree⟩, hhealthy⟩,
    hbook⟩, hrotation⟩, htier⟩, hcapacity⟩
  have hreq := Option.some_get hsome
  generalize (s.requests.get? "b").get hsome = req at htoken hsession hhosts hreq
  have hqueued : req.queueSessionId "b" = "b" := by simp [Request.queueSessionId, hsession]
  have hwaiting : ∃ w, req.phase = .waiting w ∧ w.modelHosts = [0] := by
    cases hphase : req.phase <;> simp_all [Phase.waitingHosts]
  rcases hwaiting with ⟨w, hphase, hmodel⟩
  refine ⟨req, w, hreq.symm, hphase, ?_, ?_, ?_⟩
  · intro s'
    refine ⟨⟨0, by simp [hmodel], hid⟩, ⟨_, (Option.some_get hlookup).symm, hfree⟩,
      hhealthy, ?_⟩
    intro k _ _
    rw [htoken]
    rintro ⟨lease, hlease, -⟩
    rw [Dict.get?_eq_some, hbook] at hlease
    cases hlease
  · intro s'
    refine ⟨⟨⟨"b", "b", 0, 0⟩, [], by rw [hqueued]; exact htier, rfl⟩,
      [], [], by rw [hqueued]; exact hrotation, ?_⟩
    intro session hsession
    cases hsession
  · intro ref href
    have hmem : ref ∈ s.core.registry.hostRefs ++ s.requests.values.flatMap (·.captured) := by
      rcases href with href | ⟨id, r, hr, href⟩
      · exact List.mem_append_left _ href
      · refine List.mem_append_right _ (List.mem_flatMap.mpr ⟨r, ?_, href⟩)
        exact (Dict.mem_values s.requests).mpr ⟨id, hr⟩
    have hlimit := of_decide_eq_true (List.all_eq_true.mp hcapacity ref hmem)
    exact ⟨⟨1, by rw [hlimit], fun _ => by decide⟩, true, rfl⟩

/-- When the request before it has been answered, a waiting request is admitted. -/
theorem waiting_admitted_after_answer :
    ∃ s s', Run (Guarded (KeepsCaptured "b" "gpu-1") (Fires (step Lab.config))) Lab.start
        [Lab.register "gpu-1" (some ["m"]) 1, Lab.ask "a", Lab.ask "b", Lab.reply "a"] s ∧
      Lab.waitsAlone s = true ∧ step Lab.config s (Lab.wake "b") = some s' ∧ LetThrough s' "b" := by
  have hshows : (exec (step Lab.config) Lab.start
      [Lab.register "gpu-1" (some ["m"]) 1, Lab.ask "a", Lab.ask "b", Lab.reply "a"]).map
      Lab.waitsAlone = some true := by decide +kernel
  rcases run_of_shows hshows with ⟨s, hrun, halone⟩
  rcases Lab.able_of_waitsAlone halone with ⟨req, w, hreq, hw, hserves, hfirst, hsound⟩
  rcases hrun.of_cons with ⟨t, hfirstStep, hrest⟩
  -- the node is registered before there are any requests
  have hguarded : Run (Guarded (KeepsCaptured "b" "gpu-1") (Fires (step Lab.config))) Lab.start
      ([Lab.register "gpu-1" (some ["m"]) 1] ++ [Lab.ask "a", Lab.ask "b", Lab.reply "a"]) s := by
    refine .append (.single ⟨?_, hfirstStep⟩) (hrest.guard ?_)
    · simp [Lab.register, KeepsCaptured, State.Captures, Lab.start]
    · simp [Lab.ask, Lab.reply, KeepsCaptured]
  have hstep : step Lab.config s (Lab.wake "b") = some _ := step_slept hreq hw
  exact ⟨s, _, hguarded, halone, hstep,
    waiting_admitted Lab.started hguarded hreq hw hstep (hserves _) (hfirst _) hsound⟩

/-- If the node is patched while the request waits, even to the limit it has, the request goes
on seeing the old record, in which the slot is never given back. -/
theorem waiting_not_admitted_after_patch :
    ¬ ∀ (es : List Event) (s s' : State) (requestId hostId : String) (req : Request) (w : Wait)
      (now : Int), Run (Fires (step Lab.config)) Lab.start es s →
      s.requests.get? requestId = some req → req.phase = .waiting w →
      step Lab.config s (.resume requestId .slept now) = some s' →
      Serves Lab.config s s' req w hostId → FirstInLine Lab.config s s' requestId req →
      RecordsSound Lab.config s → LetThrough s' requestId := by
  intro hall
  have hshows : (exec (step Lab.config) Lab.start
      [Lab.register "gpu-1" (some ["m"]) 1, Lab.ask "a", Lab.ask "b", Lab.limitTo "gpu-1" 1,
        Lab.reply "a"]).map
      (fun s => (Lab.waitsAlone s, (step Lab.config s (Lab.wake "b")).map fun s' =>
        (s'.requests.get? "b").map (·.admitted))) = some (true, some (some false)) := by
    decide +kernel
  rcases run_of_shows hshows with ⟨s, hrun, hshown⟩
  rcases Prod.mk.inj hshown with ⟨halone, hafter⟩
  rcases Option.map_eq_some_iff.mp hafter with ⟨s', hstep, hadmitted⟩
  rcases Lab.able_of_waitsAlone halone with ⟨req, w, hreq, hw, hserves, hfirst, hsound⟩
  rcases hall _ s s' "b" "gpu-1" req w 0 hrun hreq hw hstep (hserves s') (hfirst s') hsound
    with ⟨req', hreq', hyes⟩
  simp [hreq', hyes] at hadmitted

end LlmHomeLab
