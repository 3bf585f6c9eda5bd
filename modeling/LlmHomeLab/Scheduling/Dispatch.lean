import LlmHomeLab.Scheduling.Fairness

/-! # Which entry `dispatch` takes

The first admissible head, over the tiers in order of priority and the sessions in the order of
their rotation. `firstAdmissible` says so without the scan, `dispatch_eq` connects the two, and
`dispatch_selects_iff` says when a call ends as the definition has it.
-/

namespace LlmHomeLab

/-- A host that may be used has a free slot. -/
def freeAmong (allowed : Option (List String)) (hosts : List HostInfo) : Bool :=
  hosts.any fun host => decide host.Free && allowed.all (host.hostId ∈ ·)

/-- A host without a limit stands behind one with a free slot that may be used, so it is not
looked at. -/
def Comparable (allowed : Option (List String)) (hosts : List HostInfo) : Prop :=
  ∀ pre host post, hosts = pre ++ host :: post → host.capacity.maxConcurrentRequests = none →
    freeAmong allowed pre = true

namespace SchedulingQueue

variable {ε σ : Type}

/-! ## Model -/

/-- The entry at the head of a session's deque. -/
structure Head where
  priority : Int
  sessionId : String
  entry : QueueEntry
deriving DecidableEq, Repr

/-- The heads of a tier, in the order of its rotation. -/
def tierHeads (q : SchedulingQueue ε) (priority : Int) : List Head :=
  (q.rotation priority).filterMap fun sessionId =>
    (q.deque priority sessionId).head?.map (⟨priority, sessionId, ·⟩)

/-- The heads of all sessions, the tier with the lowest number first. -/
def heads (q : SchedulingQueue ε) : List Head :=
  (q.tiers.keys.insertionSort (· ≤ ·)).flatMap q.tierHeads

section

variable (hosts : List HostInfo) (eval : ε → σ → Except Exn (List String) × σ)
  (available : Option (List String)) (q : SchedulingQueue ε)

/-- Asked now, the entry may use a host that has a free slot. -/
def admissible (entry : QueueEntry) (st : σ) : Bool :=
  match (allowedFor eval available q entry st).1 with
  | .ok allowed => freeAmong allowed hosts
  | .error _ => false

/-- The first of the heads that is admissible, when they are asked in turn. -/
def firstAdmissible : List Head → σ → Option Head
  | [], _ => none
  | h :: rest, st =>
    if admissible hosts eval available q h.entry st then some h
    else firstAdmissible rest (allowedFor eval available q h.entry st).2

/-- Asked now, the entry's callback returns, and no limit is missing where its hosts are looked
at. -/
def Tells (entry : QueueEntry) (st : σ) : Prop :=
  ∃ allowed, (allowedFor eval available q entry st).1 = .ok allowed ∧ Comparable allowed hosts

/-- Every head that is asked tells whether it is admissible. -/
def HeadsTell : List Head → σ → Prop
  | [], _ => True
  | h :: rest, st => Tells hosts eval available q h.entry st ∧
    (admissible hosts eval available q h.entry st = false →
      HeadsTell rest (allowedFor eval available q h.entry st).2)

/-- The entry at the head of one deque is gone, and every other deque is as it was. -/
structure Removes (q' : SchedulingQueue ε) (h : Head) : Prop where
  head : (q.deque h.priority h.sessionId).head? = some h.entry
  deque : ∀ p s, q'.deque p s =
    if p = h.priority ∧ s = h.sessionId then (q.deque p s).tail else q.deque p s
  eligibility : q'.eligibility = q.eligibility.pop h.entry.requestId

/-- `dispatch` takes the first admissible head, if it is in its scope. -/
structure Selects (requestId : Option String) (st : σ) : Prop where
  full : freeAmong available hosts = false →
    dispatch (hasFreeCapacity · hosts) eval available requestId q st = (.ok none, q, st)
  taken : freeAmong available hosts = true → ∀ h,
    firstAdmissible hosts eval available q q.heads st = some h →
    requestId.all (· = h.entry.requestId) = true → ∃ q' st',
      dispatch (hasFreeCapacity · hosts) eval available requestId q st =
        (.ok (some h.entry.requestId), q', st') ∧ q.Removes q' h
  refused : freeAmong available hosts = true → ∀ h,
    firstAdmissible hosts eval available q q.heads st = some h →
    requestId.all (· = h.entry.requestId) = false → ∃ st',
      dispatch (hasFreeCapacity · hosts) eval available requestId q st = (.ok none, q, st')
  nobody : freeAmong available hosts = true →
    firstAdmissible hosts eval available q q.heads st = none → ∃ st',
      dispatch (hasFreeCapacity · hosts) eval available requestId q st = (.ok none, q, st')

end

/-! ## The gate -/

theorem freeAmong_cons (allowed : Option (List String)) (host : HostInfo) (rest : List HostInfo) :
    freeAmong allowed (host :: rest) =
      (decide host.Free && allowed.all (host.hostId ∈ ·) || freeAmong allowed rest) := rfl

theorem comparable_cons {allowed : Option (List String)} {host : HostInfo} {rest : List HostInfo} :
    Comparable allowed (host :: rest) ↔ host.capacity.maxConcurrentRequests ≠ none ∧
      ((decide host.Free && allowed.all (host.hostId ∈ ·)) = false → Comparable allowed rest) := by
  constructor
  · intro h
    refine ⟨fun hnone => ?_, fun hhost pre other post hsplit hnone => ?_⟩
    · cases h [] host rest rfl hnone
    · have hfree := h (host :: pre) other post (by rw [hsplit]; rfl) hnone
      rwa [freeAmong_cons, hhost, Bool.false_or] at hfree
  · rintro ⟨hlimit, hrest⟩ pre other post hsplit hnone
    cases pre with
    | nil =>
      cases hsplit
      exact absurd hnone hlimit
    | cons first pre =>
      cases hsplit
      rw [freeAmong_cons]
      cases hhost : decide host.Free && allowed.all (host.hostId ∈ ·) with
      | true => rfl
      | false => exact hrest hhost pre other post rfl hnone

/-- `_has_free_capacity` returns unless it compares with a limit that is missing. -/
theorem hasFreeCapacity_iff {allowed : Option (List String)} {hosts : List HostInfo} {b : Bool} :
    hasFreeCapacity allowed hosts = .ok b ↔
      Comparable allowed hosts ∧ freeAmong allowed hosts = b := by
  induction hosts with
  | nil =>
    have hnil : Comparable allowed [] := fun pre host post hsplit => by simp at hsplit
    simp [hasFreeCapacity, hnil, freeAmong]
  | cons host rest ih =>
    rw [comparable_cons, freeAmong_cons]
    cases hlimit : host.capacity.maxConcurrentRequests with
    | none => simp [hasFreeCapacity, HostInfo.belowLimit, hlimit, bind, Except.bind]
    | some limit =>
      have hbelow : host.belowLimit = .ok (decide host.Free) := by
        simp [HostInfo.belowLimit, HostInfo.Free, hlimit]
      rw [hasFreeCapacity, hbelow]
      cases hhost : decide host.Free && allowed.all (host.hostId ∈ ·) with
      | true => simp [bind, Except.bind, hhost, pure, Except.pure]
      | false => simp [bind, Except.bind, hhost, ih]

theorem hasFreeCapacity_error {allowed : Option (List String)} {hosts : List HostInfo}
    (h : ¬ Comparable allowed hosts) : ∃ e, hasFreeCapacity allowed hosts = .error e := by
  cases hf : hasFreeCapacity allowed hosts with
  | error e => exact ⟨e, rfl⟩
  | ok b => exact absurd (hasFreeCapacity_iff.mp hf).1 h

/-! ## The scan -/

section

variable {free : Option (List String) → Except PyError Bool}
  {eval : ε → σ → Except Exn (List String) × σ} {available : Option (List String)}
  {scope : Option String} {q : SchedulingQueue ε}

/-- The scan of `dispatch` over a plain list of heads. -/
def scanHeads (free : Option (List String) → Except PyError Bool)
    (eval : ε → σ → Except Exn (List String) × σ) (available : Option (List String))
    (q : SchedulingQueue ε) : List Head → σ → Except Exn (Option Head) × σ
  | [], st => (.ok none, st)
  | h :: rest, st =>
    match allowedFor eval available q h.entry st with
    | (.error e, st) => (.error e, st)
    | (.ok allowed, st) =>
      match free allowed with
      | .error e => (.error (.builtin e), st)
      | .ok false => scanHeads free eval available q rest st
      | .ok true => (.ok (some h), st)

/-- What the scan of a tier makes of a head that was found. -/
def Head.verdict (scope : Option String) : Option Head → Verdict
  | none => .pass
  | some h => if scope.all (· = h.entry.requestId) then .take h.sessionId h.entry else .blocked

/-- The heads of sessions of one tier, with their deques. -/
def sessionHeads (priority : Int) (tier : Dict String (List QueueEntry)) (rotation : List String) :
    List Head :=
  rotation.filterMap fun sessionId =>
    ((tier.get? sessionId).getD []).head?.map (⟨priority, sessionId, ·⟩)

theorem scanRotation_eq (priority : Int) {tier : Dict String (List QueueEntry)}
    {rotation : List String}
    (hheads : ∀ s ∈ rotation, ∃ x xs, tier.get? s = some (x :: xs)) (st : σ) :
    scanRotation free eval available scope q tier rotation st =
      ((scanHeads free eval available q (sessionHeads priority tier rotation) st).1.map
          (Head.verdict scope),
        (scanHeads free eval available q (sessionHeads priority tier rotation) st).2) := by
  induction rotation generalizing st with
  | nil => rfl
  | cons s rest ih =>
    obtain ⟨x, xs, hx⟩ := hheads s List.mem_cons_self
    have hcons : sessionHeads priority tier (s :: rest) =
        ⟨priority, s, x⟩ :: sessionHeads priority tier rest := by
      simp [sessionHeads, hx]
    rw [hcons, scanHeads, scanRotation, hx]
    simp only
    generalize allowedFor eval available q x st = a
    obtain ⟨_ | allowed, st₁⟩ := a
    · rfl
    · simp only
      cases free allowed with
      | error e => rfl
      | ok b =>
        cases b with
        | false => exact ih (fun s hs => hheads s (List.mem_cons_of_mem _ hs)) st₁
        | true =>
          simp only [Except.map, Head.verdict]
          split <;> rfl

theorem scanHeads_append (l₁ l₂ : List Head) (st : σ) :
    scanHeads free eval available q (l₁ ++ l₂) st =
      match scanHeads free eval available q l₁ st with
      | (.ok none, st) => scanHeads free eval available q l₂ st
      | res => res := by
  induction l₁ generalizing st with
  | nil => rfl
  | cons h rest ih =>
    rw [List.cons_append, scanHeads, scanHeads]
    generalize allowedFor eval available q h.entry st = a
    obtain ⟨_ | allowed, st₁⟩ := a
    · rfl
    · simp only
      cases free allowed with
      | error e => rfl
      | ok b =>
        cases b with
        | false => exact ih st₁
        | true => rfl

theorem mem_of_scanHeads {l : List Head} {st st' : σ} {h : Head}
    (hscan : scanHeads free eval available q l st = (.ok (some h), st')) : h ∈ l := by
  induction l generalizing st with
  | nil => cases hscan
  | cons g rest ih =>
    unfold scanHeads at hscan
    split at hscan
    · cases hscan
    · split at hscan
      · cases hscan
      · exact List.mem_cons_of_mem _ (ih hscan)
      · cases hscan
        exact List.mem_cons_self

theorem mem_tierHeads {p : Int} {h : Head} (hmem : h ∈ q.tierHeads p) :
    h.priority = p ∧ (q.deque p h.sessionId).head? = some h.entry := by
  obtain ⟨s, -, hs⟩ := List.mem_filterMap.mp hmem
  obtain ⟨entry, hentry, rfl⟩ := Option.map_eq_some_iff.mp hs
  exact ⟨rfl, hentry⟩

/-- What `dispatch` makes of the head that the scan found: where it stands, if it is in the
scope. -/
def Head.scoped (scope : Option String) (h : Head) : Option (Int × String × QueueEntry) :=
  if scope.all (· = h.entry.requestId) then some (h.priority, h.sessionId, h.entry) else none

/-- The scan over the tiers is one over all heads. -/
theorem scanTiers_eq (hwf : q.WF) {priorities : List Int}
    (hp : ∀ p ∈ priorities, q.tiers.contains p = true) (st : σ) :
    scanTiers free eval available scope q priorities st =
      ((scanHeads free eval available q (priorities.flatMap q.tierHeads) st).1.map
          (·.bind (Head.scoped scope)),
        (scanHeads free eval available q (priorities.flatMap q.tierHeads) st).2) := by
  induction priorities generalizing st with
  | nil => rfl
  | cons p rest ih =>
    obtain ⟨r, hr, -, hmem⟩ := hwf.rotation (hp p List.mem_cons_self)
    have hheads : ∀ s ∈ r, ∃ x xs, (q.tier p).get? s = some (x :: xs) := by
      intro s hs
      obtain ⟨dq, hdq⟩ := (Dict.contains_iff _).mp ((hmem s).mp hs)
      cases dq with
      | nil => exact absurd hdq hwf.nonempty
      | cons x xs => exact ⟨x, xs, hdq⟩
    have htier : q.tierHeads p = sessionHeads p (q.tier p) r := by
      rw [tierHeads, rotation, hr]
      rfl
    have hrest := ih fun p' hp' => hp p' (List.mem_cons_of_mem _ hp')
    rw [List.flatMap_cons, scanHeads_append, scanTiers, hr]
    simp only
    rw [scanRotation_eq p hheads, ← htier]
    cases hscan : scanHeads free eval available q (q.tierHeads p) st with
    | mk result st₁ =>
      cases result with
      | error e => rfl
      | ok found =>
        cases found with
        | none => exact hrest st₁
        | some h =>
          obtain ⟨hpriority, -⟩ := mem_tierHeads (mem_of_scanHeads hscan)
          cases hid : scope.all (· = h.entry.requestId) <;>
            simp [Except.map, Head.verdict, Head.scoped, hpriority, hid]

/-- `dispatch`, without the nested loops. -/
theorem dispatch_eq (hwf : q.WF) (st : σ) :
    dispatch free eval available scope q st =
      match free available with
      | .error e => (.error (.builtin e), q, st)
      | .ok false => (.ok none, q, st)
      | .ok true =>
        match scanHeads free eval available q q.heads st with
        | (.error e, st) => (.error e, q, st)
        | (.ok none, st) => (.ok none, q, st)
        | (.ok (some h), st) =>
          if scope.all (· = h.entry.requestId) then
            (.ok (some h.entry.requestId), q.popHead h.priority h.sessionId h.entry, st)
          else (.ok none, q, st) := by
  have hkeys : ∀ p ∈ q.tiers.keys.insertionSort (· ≤ ·), q.tiers.contains p = true := by
    intro p hp
    rw [List.mem_insertionSort] at hp
    exact (Dict.mem_keys_iff_contains _).mp hp
  rw [dispatch, scanTiers_eq hwf hkeys, ← heads]
  cases free available with
  | error e => rfl
  | ok b =>
    cases b with
    | false => rfl
    | true =>
      simp only
      generalize scanHeads free eval available q q.heads st = res
      obtain ⟨_ | _ | h, st₁⟩ := res
      · rfl
      · rfl
      · cases hid : scope.all (· = h.entry.requestId) <;> simp [Except.map, Head.scoped, hid]

end

section

variable {hosts : List HostInfo} {eval : ε → σ → Except Exn (List String) × σ}
  {available : Option (List String)} {scope : Option String} {q : SchedulingQueue ε}

/-- The heads tell if each of them does in every state the callbacks keep to. -/
theorem headsTell_of_tells (Inv : σ → Prop) {l : List Head} {st : σ}
    (hkeeps : ∀ e st, Inv st → Inv (eval e st).2)
    (htells : ∀ h ∈ l, ∀ st, Inv st → Tells hosts eval available q h.entry st) (hst : Inv st) :
    HeadsTell hosts eval available q l st := by
  induction l generalizing st with
  | nil => trivial
  | cons h rest ih =>
    refine ⟨htells h List.mem_cons_self st hst, fun _ => ?_⟩
    apply ih fun x hx => htells x (List.mem_cons_of_mem h hx)
    unfold allowedFor
    split
    · exact hkeeps _ st hst
    · exact hst

/-- The scan finds the first admissible head. -/
theorem scanHeads_of_tell {l : List Head} {st : σ} (h : HeadsTell hosts eval available q l st) :
    (scanHeads (hasFreeCapacity · hosts) eval available q l st).1 =
      .ok (firstAdmissible hosts eval available q l st) := by
  induction l generalizing st with
  | nil => rfl
  | cons g rest ih =>
    obtain ⟨⟨allowed, hallowed, hcomparable⟩, hrest⟩ := h
    have hfree := hasFreeCapacity_iff.mpr ⟨hcomparable, rfl⟩
    rw [scanHeads, firstAdmissible]
    unfold admissible at hrest ⊢
    generalize allowedFor eval available q g.entry st = a at hallowed hrest ⊢
    obtain ⟨result, st₁⟩ := a
    cases hallowed
    simp only [hfree] at hrest ⊢
    cases hadm : freeAmong allowed hosts with
    | true => rfl
    | false => exact ih (hrest hadm)

/-- It raises where a head does not tell. -/
theorem scanHeads_of_not_tell {l : List Head} {st : σ}
    (h : ¬ HeadsTell hosts eval available q l st) :
    ∃ e, (scanHeads (hasFreeCapacity · hosts) eval available q l st).1 = .error e := by
  induction l generalizing st with
  | nil => exact absurd trivial h
  | cons g rest ih =>
    rw [HeadsTell, not_and] at h
    rw [scanHeads]
    unfold Tells admissible at h
    generalize allowedFor eval available q g.entry st = a at h ⊢
    obtain ⟨result, st₁⟩ := a
    cases result with
    | error e => exact ⟨e, rfl⟩
    | ok allowed =>
      simp only at h ⊢
      by_cases hcomparable : Comparable allowed hosts
      · rw [hasFreeCapacity_iff.mpr ⟨hcomparable, rfl⟩]
        have hnot := h ⟨allowed, rfl, hcomparable⟩
        cases hadm : freeAmong allowed hosts with
        | true => exact absurd (fun hfalse => by rw [hadm] at hfalse; cases hfalse) hnot
        | false => exact ih fun hrest => hnot fun _ => hrest
      · obtain ⟨e, he⟩ := hasFreeCapacity_error hcomparable
        rw [he]
        exact ⟨_, rfl⟩

/-- A head stands at the front of its deque. -/
theorem head_of_mem_heads {h : Head} (hmem : h ∈ q.heads) :
    ∃ rest, (q.tier h.priority).get? h.sessionId = some (h.entry :: rest) := by
  obtain ⟨p, -, hp⟩ := List.mem_flatMap.mp hmem
  obtain ⟨rfl, hhead⟩ := mem_tierHeads hp
  unfold deque at hhead
  cases hget : (q.tier h.priority).get? h.sessionId with
  | none => simp [hget] at hhead
  | some dq =>
    rw [hget, Option.getD_some] at hhead
    obtain ⟨rest, rfl⟩ := List.head?_eq_some_iff.mp hhead
    exact ⟨rest, rfl⟩

theorem mem_of_firstAdmissible {l : List Head} {st : σ} {h : Head}
    (hfirst : firstAdmissible hosts eval available q l st = some h) : h ∈ l := by
  induction l generalizing st with
  | nil => cases hfirst
  | cons g rest ih =>
    unfold firstAdmissible at hfirst
    split at hfirst
    · cases hfirst
      exact List.mem_cons_self
    · exact List.mem_cons_of_mem _ (ih hfirst)

theorem removes_popHead {h : Head} (hmem : h ∈ q.heads) :
    q.Removes (q.popHead h.priority h.sessionId h.entry) h := by
  obtain ⟨rest, hrest⟩ := head_of_mem_heads hmem
  have hdeque := deque_of_get? hrest
  refine ⟨by rw [hdeque]; rfl, fun p s => ?_, rfl⟩
  rw [deque_popHead hrest]
  split
  · next hps =>
    obtain ⟨rfl, rfl⟩ := hps
    rw [hdeque]
    rfl
  · rfl

variable (scope) in
/-- Where nothing keeps it from telling, `dispatch` is the definition. -/
theorem dispatch_of_tell (hwf : q.WF) {st : σ} (hcomparable : Comparable available hosts)
    (htell : freeAmong available hosts = true → HeadsTell hosts eval available q q.heads st) :
    Selects hosts eval available q scope st := by
  have hgate := hasFreeCapacity_iff.mpr ⟨hcomparable, rfl⟩
  have hscan : freeAmong available hosts = true →
      scanHeads (hasFreeCapacity · hosts) eval available q q.heads st =
        (.ok (firstAdmissible hosts eval available q q.heads st),
          (scanHeads (hasFreeCapacity · hosts) eval available q q.heads st).2) :=
    fun hfree => Prod.ext (scanHeads_of_tell (htell hfree)) rfl
  refine ⟨fun hfull => ?_, fun hfree h hfirst hid => ?_, fun hfree h hfirst hid => ?_,
    fun hfree hfirst => ?_⟩
  · rw [dispatch_eq hwf, hgate, hfull]
  · rw [dispatch_eq hwf, hgate, hfree, hscan hfree, hfirst]
    simp only [hid, if_true]
    exact ⟨_, _, rfl, removes_popHead (mem_of_firstAdmissible hfirst)⟩
  · rw [dispatch_eq hwf, hgate, hfree, hscan hfree, hfirst]
    simp only [hid, Bool.false_eq_true, if_false]
    exact ⟨_, rfl⟩
  · rw [dispatch_eq hwf, hgate, hfree, hscan hfree, hfirst]
    exact ⟨_, rfl⟩

/-- By the definition a call always returns. -/
theorem Selects.returns {st : σ} (h : Selects hosts eval available q scope st) :
    ∃ r, (dispatch (hasFreeCapacity · hosts) eval available scope q st).1 = .ok r := by
  cases hfree : freeAmong available hosts with
  | false => exact ⟨none, by rw [h.full hfree]⟩
  | true =>
    cases hfirst : firstAdmissible hosts eval available q q.heads st with
    | none =>
      obtain ⟨st', hd⟩ := h.nobody hfree hfirst
      exact ⟨none, by rw [hd]⟩
    | some head =>
      cases hid : scope.all (· = head.entry.requestId) with
      | false =>
        obtain ⟨st', hd⟩ := h.refused hfree head hfirst hid
        exact ⟨none, by rw [hd]⟩
      | true =>
        obtain ⟨q', st', hd, -⟩ := h.taken hfree head hfirst hid
        exact ⟨_, by rw [hd]⟩

/-- A call that returns has met no missing limit and no callback that raises. -/
theorem tell_of_returns (hwf : q.WF) {st : σ} {r : Option String}
    (h : (dispatch (hasFreeCapacity · hosts) eval available scope q st).1 = .ok r) :
    Comparable available hosts ∧
      (freeAmong available hosts = true → HeadsTell hosts eval available q q.heads st) := by
  rw [dispatch_eq hwf] at h
  by_cases hcomparable : Comparable available hosts
  · refine ⟨hcomparable, fun hfree => ?_⟩
    by_contra hnot
    obtain ⟨e, he⟩ := scanHeads_of_not_tell hnot
    have hscan : scanHeads (hasFreeCapacity · hosts) eval available q q.heads st =
      (.error e, (scanHeads (hasFreeCapacity · hosts) eval available q q.heads st).2) :=
      Prod.ext he rfl
    rw [hasFreeCapacity_iff.mpr ⟨hcomparable, rfl⟩, hfree, hscan] at h
    cases h
  · obtain ⟨e, he⟩ := hasFreeCapacity_error hcomparable
    rw [he] at h
    cases h

end

/-! ## The order of a session -/

section

variable {eval : ε → σ → Except Exn (List String) × σ} {q q' : SchedulingQueue ε}

/-- The entry a call takes out of a session's deque. -/
def takenFrom (q q' : SchedulingQueue ε) (priority : Int) (sessionId : String) :
    Call ε σ → Option QueueEntry
  | .dispatch .. =>
    if q'.deque priority sessionId = q.deque priority sessionId then none
    else (q.deque priority sessionId).head?
  | _ => none

/-- A call, and the entries dispatched so far from one session of a tier. -/
def Logged (eval : ε → σ → Except Exn (List String) × σ) (priority : Int) (sessionId : String)
    (a : SchedulingQueue ε × List QueueEntry) (c : Call ε σ)
    (b : SchedulingQueue ε × List QueueEntry) : Prop :=
  Calls eval a.1 c b.1 ∧ b.2 = a.2 ++ (takenFrom a.1 b.1 priority sessionId c).toList

/-- The entry a call puts into one session of a tier. -/
def Call.enqueued (priority : Int) (sessionId : String) : Call ε σ → Option QueueEntry
  | .enqueue entry _ =>
    if entry.priority = priority ∧ entry.sessionId = sessionId then some entry else none
  | _ => none

/-- What is taken from a session is what the call returned. -/
theorem dispatches_of_takenFrom {c : Call ε σ} {p : Int} {s : String} {e : QueueEntry}
    (hcall : Calls eval q c q') (h : takenFrom q q' p s c = some e) : c.Dispatches e.requestId := by
  cases c with
  | enqueue => cases h
  | cancel => cases h
  | dispatch hosts available scope st result =>
    obtain ⟨st', hd⟩ := hcall
    simp only [takenFrom] at h
    split at h
    · cases h
    · next hne =>
      obtain ⟨-, rfl⟩ | ⟨priority, sessionId, entry, rest, hget, -, rfl, rfl⟩ := dispatch_cases hd
      · exact absurd rfl hne
      · rw [deque_popHead hget] at hne
        by_cases hps : p = priority ∧ s = sessionId
        · obtain ⟨rfl, rfl⟩ := hps
          rw [deque_of_get? hget] at h
          cases h
          exact ⟨_, _, _, _, rfl⟩
        · rw [if_neg hps] at hne
          exact absurd rfl hne

/-- What was taken from a session and what it still holds are in the order of the calls. -/
theorem fifo_step {p : Int} {s : String} {es : List (Call ε σ)} {c : Call ε σ}
    {log log' : List QueueEntry} (h : Logged eval p s (q, log) c (q', log'))
    (hlog : (log ++ q.deque p s).Sublist (es.filterMap (Call.enqueued p s))) :
    (log' ++ q'.deque p s).Sublist ((es ++ [c]).filterMap (Call.enqueued p s)) := by
  obtain ⟨hcall, hlog'⟩ := h
  simp only at hcall hlog'
  subst hlog'
  rw [List.filterMap_append]
  cases c with
  | enqueue entry eligible =>
    obtain rfl := hcall
    rw [deque_enqueue]
    by_cases hps : entry.priority = p ∧ entry.sessionId = s
    · have hps' : p = entry.priority ∧ s = entry.sessionId := ⟨hps.1.symm, hps.2.symm⟩
      simpa [takenFrom, Call.enqueued, hps, if_pos hps'] using hlog.append (.refl [entry])
    · have hps' : ¬ (p = entry.priority ∧ s = entry.sessionId) := fun h => hps ⟨h.1.symm, h.2.symm⟩
      simpa [takenFrom, Call.enqueued, hps, if_neg hps'] using hlog
  | cancel requestId sessionId priority =>
    obtain rfl := hcall
    have hdeque : ((q.cancel requestId sessionId priority).deque p s).Sublist (q.deque p s) := by
      rw [deque_cancel]
      split
      · exact List.filter_sublist
      · exact .refl _
    simpa [takenFrom, Call.enqueued, List.filterMap_cons] using (hdeque.append_left log).trans hlog
  | dispatch hosts available scope st result =>
    obtain ⟨st', hd⟩ := hcall
    obtain ⟨-, rfl⟩ | ⟨priority, sessionId, entry, rest, hget, -, -, rfl⟩ := dispatch_cases hd
    · simpa [takenFrom, Call.enqueued, List.filterMap_cons] using hlog
    · have hpop := deque_popHead hget p s
      by_cases hps : p = priority ∧ s = sessionId
      · -- the head moves to the end of the log
        obtain ⟨rfl, rfl⟩ := hps
        rw [if_pos ⟨rfl, rfl⟩] at hpop
        have hold := deque_of_get? hget
        have hne : rest ≠ entry :: rest := (List.cons_ne_self entry rest).symm
        rw [hold] at hlog
        simpa [takenFrom, Call.enqueued, List.filterMap_cons, hpop, hold, hne] using hlog
      · rw [if_neg hps] at hpop
        simpa [takenFrom, Call.enqueued, List.filterMap_cons, hpop] using hlog

theorem fifo_run {p : Int} {s : String} {es : List (Call ε σ)}
    {a : SchedulingQueue ε × List QueueEntry} (hrun : Run (Logged eval p s) ({}, []) es a) :
    (a.2 ++ a.1.deque p s).Sublist (es.filterMap (Call.enqueued p s)) := by
  induction hrun with
  | nil => exact .refl _
  | snoc _ hstep ih => exact fifo_step hstep ih

theorem wf_run {es : List (Call ε σ)} (hrun : Run (Calls eval) {} es q) : q.WF :=
  hrun.invariant WF wf_empty fun _ _ _ hcall hwf => wf_call hwf hcall

/-- In every queue that calls lead to, `dispatch` takes the first admissible head, exactly when no
limit is missing where it is compared and no callback raises that is asked; and the entries of a
session are dispatched in the order in which they were enqueued. -/
theorem dispatch_selects_iff {es : List (Call ε σ)} (hrun : Run (Calls eval) {} es q) :
    (∀ hosts available scope st, Selects hosts eval available q scope st ↔
      Comparable available hosts ∧
        (freeAmong available hosts = true → HeadsTell hosts eval available q q.heads st)) ∧
    ∀ p s log, Run (Logged eval p s) ({}, []) es (q, log) →
      log.Sublist (es.filterMap (Call.enqueued p s)) := by
  have hwf := wf_run hrun
  refine ⟨fun hosts available scope st => ⟨fun h => ?_, fun h => ?_⟩, fun p s log hlogged => ?_⟩
  · obtain ⟨r, hr⟩ := h.returns
    exact tell_of_returns hwf hr
  · exact dispatch_of_tell scope hwf h.1 h.2
  · exact (List.sublist_append_left log _).trans (fifo_run hlogged)

end

namespace Example

/-- A node whose limit was set to null. -/
def unlimited : HostInfo := { node with hostId := "spare", capacity := ⟨none⟩ }

end Example

open Example in
/-- A waiting request is taken by a call on a registry whose limits are all there. -/
theorem dispatch_selects_waiting :
    ∃ q, Run (Calls nodeOnly) {} [waits first] q ∧ Selects [node] nodeOnly none q none () := by
  have hrun : ∃ q, Run (Calls nodeOnly) {} [waits first] q ∧ q.heads = [⟨0, "chat", first⟩] ∧
      (allowedFor nodeOnly none q first ()).1 = .ok (some ["node"]) :=
    ⟨_, .single rfl, by decide +kernel, rfl⟩
  obtain ⟨q, hq, hheads, hallowed⟩ := hrun
  refine ⟨q, hq, ((dispatch_selects_iff hq).1 [node] none none ()).mpr
    ⟨(hasFreeCapacity_iff.mp rfl).1, fun _ => ?_⟩⟩
  rw [hheads]
  refine ⟨⟨_, hallowed, (hasFreeCapacity_iff.mp rfl).1⟩, fun _ => trivial⟩

open Example in
/-- Where a limit is null a call raises, though the request could be served by another node. -/
theorem null_limit_raises :
    ∃ q, Run (Calls nodeOnly) {} [waits first] q ∧
      ¬ Selects [unlimited, node] nodeOnly none q none () := by
  refine ⟨_, .single rfl, fun h => ?_⟩
  obtain ⟨r, hr⟩ := h.returns
  have herror : hasFreeCapacity none [unlimited, node] = .error .typeError := rfl
  simp [dispatch, herror] at hr

end SchedulingQueue

end LlmHomeLab
