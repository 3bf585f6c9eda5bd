import LlmHomeLab.Scheduling.Dispatch

/-! # Work conservation

`dispatch` asks the heads of the sessions only. `work_conserving_iff` says for which queues this
leaves no host idle that a waiting request could use, and no request waiting without an admissible
one before it. The callbacks' answers are those at the time of the call.
-/

namespace LlmHomeLab

namespace SchedulingQueue

variable {ε σ : Type}

/-! ## Model -/

/-- Callbacks whose answers do not change while `dispatch` asks them. -/
def told (answer : ε → Except Exn (List String)) : ε → Unit → Except Exn (List String) × Unit :=
  fun callback _ => (answer callback, ())

section

variable (answer : ε → Except Exn (List String)) (hosts : List HostInfo) (q : SchedulingQueue ε)

/-- The entry's own callback returns this set, and a host of it has a free slot. -/
def CanRun (entry : QueueEntry) (set : List String) : Prop :=
  ∃ callback, q.eligibility.get? entry.requestId = some callback ∧
    answer callback = .ok set ∧ freeAmong (some set) hosts = true

/-- The entry stands before the one that has these entries in front of it in its deque: in a
tier with a lower number, in a session that is earlier in the rotation, or among them. -/
def StandsBefore (priority : Int) (sessionId : String) (front : List QueueEntry)
    (entry : QueueEntry) : Prop :=
  (∃ p s, p < priority ∧ entry ∈ q.deque p s) ∨
  (∃ s l r, q.rotation priority = l ++ sessionId :: r ∧ s ∈ l ∧ entry ∈ q.deque priority s) ∨
  entry ∈ front

/-- A request that could run is not left waiting without a reason. -/
structure WorkConserving : Prop where
  unscoped : (∃ entry set, q.Queued entry ∧ q.CanRun answer hosts entry set) →
    ∃ id, (dispatch (hasFreeCapacity · hosts) (told answer) none none q ()).1 = .ok (some id)
  asked : ∀ p s front entry back set, q.deque p s = front ++ entry :: back →
    q.CanRun answer hosts entry set →
    (dispatch (hasFreeCapacity · hosts) (told answer) (some set) (some entry.requestId) q ()).1 =
      .ok none →
    ∃ other, q.StandsBefore p s front other ∧
      admissible hosts (told answer) (some set) q other () = true

/-- No head that is asked meets a missing limit or a callback that raises, nor does the gate. -/
def Clear (available : Option (List String)) : Prop :=
  Comparable available hosts ∧ HeadsTell hosts (told answer) available q q.heads ()

/-- Wherever a request could run, a head could, and the heads can be asked. -/
def SomeHeadCanRun : Prop :=
  (∃ entry set, q.Queued entry ∧ q.CanRun answer hosts entry set) →
    q.Clear answer hosts none ∧
      ∃ h ∈ q.heads, admissible hosts (told answer) none q h.entry () = true

/-- A request that could run is at the head of its deque or behind an admissible entry; else a
head that is asked cannot be, or another entry of the same id is the first that is admissible. -/
def NoneHeldBack : Prop :=
  ∀ p s front entry back set, q.deque p s = front ++ entry :: back →
    q.CanRun answer hosts entry set →
    front = [] ∨
    (∃ other, q.StandsBefore p s front other ∧
      admissible hosts (told answer) (some set) q other () = true) ∨
    ¬ q.Clear answer hosts (some set) ∨
    ∃ h, firstAdmissible hosts (told answer) (some set) q q.heads () = some h ∧
      h.entry.requestId = entry.requestId

end

/-! ## The order of the heads -/

section

variable {answer : ε → Except Exn (List String)} {hosts : List HostInfo} {q : SchedulingQueue ε}
  {available : Option (List String)}

/-- With answers that do not change, the first admissible head is found as in a list. -/
theorem firstAdmissible_told (l : List Head) :
    firstAdmissible hosts (told answer) available q l () =
      l.find? fun h => admissible hosts (told answer) available q h.entry () := by
  induction l with
  | nil => rfl
  | cons h rest ih =>
    rw [firstAdmissible, List.find?_cons, ih]
    cases admissible hosts (told answer) available q h.entry () <;> rfl

/-- A head is asked before another: its tier is lower, or its session earlier. -/
def HeadBefore (q : SchedulingQueue ε) (h g : Head) : Prop :=
  h.priority < g.priority ∨ (h.priority = g.priority ∧
    ∃ l r, q.rotation g.priority = l ++ g.sessionId :: r ∧ h.sessionId ∈ l)

/-- In a list the elements stand before those behind them. -/
theorem pairwise_before {α : Type} (l : List α) :
    l.Pairwise fun a b => ∃ l₁ l₂, l = l₁ ++ b :: l₂ ∧ a ∈ l₁ := by
  induction l with
  | nil => exact .nil
  | cons a rest ih =>
    refine .cons (fun b hb => ?_) (ih.imp ?_)
    · obtain ⟨l₁, l₂, rfl⟩ := List.append_of_mem hb
      exact ⟨a :: l₁, l₂, rfl, List.mem_cons_self⟩
    · rintro b c ⟨l₁, l₂, rfl, hb⟩
      exact ⟨a :: l₁, l₂, rfl, List.mem_cons_of_mem _ hb⟩

theorem pairwise_heads (q : SchedulingQueue ε) : q.heads.Pairwise q.HeadBefore := by
  have hsorted : (q.tiers.keys.insertionSort (· ≤ ·)).Pairwise (· < ·) := by
    have hnodup : (q.tiers.keys.insertionSort (· ≤ ·)).Nodup :=
      (List.perm_insertionSort _ _).nodup_iff.mpr q.tiers.nodup
    exact ((List.pairwise_insertionSort (· ≤ ·) _).and hnodup).imp fun h => lt_of_le_of_ne h.1 h.2
  rw [heads, List.pairwise_flatMap]
  refine ⟨fun p _ => ?_, hsorted.imp fun {p p'} hlt h hh g hg => Or.inl ?_⟩
  · rw [tierHeads, List.pairwise_filterMap]
    refine (pairwise_before (q.rotation p)).imp ?_
    rintro s s' ⟨l, r, hrotation, hs⟩ h hh g hg
    obtain ⟨e, -, rfl⟩ := Option.map_eq_some_iff.mp hh
    obtain ⟨e', -, rfl⟩ := Option.map_eq_some_iff.mp hg
    exact Or.inr ⟨rfl, l, r, hrotation, hs⟩
  · rw [(mem_tierHeads hh).1, (mem_tierHeads hg).1]
    exact hlt

/-- The first admissible head is at or before any other admissible one. -/
theorem first_before {h g : Head} (hg : g ∈ q.heads)
    (hadm : admissible hosts (told answer) available q g.entry () = true)
    (hfirst : firstAdmissible hosts (told answer) available q q.heads () = some h) :
    h = g ∨ q.HeadBefore h g := by
  rw [firstAdmissible_told, List.find?_eq_some_iff_append] at hfirst
  obtain ⟨-, l, r, hsplit, hbefore⟩ := hfirst
  have hpairs := pairwise_heads q
  rw [hsplit] at hg hpairs
  rcases List.mem_append.mp hg with hg | hg
  · have := hbefore g hg
    simp [hadm] at this
  · rcases List.mem_cons.mp hg with rfl | hg
    · exact Or.inl rfl
    · exact Or.inr ((List.pairwise_cons.mp (List.pairwise_append.mp hpairs).2.1).1 g hg)

/-- An admissible head means that one is found. -/
theorem exists_first {g : Head} (hg : g ∈ q.heads)
    (hadm : admissible hosts (told answer) available q g.entry () = true) :
    ∃ h, firstAdmissible hosts (told answer) available q q.heads () = some h := by
  rw [firstAdmissible_told]
  exact Option.isSome_iff_exists.mp (List.find?_isSome.mpr ⟨g, hg, hadm⟩)

theorem mem_heads_of_deque (hwf : q.WF) {p : Int} {s : String} {entry : QueueEntry}
    {back : List QueueEntry} (h : q.deque p s = entry :: back) : ⟨p, s, entry⟩ ∈ q.heads := by
  have hne : q.deque p s ≠ [] := by simp [h]
  have hrotation := (mem_rotation_iff hwf).mpr hne
  have htier : p ∈ q.tiers.keys := by
    rw [Dict.mem_keys_iff_contains]
    by_contra hnot
    have hnone := hwf.noRotation (by simpa using hnot)
    simp [rotation, hnone] at hrotation
  refine List.mem_flatMap.mpr ⟨p, (List.mem_insertionSort _).mpr htier, ?_⟩
  exact List.mem_filterMap.mpr ⟨s, hrotation, by simp [h]⟩

theorem CanRun.free {entry : QueueEntry} {set : List String}
    (h : q.CanRun answer hosts entry set) : freeAmong (some set) hosts = true := by
  obtain ⟨_, _, _, hfree⟩ := h
  exact hfree

variable (available) in
theorem admissible_of_canRun {entry : QueueEntry} {set : List String}
    (h : q.CanRun answer hosts entry set) :
    admissible hosts (told answer) available q entry () = true := by
  obtain ⟨callback, hget, hanswer, hfree⟩ := h
  simp [admissible, allowedFor, hget, told, hanswer, Except.map, hfree]

/-- A host that may be used is one of all. -/
theorem freeAmong_none {allowed : Option (List String)} (h : freeAmong allowed hosts = true) :
    freeAmong none hosts = true := by
  simp only [freeAmong, List.any_eq_true, Bool.and_eq_true] at h ⊢
  obtain ⟨host, hmem, hfree, -⟩ := h
  exact ⟨host, hmem, hfree, rfl⟩

/-! ## The two halves -/

/-- A dispatch that may be called and finds a head in its scope returns it. -/
theorem dispatch_first (hwf : q.WF) {scope : Option String} (hclear : q.Clear answer hosts available)
    (hfree : freeAmong available hosts = true) {h : Head}
    (hfirst : firstAdmissible hosts (told answer) available q q.heads () = some h) :
    (dispatch (hasFreeCapacity · hosts) (told answer) available scope q ()).1 =
      .ok (if scope.all (· = h.entry.requestId) then some h.entry.requestId else none) := by
  have hselects := dispatch_of_tell scope hwf hclear.1 fun _ => hclear.2
  cases hid : scope.all (· = h.entry.requestId) with
  | true =>
    obtain ⟨q', st', hd, -⟩ := hselects.taken hfree h hfirst hid
    rw [hd]
    rfl
  | false =>
    obtain ⟨st', hd⟩ := hselects.refused hfree h hfirst hid
    rw [hd]
    rfl

theorem unscoped_iff (hwf : q.WF) :
    ((∃ entry set, q.Queued entry ∧ q.CanRun answer hosts entry set) → ∃ id,
      (dispatch (hasFreeCapacity · hosts) (told answer) none none q ()).1 = .ok (some id)) ↔
      q.SomeHeadCanRun answer hosts := by
  refine forall_congr' fun ⟨entry, set, _, hcan⟩ => ?_
  have hfree : freeAmong none hosts = true := freeAmong_none hcan.free
  constructor
  · rintro ⟨id, hid⟩
    obtain ⟨hcomparable, htell⟩ := tell_of_returns hwf hid
    refine ⟨⟨hcomparable, htell hfree⟩, ?_⟩
    -- a head was found
    by_contra hnone
    push Not at hnone
    have hfirst : firstAdmissible hosts (told answer) none q q.heads () = none := by
      rw [firstAdmissible_told, List.find?_eq_none]
      exact hnone
    obtain ⟨st', hd⟩ := (dispatch_of_tell none hwf hcomparable htell).nobody hfree hfirst
    rw [hd] at hid
    cases hid
  · rintro ⟨hclear, g, hg, hadm⟩
    obtain ⟨h, hfirst⟩ := exists_first hg hadm
    exact ⟨_, dispatch_first hwf hclear hfree hfirst⟩

/-- A head that is asked before that of a session stands before every entry of the session. -/
theorem standsBefore_of_headBefore {h : Head} (hmem : h ∈ q.heads) {p : Int} {s : String}
    {entry : QueueEntry} {front : List QueueEntry} (hbefore : q.HeadBefore h ⟨p, s, entry⟩) :
    q.StandsBefore p s front h.entry := by
  obtain ⟨rest, hrest⟩ := head_of_mem_heads hmem
  have hin : h.entry ∈ q.deque h.priority h.sessionId := by
    rw [deque_of_get? hrest]
    exact List.mem_cons_self
  rcases hbefore with hlt | ⟨hpriority, l, r, hrotation, hs⟩
  · exact Or.inl ⟨_, _, hlt, hin⟩
  · simp only at hpriority hrotation
    exact Or.inr (Or.inl ⟨h.sessionId, l, r, hrotation, hs, hpriority ▸ hin⟩)

theorem asked_iff (hwf : q.WF) :
    (∀ p s front entry back set, q.deque p s = front ++ entry :: back →
      q.CanRun answer hosts entry set →
      (dispatch (hasFreeCapacity · hosts) (told answer) (some set) (some entry.requestId) q ()).1 =
        .ok none →
      ∃ other, q.StandsBefore p s front other ∧
        admissible hosts (told answer) (some set) q other () = true) ↔
      q.NoneHeldBack answer hosts := by
  constructor
  · intro h p s front entry back set hdeque hcan
    by_contra hnot
    push Not at hnot
    obtain ⟨-, hnobody, hclear, hother⟩ := hnot
    have hnone : (dispatch (hasFreeCapacity · hosts) (told answer) (some set)
        (some entry.requestId) q ()).1 = .ok none := by
      cases hfirst : firstAdmissible hosts (told answer) (some set) q q.heads () with
      | none =>
        obtain ⟨st', hd⟩ := (dispatch_of_tell (some entry.requestId) hwf hclear.1
          fun _ => hclear.2).nobody hcan.free hfirst
        rw [hd]
      | some head =>
        rw [dispatch_first hwf hclear hcan.free hfirst, if_neg]
        simpa using Ne.symm (hother head hfirst)
    obtain ⟨other, hstands, hadm⟩ := h p s front entry back set hdeque hcan hnone
    exact absurd hadm (by simpa using hnobody other hstands)
  · intro h p s front entry back set hdeque hcan hnone
    obtain ⟨hcomparable, htell⟩ := tell_of_returns hwf hnone
    have hclear : q.Clear answer hosts (some set) := ⟨hcomparable, htell hcan.free⟩
    -- a head of the request's own id would have been returned
    have hid : ∀ head, firstAdmissible hosts (told answer) (some set) q q.heads () = some head →
        head.entry.requestId ≠ entry.requestId := by
      intro head hfirst heq
      rw [dispatch_first hwf hclear hcan.free hfirst, if_pos (by simp [heq])] at hnone
      cases hnone
    rcases h p s front entry back set hdeque hcan with rfl | hblocked | hraises | ⟨head, hfirst, heq⟩
    · -- the request's own head is admissible, so the first admissible one stands before it
      have hmem := mem_heads_of_deque hwf hdeque
      have hadm := admissible_of_canRun (some set) hcan
      obtain ⟨head, hfirst⟩ := exists_first hmem hadm
      rcases first_before hmem hadm hfirst with rfl | hbefore
      · exact absurd rfl (hid _ hfirst)
      · refine ⟨head.entry,
          standsBefore_of_headBefore (mem_of_firstAdmissible hfirst) hbefore, ?_⟩
        rw [firstAdmissible_told] at hfirst
        have hadmissible := List.find?_some hfirst
        exact hadmissible
    · exact hblocked
    · exact absurd hclear hraises
    · exact absurd heq (hid head hfirst)

end

/-! ## Work conservation -/

/-- A queue that calls lead to is work conserving, exactly when a head can run wherever a request
can, and every request that can run is at the head of its deque or behind one that can. -/
theorem work_conserving_iff {eval : ε → σ → Except Exn (List String) × σ} {es : List (Call ε σ)}
    {q : SchedulingQueue ε} (hrun : Run (Calls eval) {} es q)
    (answer : ε → Except Exn (List String)) (hosts : List HostInfo) :
    WorkConserving answer hosts q ↔
      q.SomeHeadCanRun answer hosts ∧ q.NoneHeldBack answer hosts := by
  have hwf := wf_run hrun
  constructor
  · rintro ⟨hunscoped, hasked⟩
    exact ⟨(unscoped_iff hwf).mp hunscoped, (asked_iff hwf).mp hasked⟩
  · rintro ⟨hsome, hnone⟩
    exact ⟨(unscoped_iff hwf).mpr hsome, (asked_iff hwf).mpr hnone⟩

namespace Example

/-- A callback is the set it returns. -/
def listed (set : List String) : Except Exn (List String) := .ok set

/-- A request for a model whose only host is gone, and one of the same session for another. -/
def blockedSession : List (Call (List String) Unit) :=
  [] ++ [.enqueue first (some ["gone"])] ++ [.enqueue second (some ["node"])]

end Example

open Example in
/-- A queue whose only request can run serves it. -/
theorem work_conserving_single :
    ∃ q, Run (Calls (told listed)) {} [.enqueue second (some ["node"])] q ∧
      WorkConserving listed [node] q := by
  have hrun : ∃ q, Run (Calls (told listed)) {} [.enqueue second (some ["node"])] q ∧
      q.heads = [⟨0, "chat", second⟩] ∧ q.eligibility.get? "b" = some ["node"] ∧
      ∀ p s, (q.deque p s).length ≤ 1 := by
    refine ⟨_, .single rfl, by decide +kernel, by decide +kernel, fun p s => ?_⟩
    rw [deque_enqueue]
    split <;> simp [deque, tier]
  obtain ⟨q, hq, hheads, hget, hlength⟩ := hrun
  have hcan : q.CanRun listed [node] second ["node"] := ⟨["node"], hget, rfl, rfl⟩
  have hadm : admissible [node] (told listed) none q second () = true :=
    admissible_of_canRun none hcan
  refine ⟨q, hq, (work_conserving_iff hq listed [node]).mpr ⟨fun _ => ⟨⟨?_, ?_⟩, ?_⟩, ?_⟩⟩
  · exact (hasFreeCapacity_iff.mp rfl).1
  · rw [hheads]
    exact ⟨⟨some ["node"], by simp [allowedFor, second, hget, told, listed, Except.map],
      (hasFreeCapacity_iff.mp rfl).1⟩, fun _ => trivial⟩
  · exact ⟨⟨0, "chat", second⟩, by rw [hheads]; exact List.mem_cons_self, hadm⟩
  · intro p s front entry back set hdeque _
    have hle := hlength p s
    rw [hdeque, List.length_append, List.length_cons] at hle
    exact Or.inl (List.eq_nil_of_length_eq_zero (by omega))

open Example in
/-- A request is held back by one of its own session that cannot run anywhere. -/
theorem held_back_by_own_session :
    ∃ q, Run (Calls (told listed)) {} blockedSession q ∧ ¬ WorkConserving listed [node] q := by
  have hrun : ∃ q, Run (Calls (told listed)) {} blockedSession q ∧
      q.Holds 0 "chat" second ∧ q.eligibility.get? "b" = some ["node"] ∧
      (dispatch (hasFreeCapacity · [node]) (told listed) none none q ()).1 = .ok none :=
    ⟨_, .snoc (.snoc .nil rfl) rfl, ⟨[first, second], by decide +kernel, by decide⟩,
      by decide +kernel, by decide +kernel⟩
  obtain ⟨q, hq, hholds, hget, hnone⟩ := hrun
  refine ⟨q, hq, fun h => ?_⟩
  obtain ⟨id, hid⟩ := h.unscoped ⟨second, ["node"], ⟨0, "chat", hholds⟩, ["node"], hget, rfl, rfl⟩
  rw [hnone] at hid
  cases hid

end SchedulingQueue

end LlmHomeLab
