import LlmHomeLab.Lib.Dict
import LlmHomeLab.Lib.Runs

/-! # Tables numbered per group, and concurrent `MAX + 1` inserts

A table whose primary key is a pair (group, sequence number). A new row of a group takes
the highest number stored for the group plus one. `nextSeq` is that number, and the second
half of the file lets any number of callers read it and insert, in any interleaving.
-/

universe u v w

/-- Rows under the primary key (group, seq). -/
abbrev SeqTable (κ : Type u) (ρ : Type v) := Dict (κ × Int) ρ

namespace SeqTable

variable {κ : Type u} {ρ : Type v} [DecidableEq κ]

/-! ## The next number of a group -/

def seqs (t : SeqTable κ ρ) (k : κ) : List Int :=
  (t.keys.filter fun key => key.1 = k).map Prod.snd

/-- `SELECT MAX(seq) ... WHERE group = k`. -/
def maxSeq (t : SeqTable κ ρ) (k : κ) : Option Int := (seqs t k).max?

/-- `(row[0] or 0) + 1`. -/
def nextSeq (t : SeqTable κ ρ) (k : κ) : Int := (maxSeq t k).getD 0 + 1

/-- `INSERT` under a primary key: refused when the key is taken. -/
def insertRow (t : SeqTable κ ρ) (k : κ) (q : Int) (r : ρ) : Option (SeqTable κ ρ) :=
  if t.contains (k, q) then none else some (t.set (k, q) r)

theorem mem_seqs {t : SeqTable κ ρ} {k : κ} {q : Int} :
    q ∈ seqs t k ↔ ∃ r, t.get? (k, q) = some r := by
  rw [← Dict.mem_keys]
  simp [seqs]

theorem maxSeq_eq_none {t : SeqTable κ ρ} {k : κ} :
    maxSeq t k = none ↔ ∀ q, t.get? (k, q) = none := by
  rw [maxSeq, List.max?_eq_none_iff, List.eq_nil_iff_forall_not_mem]
  refine forall_congr' fun q => ?_
  rw [mem_seqs]
  cases t.get? (k, q) <;> simp

theorem maxSeq_eq_some {t : SeqTable κ ρ} {k : κ} {m : Int} :
    maxSeq t k = some m ↔
      (∃ r, t.get? (k, m) = some r) ∧ ∀ q r, t.get? (k, q) = some r → q ≤ m := by
  rw [maxSeq, List.max?_eq_some_iff, mem_seqs]
  refine and_congr_right fun _ => ?_
  simp only [mem_seqs, forall_exists_index]

/-- Every number in use is below the next one. -/
theorem lt_nextSeq {t : SeqTable κ ρ} {k : κ} {q : Int} {r : ρ}
    (h : t.get? (k, q) = some r) : q < nextSeq t k := by
  cases hm : maxSeq t k with
  | none => simp [maxSeq_eq_none.mp hm q] at h
  | some m =>
    have hle : q ≤ m := (maxSeq_eq_some.mp hm).2 q r h
    simp only [nextSeq, hm, Option.getD_some]
    omega

theorem get?_nextSeq (t : SeqTable κ ρ) (k : κ) : t.get? (k, nextSeq t k) = none := by
  cases h : t.get? (k, nextSeq t k) with
  | none => rfl
  | some r => exact absurd (lt_nextSeq h) (lt_irrefl _)

theorem nextSeq_of_empty {t : SeqTable κ ρ} {k : κ} (h : maxSeq t k = none) :
    nextSeq t k = 1 := by
  simp [nextSeq, h]

theorem nextSeq_of_max {t : SeqTable κ ρ} {k : κ} {m : Int} (h : maxSeq t k = some m) :
    nextSeq t k = m + 1 := by
  simp [nextSeq, h]

theorem insertRow_eq_some {t t' : SeqTable κ ρ} {k : κ} {q : Int} {r : ρ} :
    insertRow t k q r = some t' ↔ t.get? (k, q) = none ∧ t' = t.set (k, q) r := by
  unfold insertRow
  by_cases hc : t.contains (k, q) = true
  · obtain ⟨x, hx⟩ := t.contains_iff.mp hc
    simp [hc, hx]
  · have hn : t.get? (k, q) = none := t.contains_eq_false.mp (by simpa using hc)
    simp [hc, hn, eq_comm]

theorem insertRow_eq_none {t : SeqTable κ ρ} {k : κ} {q : Int} {r : ρ} :
    insertRow t k q r = none ↔ ∃ r', t.get? (k, q) = some r' := by
  unfold insertRow
  rw [← Dict.contains_iff]
  by_cases hc : t.contains (k, q) = true <;> simp [hc]

/-- The next number is free, so inserting under it goes through. -/
theorem insertRow_nextSeq (t : SeqTable κ ρ) (k : κ) (r : ρ) :
    insertRow t k (nextSeq t k) r = some (t.set (k, nextSeq t k) r) :=
  insertRow_eq_some.mpr ⟨get?_nextSeq t k, rfl⟩

/-! ## A group as a log

A group whose rows were all inserted under the next number is the list of these rows, numbered
from 1. -/

/-- The rows of a group with their numbers. -/
def group (t : SeqTable κ ρ) (k : κ) : List (Int × ρ) :=
  (t.entries.filter fun row => row.1.1 = k).map fun row => (row.1.2, row.2)

/-- The rows of a log, numbered from 1. -/
def numbered (log : List ρ) : List (Int × ρ) := log.mapIdx fun i row => ((i : Int) + 1, row)

theorem mem_group {t : SeqTable κ ρ} {k : κ} {q : Int} {r : ρ} :
    (q, r) ∈ group t k ↔ t.get? (k, q) = some r := by
  rw [group, Dict.get?_eq_some]
  simp only [List.mem_map, List.mem_filter, decide_eq_true_eq, Prod.mk.injEq, Prod.exists]
  constructor
  · rintro ⟨k', q', r', ⟨hmem, rfl⟩, rfl, rfl⟩
    exact hmem
  · intro hmem
    exact ⟨k, q, r, ⟨hmem, rfl⟩, rfl, rfl⟩

omit [DecidableEq κ] in
theorem mem_numbered {log : List ρ} {q : Int} {r : ρ} :
    (q, r) ∈ numbered log ↔ ∃ i : Nat, q = i + 1 ∧ log[i]? = some r := by
  simp only [numbered, List.mem_mapIdx, Prod.mk.injEq]
  constructor
  · rintro ⟨i, hi, hq, hr⟩
    exact ⟨i, hq.symm, by rw [List.getElem?_eq_getElem hi, hr]⟩
  · rintro ⟨i, hq, hr⟩
    obtain ⟨hi, hr⟩ := List.getElem?_eq_some_iff.mp hr
    exact ⟨i, hi, hq.symm, hr⟩

omit [DecidableEq κ] in
theorem numbered_snoc (log : List ρ) (r : ρ) :
    numbered (log ++ [r]) = numbered log ++ [((log.length : Int) + 1, r)] :=
  List.mapIdx_concat

omit [DecidableEq κ] in
/-- The numbers go up by one from 1. -/
theorem map_fst_numbered (log : List ρ) :
    (numbered log).map Prod.fst = (List.range log.length).map fun i : Nat => (i : Int) + 1 := by
  induction log using List.reverseRecOn with
  | nil => rfl
  | append_singleton log r ih =>
    rw [numbered_snoc, List.map_append, ih, List.length_append, List.length_singleton,
      List.range_succ, List.map_append]
    rfl

omit [DecidableEq κ] in
theorem pairwise_numbered (log : List ρ) : (numbered log).Pairwise fun a b => a.1 < b.1 := by
  have hfst : ((numbered log).map Prod.fst).Pairwise (· < ·) := by
    rw [map_fst_numbered, List.pairwise_map]
    refine List.pairwise_lt_range.imp fun {i j} hij => ?_
    omega
  exact List.pairwise_map.mp hfst

/-- A log is numbered on at its end. -/
theorem nextSeq_of_group {t : SeqTable κ ρ} {k : κ} {log : List ρ}
    (h : group t k = numbered log) : nextSeq t k = log.length + 1 := by
  have hget : ∀ q r, t.get? (k, q) = some r ↔ ∃ i : Nat, q = i + 1 ∧ log[i]? = some r := by
    intro q r
    rw [← mem_group, h, mem_numbered]
  rcases List.eq_nil_or_concat log with rfl | ⟨init, last, rfl⟩
  · refine nextSeq_of_empty (maxSeq_eq_none.mpr fun q => ?_)
    rw [Option.eq_none_iff_forall_ne_some]
    intro r hr
    obtain ⟨i, -, hi⟩ := (hget q r).mp hr
    simp at hi
  · rw [List.concat_eq_append] at hget ⊢
    refine nextSeq_of_max (maxSeq_eq_some.mpr ⟨⟨last, (hget _ _).mpr ⟨init.length, ?_, ?_⟩⟩, ?_⟩)
    · simp
    · simp
    · intro q r hr
      obtain ⟨i, rfl, hi⟩ := (hget q r).mp hr
      obtain ⟨hlt, -⟩ := List.getElem?_eq_some_iff.mp hi
      simp only [List.length_append, List.length_singleton] at hlt ⊢
      omega

theorem group_set_next {t : SeqTable κ ρ} {k : κ} {log : List ρ} (h : group t k = numbered log)
    (r : ρ) : group (t.set (k, nextSeq t k) r) k = numbered (log ++ [r]) := by
  rw [group, Dict.entries_set_of_get?_eq_none t (get?_nextSeq t k), List.filter_append,
    List.map_append, numbered_snoc, ← h, group, nextSeq_of_group h]
  simp

theorem group_set_of_ne {t : SeqTable κ ρ} {k k' : κ} (h : k' ≠ k) (r : ρ) :
    group (t.set (k, nextSeq t k) r) k' = group t k' := by
  rw [group, Dict.entries_set_of_get?_eq_none t (get?_nextSeq t k), List.filter_append,
    List.map_append, group]
  simp [Ne.symm h]

/-! ## Concurrent callers

Each caller checks that the group is known, reads `nextSeq`, then inserts under the number
it read. The three are separate atomic steps; a schedule is any list of them. -/

/-- Where a caller stands. -/
inductive Pc where
  | ready
  | checked
  | selected (next : Int)
  | stored (seq : Int)
  | rejected
  | failed
deriving DecidableEq, Repr

/-- One atomic step of caller `i`. -/
inductive CallStep (ι : Type w) where
  | check (i : ι)
  | select (i : ι)
  | insert (i : ι)
deriving DecidableEq, Repr

structure Calls (ι : Type w) (κ : Type u) (ρ : Type v) where
  rows : SeqTable κ ρ
  pc : ι → Pc

variable {ι : Type w} [DecidableEq ι]

/-- Move caller `i` to `p`. -/
def Calls.goto (s : Calls ι κ ρ) (i : ι) (p : Pc) : Calls ι κ ρ :=
  { s with pc := Function.update s.pc i p }

/-- All callers write to group `k`; caller `i` writes `payload i`. -/
def callStep (known : Bool) (k : κ) (payload : ι → ρ) (s : Calls ι κ ρ) :
    CallStep ι → Option (Calls ι κ ρ)
  | .check i =>
    if s.pc i = .ready then some (s.goto i (if known then .checked else .rejected)) else none
  | .select i =>
    if s.pc i = .checked then some (s.goto i (.selected (nextSeq s.rows k))) else none
  | .insert i =>
    match s.pc i with
    | .selected q =>
      match insertRow s.rows k q (payload i) with
      | some rows => some { s.goto i (.stored q) with rows := rows }
      | none => some (s.goto i .failed)
    | _ => none

/-- Before any caller has moved. -/
def Calls.start (rows : SeqTable κ ρ) : Calls ι κ ρ := ⟨rows, fun _ => .ready⟩

/-- Every caller has come to an end. -/
def Calls.Complete (s : Calls ι κ ρ) : Prop :=
  ∀ i, s.pc i = .rejected ∨ s.pc i = .failed ∨ ∃ q, s.pc i = .stored q

/-- No caller's insert falls between another caller's read and insert. -/
def NoOverlap (es : List (CallStep ι)) : Prop :=
  ∀ (i j : ι) (a b c d : List (CallStep ι)), j ≠ i →
    es ≠ a ++ .select i :: (b ++ .insert j :: (c ++ .insert i :: d))

/-- Every payload is in the table, under a number that was free before and that no other
caller got, and nothing else was added to the group. -/
structure AllStored (k : κ) (payload : ι → ρ) (rows : SeqTable κ ρ) (s : Calls ι κ ρ) :
    Prop where
  stored : ∀ i, ∃ q, s.pc i = .stored q ∧ rows.get? (k, q) = none ∧
    s.rows.get? (k, q) = some (payload i)
  distinct : ∀ i j q, s.pc i = .stored q → s.pc j = .stored q → i = j
  nothingElse : ∀ q r, s.rows.get? (k, q) = some r →
    rows.get? (k, q) = some r ∨ ∃ i, s.pc i = .stored q

/-- What one step can do. -/
theorem callStep_cases {known : Bool} {k : κ} {payload : ι → ρ} {s t : Calls ι κ ρ}
    {e : CallStep ι} (h : callStep known k payload s e = some t) :
    (∃ i, e = .check i ∧ s.pc i = .ready ∧
      t = s.goto i (if known then .checked else .rejected)) ∨
    (∃ i, e = .select i ∧ s.pc i = .checked ∧ t = s.goto i (.selected (nextSeq s.rows k))) ∨
    (∃ i q, e = .insert i ∧ s.pc i = .selected q ∧ s.rows.get? (k, q) = none ∧
      t = { s.goto i (.stored q) with rows := s.rows.set (k, q) (payload i) }) ∨
    (∃ i q r, e = .insert i ∧ s.pc i = .selected q ∧ s.rows.get? (k, q) = some r ∧
      t = s.goto i .failed) := by
  cases e with
  | check i =>
    left
    simp only [callStep, Option.ite_none_right_eq_some, Option.some.injEq] at h
    exact ⟨i, rfl, h.1, h.2.symm⟩
  | select i =>
    right; left
    simp only [callStep, Option.ite_none_right_eq_some, Option.some.injEq] at h
    exact ⟨i, rfl, h.1, h.2.symm⟩
  | insert i =>
    right; right
    cases hpc : s.pc i with
    | selected q =>
      cases hins : insertRow s.rows k q (payload i) with
      | some rows =>
        left
        obtain ⟨hfree, rfl⟩ := insertRow_eq_some.mp hins
        simp only [callStep, hpc, hins, Option.some.injEq] at h
        exact ⟨i, q, rfl, hpc, hfree, h.symm⟩
      | none =>
        right
        obtain ⟨r, hr⟩ := insertRow_eq_none.mp hins
        simp only [callStep, hpc, hins, Option.some.injEq] at h
        exact ⟨i, q, r, rfl, hpc, hr, h.symm⟩
    | _ => simp [callStep, hpc] at h

omit [DecidableEq κ] in
@[simp] theorem goto_rows (s : Calls ι κ ρ) (i : ι) (p : Pc) : (s.goto i p).rows = s.rows := rfl

omit [DecidableEq κ] in
@[simp] theorem goto_pc_self (s : Calls ι κ ρ) (i : ι) (p : Pc) : (s.goto i p).pc i = p := by
  simp [Calls.goto]

omit [DecidableEq κ] in
theorem goto_pc_of_ne (s : Calls ι κ ρ) {i j : ι} (p : Pc) (h : j ≠ i) :
    (s.goto i p).pc j = s.pc j := by
  simp [Calls.goto, h]

/-! ### One caller along a run -/

section OneCaller

variable {known : Bool} {k : κ} {payload : ι → ρ} {s t u : Calls ι κ ρ} {es : List (CallStep ι)}
  {e : CallStep ι} {i : ι} {q : Int}

/-- The caller has nothing left to do. -/
def Pc.Ended (p : Pc) : Prop := p = .rejected ∨ p = .failed ∨ ∃ q, p = .stored q

theorem rows_grow (h : callStep known k payload s e = some t) {key : κ × Int} {r : ρ}
    (hr : s.rows.get? key = some r) : t.rows.get? key = some r := by
  rcases callStep_cases h with ⟨_, _, _, rfl⟩ | ⟨_, _, _, rfl⟩ | ⟨j, q, _, _, hfree, rfl⟩ |
    ⟨_, _, _, _, _, _, rfl⟩
  · exact hr
  · exact hr
  · have hne : key ≠ (k, q) := by
      rintro rfl
      simp [hfree] at hr
    simpa [Dict.get?_set_of_ne _ hne] using hr
  · exact hr

theorem rows_grow_run (h : Run (Fires (callStep known k payload)) s es t) {key : κ × Int} {r : ρ}
    (hr : s.rows.get? key = some r) : t.rows.get? key = some r :=
  h.invariant (fun a => a.rows.get? key = some r) hr fun _ _ _ hstep hr' =>
    rows_grow hstep hr'

/-- A step moves one caller, forward; an ended caller stays where it is. -/
theorem ended_stays (h : callStep known k payload s e = some t) (hi : (s.pc i).Ended) :
    t.pc i = s.pc i := by
  rcases callStep_cases h with ⟨j, _, hj, rfl⟩ | ⟨j, _, hj, rfl⟩ | ⟨j, q, _, hj, _, rfl⟩ |
    ⟨j, q, _, _, hj, _, rfl⟩
  all_goals
    have hne : i ≠ j := by
      rintro rfl
      simp [Pc.Ended, hj] at hi
    simp [goto_pc_of_ne s _ hne]

theorem ended_stays_run (h : Run (Fires (callStep known k payload)) s es t)
    (hi : (s.pc i).Ended) : t.pc i = s.pc i :=
  h.invariant (fun a => a.pc i = s.pc i) rfl fun _ _ _ hstep ha => by
    rw [ended_stays hstep (by rwa [ha]), ha]

/-- A step that moves a caller is one of its own. -/
theorem moved_step (h : callStep known k payload s e = some t) (hmoved : t.pc i ≠ s.pc i) :
    (s.pc i = .ready ∧ (t.pc i = .checked ∨ t.pc i = .rejected)) ∨
    (s.pc i = .checked ∧ e = .select i ∧ t = s.goto i (.selected (nextSeq s.rows k))) ∨
    (∃ q, e = .insert i ∧ s.pc i = .selected q ∧ t.pc i = .stored q) ∨
    (∃ q r, e = .insert i ∧ s.pc i = .selected q ∧ s.rows.get? (k, q) = some r ∧
      t.pc i = .failed) := by
  have hown : ∀ {j : ι} {pc : Pc}, (s.goto j pc).pc i ≠ s.pc i → i = j := by
    intro j pc hne
    by_contra hij
    exact hne (goto_pc_of_ne s pc hij)
  rcases callStep_cases h with ⟨j, _, hj, rfl⟩ | ⟨j, he, hj, rfl⟩ | ⟨j, q', he, hj, _, rfl⟩ |
    ⟨j, q', r, he, hj, hr, rfl⟩
  · cases hown hmoved
    left
    refine ⟨hj, ?_⟩
    cases known <;> simp
  · cases hown hmoved
    exact Or.inr (Or.inl ⟨hj, he, rfl⟩)
  · cases hown hmoved
    exact Or.inr (Or.inr (Or.inl ⟨q', he, hj, by simp⟩))
  · cases hown hmoved
    exact Or.inr (Or.inr (Or.inr ⟨q', r, he, hj, hr, by simp⟩))

/-- A caller that has read a number keeps it until its own insert. -/
theorem selected_step (h : callStep known k payload s e = some t)
    (hi : s.pc i = .selected q) :
    t.pc i = .selected q ∨ (e = .insert i ∧ (t.pc i).Ended) := by
  by_cases hsame : t.pc i = s.pc i
  · exact Or.inl (hsame.trans hi)
  · rcases moved_step h hsame with ⟨hready, _⟩ | ⟨hchecked, _⟩ | ⟨_, he, _, hstored⟩ |
      ⟨_, _, he, _, _, hfailed⟩
    · rw [hi] at hready
      cases hready
    · rw [hi] at hchecked
      cases hchecked
    · exact Or.inr ⟨he, by simp [hstored, Pc.Ended]⟩
    · exact Or.inr ⟨he, by simp [hfailed, Pc.Ended]⟩

theorem selected_run (h : Run (Fires (callStep known k payload)) s es t)
    (hi : s.pc i = .selected q) : t.pc i = .selected q ∨ (t.pc i).Ended := by
  refine h.invariant (fun a => a.pc i = .selected q ∨ (a.pc i).Ended) (Or.inl hi) ?_
  intro a e b hstep ha
  rcases ha with ha | ha
  · rcases selected_step hstep ha with hb | ⟨_, hb⟩
    · exact Or.inl hb
    · exact Or.inr hb
  · rw [ended_stays hstep ha]
    exact Or.inr ha

/-- Between two moments at which a caller holds a number it holds one and the same. -/
theorem selected_between {fs : List (CallStep ι)} {q' : Int}
    (h : Run (Fires (callStep known k payload)) s es t) (hi : s.pc i = .selected q)
    (h' : Run (Fires (callStep known k payload)) t fs u) (hu : u.pc i = .selected q') :
    t.pc i = .selected q := by
  rcases selected_run h hi with ht | ht
  · exact ht
  · rw [← ended_stays_run h' ht, hu] at ht
    simp [Pc.Ended] at ht

theorem selected_of_select (h : callStep known k payload s (.select i) = some t) :
    t.pc i = .selected (nextSeq s.rows k) := by
  rcases callStep_cases h with ⟨_, he, _⟩ | ⟨_, he, _, rfl⟩ | ⟨_, _, he, _⟩ | ⟨_, _, _, he, _⟩ <;>
    cases he
  simp

theorem selected_of_insert (h : callStep known k payload s (.insert i) = some t) :
    ∃ q, s.pc i = .selected q := by
  rcases callStep_cases h with ⟨_, he, _⟩ | ⟨_, he, _⟩ | ⟨_, q, he, hq, _⟩ | ⟨_, q, _, he, hq, _⟩ <;>
    cases he
  · exact ⟨q, hq⟩
  · exact ⟨q, hq⟩

/-- Inserting under a number that is taken fails. -/
theorem failed_of_taken {r : ρ} (h : callStep known k payload s (.insert i) = some t)
    (hi : s.pc i = .selected q) (hr : s.rows.get? (k, q) = some r) : t.pc i = .failed := by
  rcases callStep_cases h with ⟨_, he, _⟩ | ⟨_, he, _⟩ | ⟨_, q', he, hq, hfree, _⟩ |
    ⟨_, q', _, he, _, _, rfl⟩ <;> cases he
  · rw [hi] at hq
    cases hq
    simp [hr] at hfree
  · simp

/-- While only caller `i` may insert, the rows stay as they are as long as it has not. -/
theorem window_rows (h : Run (Fires (callStep known k payload)) s es t)
    (hi : s.pc i = .selected q) (honly : ∀ j, .insert j ∈ es → j = i) :
    (t.pc i = .selected q ∧ t.rows = s.rows) ∨ (t.pc i).Ended := by
  induction h with
  | nil => exact Or.inl ⟨hi, rfl⟩
  | @snoc es a b e hrun hstep ih =>
    rcases ih fun j hj => honly j (List.mem_append_left _ hj) with ⟨hpc, hrows⟩ | hend
    · rcases selected_step hstep hpc with hb | ⟨_, hb⟩
      · left
        refine ⟨hb, ?_⟩
        rcases callStep_cases hstep with ⟨_, _, _, rfl⟩ | ⟨_, _, _, rfl⟩ | ⟨j, _, rfl, _, _, rfl⟩ |
          ⟨_, _, _, _, _, _, rfl⟩
        · exact hrows
        · exact hrows
        · -- the only insert allowed is the one that ends caller `i`
          have hj : j = i := honly j (by simp)
          subst hj
          simp at hb
        · exact hrows
      · exact Or.inr hb
    · rw [ended_stays hstep hend]
      exact Or.inr hend

/-- A caller holding a number has read it somewhere in the run. -/
theorem exists_select {rows : SeqTable κ ρ}
    (h : Run (Fires (callStep known k payload)) (Calls.start rows) es t)
    (hi : t.pc i = .selected q) :
    ∃ a b s₀ s₁, es = a ++ .select i :: b ∧
      Run (Fires (callStep known k payload)) (Calls.start rows) a s₀ ∧
      s₁ = s₀.goto i (.selected (nextSeq s₀.rows k)) ∧
      Run (Fires (callStep known k payload)) s₁ b t := by
  induction h with
  | nil => simp [Calls.start] at hi
  | @snoc es a b e hrun hstep ih =>
    by_cases hprev : a.pc i = .selected q
    · obtain ⟨x, y, s₀, s₁, rfl, h₀, h₁, hy⟩ := ih hprev
      exact ⟨x, y ++ [e], s₀, s₁, by simp, h₀, h₁, .snoc hy hstep⟩
    · have hne : b.pc i ≠ a.pc i := by
        rw [hi]
        exact Ne.symm hprev
      have hmoved : e = .select i ∧ b = a.goto i (.selected (nextSeq a.rows k)) := by
        rcases moved_step hstep hne with ⟨_, hpc | hpc⟩ | ⟨_, he, hb⟩ | ⟨_, _, _, hpc⟩ |
          ⟨_, _, _, _, _, hpc⟩
        · simp [hi] at hpc
        · simp [hi] at hpc
        · exact ⟨he, hb⟩
        · simp [hi] at hpc
        · simp [hi] at hpc
      obtain ⟨rfl, hb⟩ := hmoved
      exact ⟨es, [], a, b, rfl, hrun, hb, .nil⟩

/-- A failed caller has met its own number in the table. -/
theorem exists_failed_insert {rows : SeqTable κ ρ}
    (h : Run (Fires (callStep known k payload)) (Calls.start rows) es t)
    (hi : t.pc i = .failed) :
    ∃ a d t₁ q r, es = a ++ .insert i :: d ∧
      Run (Fires (callStep known k payload)) (Calls.start rows) a t₁ ∧
      t₁.pc i = .selected q ∧ t₁.rows.get? (k, q) = some r := by
  induction h with
  | nil => simp [Calls.start] at hi
  | @snoc es a b e hrun hstep ih =>
    by_cases hprev : a.pc i = .failed
    · obtain ⟨x, d, t₁, q, r, rfl, hx, hq, hr⟩ := ih hprev
      exact ⟨x, d ++ [e], t₁, q, r, by simp, hx, hq, hr⟩
    · have hne : b.pc i ≠ a.pc i := by
        rw [hi]
        exact Ne.symm hprev
      rcases moved_step hstep hne with ⟨_, hpc | hpc⟩ | ⟨_, _, rfl⟩ | ⟨_, _, _, hpc⟩ |
        ⟨q, r, rfl, hq, hr, _⟩
      · simp [hi] at hpc
      · simp [hi] at hpc
      · simp at hi
      · simp [hi] at hpc
      · exact ⟨es, [], a, q, r, rfl, hrun, hq, hr⟩

end OneCaller

/-! ### The table along a run -/

/-- The table holds exactly the old rows and one row for every caller that stored one. A
number a caller has read is either still the next one or taken by now. -/
structure CallsInv (k : κ) (payload : ι → ρ) (rows : SeqTable κ ρ) (s : Calls ι κ ρ) :
    Prop where
  old : ∀ key r, rows.get? key = some r → s.rows.get? key = some r
  stored : ∀ i q, s.pc i = .stored q →
    rows.get? (k, q) = none ∧ s.rows.get? (k, q) = some (payload i)
  distinct : ∀ i j q, s.pc i = .stored q → s.pc j = .stored q → i = j
  nothingElse : ∀ q r, s.rows.get? (k, q) = some r →
    rows.get? (k, q) = some r ∨ ∃ i, s.pc i = .stored q
  selected : ∀ i q, s.pc i = .selected q →
    q = nextSeq s.rows k ∨ ∃ r, s.rows.get? (k, q) = some r

section Table

variable {known : Bool} {k : κ} {payload : ι → ρ} {rows : SeqTable κ ρ} {s t : Calls ι κ ρ}
  {es : List (CallStep ι)} {e : CallStep ι}

omit [DecidableEq ι] in
theorem callsInv_start : CallsInv k payload rows (Calls.start rows : Calls ι κ ρ) where
  old := fun _ _ h => h
  stored := fun _ _ h => by simp [Calls.start] at h
  distinct := fun _ _ _ h => by simp [Calls.start] at h
  nothingElse := fun _ _ h => Or.inl h
  selected := fun _ _ h => by simp [Calls.start] at h

/-- Moving a caller to a place that is neither `stored` nor `selected` changes nothing the
invariant speaks about. -/
theorem callsInv_goto {i : ι} {p : Pc} (hs : CallsInv k payload rows s)
    (hi : ∀ q, s.pc i ≠ .stored q) (hst : ∀ q, p ≠ .stored q)
    (hsel : ∀ q, p = .selected q → q = nextSeq s.rows k) :
    CallsInv k payload rows (s.goto i p) := by
  have hpc : ∀ j q, (s.goto i p).pc j = .stored q → s.pc j = .stored q := by
    intro j q hj
    by_cases hij : j = i
    · subst hij
      simp [hst q] at hj
    · simpa [goto_pc_of_ne s p hij] using hj
  refine ⟨hs.old, fun j q hj => hs.stored j q (hpc j q hj), fun j l q hj hl =>
    hs.distinct j l q (hpc j q hj) (hpc l q hl), fun q r hr => ?_, fun j q hj => ?_⟩
  · rcases hs.nothingElse q r hr with h | ⟨j, hj⟩
    · exact Or.inl h
    · have hij : j ≠ i := by
        rintro rfl
        exact hi q hj
      exact Or.inr ⟨j, by rw [goto_pc_of_ne s p hij, hj]⟩
  · by_cases hij : j = i
    · subst hij
      rw [goto_pc_self] at hj
      exact Or.inl (hsel q hj)
    · rw [goto_pc_of_ne s p hij] at hj
      exact hs.selected j q hj

theorem callsInv_step (h : callStep known k payload s e = some t)
    (hs : CallsInv k payload rows s) : CallsInv k payload rows t := by
  rcases callStep_cases h with ⟨i, _, hi, rfl⟩ | ⟨i, _, hi, rfl⟩ | ⟨i, q, _, hi, hfree, rfl⟩ |
    ⟨i, q, r, _, hi, _, rfl⟩
  · refine callsInv_goto hs (by simp [hi]) ?_ ?_ <;> cases known <;> simp
  · exact callsInv_goto hs (by simp [hi]) (by simp) (by simp)
  · -- the insert went through, so the number was still the next one
    have hq : q = nextSeq s.rows k := by
      rcases hs.selected i q hi with hq | ⟨r, hr⟩
      · exact hq
      · simp [hfree] at hr
    have hother : ∀ key, key ≠ (k, q) →
        (s.rows.set (k, q) (payload i)).get? key = s.rows.get? key :=
      fun key hkey => Dict.get?_set_of_ne _ hkey
    have hpc : ∀ j q', (s.goto i (.stored q)).pc j = .stored q' →
        (j = i ∧ q' = q) ∨ (j ≠ i ∧ s.pc j = .stored q') := by
      intro j q' hj
      by_cases hij : j = i
      · subst hij
        simp only [goto_pc_self, Pc.stored.injEq] at hj
        exact Or.inl ⟨rfl, hj.symm⟩
      · exact Or.inr ⟨hij, by simpa [goto_pc_of_ne s _ hij] using hj⟩
    have hnew : ∀ j, s.pc j ≠ .stored q := by
      intro j hj
      simp [(hs.stored j q hj).2] at hfree
    refine ⟨fun key r hr => ?_, fun j q' hj => ?_, fun j l q' hj hl => ?_, fun q' r hr => ?_,
      fun j q' hj => ?_⟩
    · have hne : key ≠ (k, q) := by
        rintro rfl
        simp [hs.old _ _ hr] at hfree
      simpa [hother key hne] using hs.old key r hr
    · rcases hpc j q' hj with ⟨rfl, rfl⟩ | ⟨_, hj'⟩
      · refine ⟨?_, by simp⟩
        cases hold : rows.get? (k, q') with
        | none => rfl
        | some r => simp [hs.old _ _ hold] at hfree
      · have hne : (k, q') ≠ (k, q) := by
          intro heq
          simp only [Prod.mk.injEq, true_and] at heq
          exact hnew j (heq ▸ hj')
        simpa [hother _ hne] using hs.stored j q' hj'
    · rcases hpc j q' hj with ⟨rfl, rfl⟩ | ⟨_, hj'⟩ <;> rcases hpc l q' hl with ⟨rfl, h'⟩ | ⟨_, hl'⟩
      · rfl
      · exact absurd hl' (hnew l)
      · exact absurd (h' ▸ hj') (hnew j)
      · exact hs.distinct j l q' hj' hl'
    · by_cases hq' : q' = q
      · subst hq'
        exact Or.inr ⟨i, by simp⟩
      · have hne : (k, q') ≠ (k, q) := by simp [hq']
        rw [show (s.rows.set (k, q) (payload i)).get? (k, q') = s.rows.get? (k, q') from
          hother _ hne] at hr
        rcases hs.nothingElse q' r hr with h' | ⟨j, hj⟩
        · exact Or.inl h'
        · have hij : j ≠ i := by
            rintro rfl
            simp [hi] at hj
          exact Or.inr ⟨j, by simp [goto_pc_of_ne s _ hij, hj]⟩
    · -- a caller that read the same number finds it taken from now on
      have hij : j ≠ i := by
        rintro rfl
        simp at hj
      have hj' : s.pc j = .selected q' := by simpa [goto_pc_of_ne s _ hij] using hj
      right
      by_cases hq' : q' = q
      · subst hq'
        exact ⟨payload i, by simp⟩
      · rcases hs.selected j q' hj' with h' | ⟨r, hr⟩
        · exact absurd (h'.trans hq.symm) hq'
        · exact ⟨r, by simpa [hother (k, q') (by simp [hq'])] using hr⟩
  · exact callsInv_goto hs (by simp [hi]) (by simp) (by simp)

theorem callsInv_run (h : Run (Fires (callStep known k payload)) (Calls.start rows) es t) :
    CallsInv k payload rows t :=
  h.invariant _ callsInv_start fun _ _ _ hstep hs => callsInv_step hstep hs

theorem not_rejected (h : Run (Fires (callStep true k payload)) (Calls.start rows) es t) (i : ι) :
    t.pc i ≠ .rejected := by
  refine h.invariant (fun a => a.pc i ≠ .rejected) (by simp [Calls.start]) ?_
  intro a e b hstep ha
  rcases callStep_cases hstep with ⟨j, _, _, rfl⟩ | ⟨j, _, _, rfl⟩ | ⟨j, q, _, _, _, rfl⟩ |
    ⟨j, q, r, _, _, _, rfl⟩
  all_goals
    by_cases hij : i = j
    · subst hij
      simp
    · simpa [goto_pc_of_ne a _ hij] using ha

/-- An insert that goes through while another caller holds a number takes that number, or
the number was taken already. -/
theorem insert_spoils {i j : ι} {q : Int} (hs : CallsInv k payload rows s)
    (hi : s.pc i = .selected q)
    (hstep : callStep known k payload s (.insert j) = some t) :
    t.pc j = .failed ∨ ∃ r, t.rows.get? (k, q) = some r := by
  rcases callStep_cases hstep with ⟨_, he, _⟩ | ⟨_, he, _⟩ | ⟨l, p, he, hl, hfree, rfl⟩ |
    ⟨l, p, r, he, _, _, rfl⟩
  · cases he
  · cases he
  · cases he
    right
    have hp : p = nextSeq s.rows k := by
      rcases hs.selected j p hl with hp | ⟨r, hr⟩
      · exact hp
      · simp [hfree] at hr
    rcases hs.selected i q hi with hq | ⟨r, hr⟩
    · exact ⟨payload j, by simp [hq, hp]⟩
    · have hne : (k, q) ≠ (k, p) := by
        intro heq
        rw [heq, hfree] at hr
        cases hr
      exact ⟨r, by simpa [Dict.get?_set_of_ne _ hne] using hr⟩
  · cases he
    left
    simp

/-- When every caller has come to an end, all of them have stored their payload exactly
when no insert fell between another caller's read and insert. -/
theorem allStored_iff_noOverlap
    (h : Run (Fires (callStep true k payload)) (Calls.start rows) es t) (hend : t.Complete) :
    AllStored k payload rows t ↔ NoOverlap es := by
  have hinv : CallsInv k payload rows t := callsInv_run h
  constructor
  · rintro hall i j a b c d hij rfl
    obtain ⟨s₀, s₁, h₀, hsel, h₁⟩ := h.split_at
    obtain ⟨s₂, s₃, hb, hins, h₃⟩ := h₁.split_at
    obtain ⟨s₄, s₅, hc, hins', h₅⟩ := h₃.split_at
    have hnotFailed : ∀ l, t.pc l ≠ .failed := by
      intro l hl
      obtain ⟨q, hq, _⟩ := hall.stored l
      simp [hl] at hq
    -- caller `i` holds the number it read until its own insert
    have hpc₁ : s₁.pc i = .selected (nextSeq s₀.rows k) := selected_of_select hsel
    obtain ⟨q, hpc₄⟩ := selected_of_insert hins'
    have hpc₂ : s₂.pc i = .selected (nextSeq s₀.rows k) :=
      selected_between hb hpc₁ ((Run.single hins).append hc) hpc₄
    have hq : s₄.pc i = .selected (nextSeq s₀.rows k) :=
      selected_between ((Run.single hins).append hc) hpc₂ .nil hpc₄
    have hinv₂ : CallsInv k payload rows s₂ :=
      callsInv_run ((h₀.append (Run.single hsel)).append hb)
    rcases insert_spoils hinv₂ hpc₂ hins with hj | ⟨r, hr⟩
    · have hjt : t.pc j = s₃.pc j := ended_stays_run h₃ (by simp [hj, Pc.Ended])
      exact hnotFailed j (hjt.trans hj)
    · have hi₅ : s₅.pc i = .failed := failed_of_taken hins' hq (rows_grow_run hc hr)
      have hit : t.pc i = s₅.pc i := ended_stays_run h₅ (by simp [hi₅, Pc.Ended])
      exact hnotFailed i (hit.trans hi₅)
  · intro hno
    refine ⟨fun i => ?_, hinv.distinct, hinv.nothingElse⟩
    rcases hend i with hi | hi | ⟨q, hi⟩
    · exact absurd hi (not_rejected h i)
    · exfalso
      obtain ⟨a, d, t₁, q, r, rfl, h₁, hq, hr⟩ := exists_failed_insert h hi
      obtain ⟨x, y, s₀, s₁, rfl, _, hs₁, hy⟩ := exists_select h₁ hq
      have honly : ∀ j, .insert j ∈ y → j = i := by
        intro j hj
        by_contra hji
        obtain ⟨y₁, y₂, rfl⟩ := List.append_of_mem hj
        exact hno i j x y₁ y₂ d hji (by simp)
      have hpc₁ : s₁.pc i = .selected (nextSeq s₀.rows k) := by simp [hs₁]
      rcases window_rows hy hpc₁ honly with ⟨hpc, hrows⟩ | hended
      · rw [hq] at hpc
        cases hpc
        rw [hrows, hs₁, goto_rows, get?_nextSeq] at hr
        cases hr
      · simp [hq, Pc.Ended] at hended
    · exact ⟨q, hi, hinv.stored i q hi⟩

end Table

end SeqTable
