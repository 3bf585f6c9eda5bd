import Mathlib

/-! # The nearest-rank percentile

The value at a rank of a sorted list is the least value that so many of the values do not exceed.
The order is a boolean relation that is total and transitive on the values there are, so values
that compare equal need not be the same.
-/

universe u

namespace NearestRank

variable {α : Type u} {le : α → α → Bool} {l l' : List α} {k : ℕ} {v w : α}

/-- Any two of the values compare, and comparing is transitive. -/
structure Ordered (le : α → α → Bool) (l : List α) : Prop where
  total : ∀ a ∈ l, ∀ b ∈ l, le a b = true ∨ le b a = true
  trans : ∀ a ∈ l, ∀ b ∈ l, ∀ c ∈ l, le a b = true → le b c = true → le a c = true

/-- The least value that at least `k` of the values do not exceed. -/
structure IsRank (le : α → α → Bool) (l : List α) (k : ℕ) (v : α) : Prop where
  mem : v ∈ l
  enough : k ≤ l.countP (le · v)
  least : ∀ w ∈ l, k ≤ l.countP (le · w) → le v w = true

theorem Ordered.perm (h : Ordered le l) (hperm : l'.Perm l) : Ordered le l' where
  total a ha b hb := h.total a (hperm.subset ha) b (hperm.subset hb)
  trans a ha b hb c hc := h.trans a (hperm.subset ha) b (hperm.subset hb) c (hperm.subset hc)

theorem IsRank.perm (h : IsRank le l k v) (hperm : l'.Perm l) : IsRank le l' k v where
  mem := hperm.symm.subset h.mem
  enough := by
    rw [hperm.countP_eq]
    exact h.enough
  least w hw hcount := by
    rw [hperm.countP_eq] at hcount
    exact h.least w (hperm.subset hw) hcount

/-- Sorting only compares the values of the list. -/
theorem Ordered.pairwise_mergeSort (h : Ordered le l) :
    (l.mergeSort le).Pairwise fun a b => le a b = true := by
  let le' : {a // a ∈ l} → {a // a ∈ l} → Bool := fun a b => le a b
  have hsorted : (l.attach.mergeSort le').Pairwise fun a b => le' a b = true := by
    refine List.pairwise_mergeSort ?_ ?_ _
    · intro a b c hab hbc
      exact h.trans a a.2 b b.2 c c.2 hab hbc
    · intro a b
      rw [Bool.or_eq_true]
      exact h.total a a.2 b b.2
  have hmap : (l.attach.mergeSort le').map Subtype.val = l.mergeSort le := by
    rw [List.map_mergeSort (s := le) fun a _ b _ => rfl, List.attach_map_subtype_val]
  rw [← hmap, List.pairwise_map]
  exact hsorted

theorem Ordered.refl (h : Ordered le l) {a : α} (ha : a ∈ l) : le a a = true :=
  (h.total a ha a ha).elim id id

/-- In a sorted list, the value at a place is between those before and those behind it. -/
theorem isRank_of_sorted (h : Ordered le l) (hsorted : l.Pairwise fun a b => le a b = true)
    (hpos : 0 < k) (hlt : k - 1 < l.length) : IsRank le l k l[k - 1] := by
  have hle : ∀ i j (hi : i < l.length) (hj : j < l.length), i ≤ j → le l[i] l[j] = true := by
    intro i j hi hj hij
    rcases Nat.lt_or_eq_of_le hij with hij | rfl
    · exact List.pairwise_iff_getElem.mp hsorted i j hi hj hij
    · exact h.refl (List.getElem_mem hi)
  refine ⟨List.getElem_mem hlt, ?_, ?_⟩
  · -- the first `k` values do not exceed it
    have hall : ∀ a ∈ l.take k, le a l[k - 1] = true := by
      intro a ha
      obtain ⟨i, hi, rfl⟩ := List.mem_iff_getElem.mp ha
      rw [List.length_take] at hi
      rw [List.getElem_take]
      exact hle i (k - 1) (by omega) hlt (by omega)
    calc k = (l.take k).length := by rw [List.length_take]; omega
      _ = (l.take k).countP (le · l[k - 1]) := (List.countP_eq_length.mpr hall).symm
      _ ≤ l.countP (le · l[k - 1]) := (List.take_sublist k l).countP_le
  · intro w hw hcount
    by_contra hnot
    -- then only values before it could be below `w`
    have hnone : (l.drop (k - 1)).countP (le · w) = 0 := by
      rw [List.countP_eq_zero]
      intro a ha haw
      obtain ⟨i, hi, rfl⟩ := List.mem_iff_getElem.mp ha
      rw [List.length_drop] at hi
      rw [List.getElem_drop] at haw
      have hva := hle (k - 1) (k - 1 + i) hlt (by omega) (by omega)
      exact hnot (h.trans _ (List.getElem_mem hlt) _ (List.getElem_mem _) w hw hva haw)
    have hsplit := congrArg (List.countP (le · w)) (List.take_append_drop (k - 1) l)
    rw [List.countP_append, hnone] at hsplit
    have htake : (l.take (k - 1)).countP (le · w) ≤ (l.take (k - 1)).length :=
      List.countP_le_length
    rw [List.length_take] at htake
    omega

/-- What stands at place `k - 1` after sorting. -/
theorem isRank_mergeSort (h : Ordered le l) (hpos : 0 < k)
    (hv : (l.mergeSort le)[k - 1]? = some v) : IsRank le l k v := by
  have hperm := List.mergeSort_perm l le
  obtain ⟨hlt, rfl⟩ := List.getElem?_eq_some_iff.mp hv
  exact (isRank_of_sorted (h.perm hperm) h.pairwise_mergeSort hpos hlt).perm hperm.symm

end NearestRank
