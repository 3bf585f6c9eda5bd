import Mathlib

/-! # The most recently used keys

The keys of a sequence of uses, the least recently used first (`List.dedup` keeps the last
occurrence of each), and the last `n` of them. One more use either moves its key to the end or
puts it there and pushes the first one out.
-/

universe u

namespace List

variable {α : Type u} {n : ℕ} {l l' : List α}

theorem rtake_append_of_le (h : n ≤ l'.length) : (l ++ l').rtake n = l'.rtake n := by
  have hlen : (l ++ l').length - n = l.length + (l'.length - n) := by
    rw [List.length_append]
    omega
  rw [rtake, rtake, hlen, ← List.drop_drop, List.drop_left]

theorem rtake_of_length_le (h : l.length ≤ n) : l.rtake n = l := by
  rw [rtake, Nat.sub_eq_zero_of_le h, List.drop_zero]

theorem length_rtake : (l.rtake n).length = min n l.length := by
  rw [rtake, List.length_drop]
  omega

/-- The end that is taken is all there is, or it is full. -/
theorem rtake_split : ∃ early, l = early ++ l.rtake n ∧ (early = [] ∨ (l.rtake n).length = n) := by
  refine ⟨l.take (l.length - n), (List.take_append_drop _ l).symm, ?_⟩
  by_cases h : l.length ≤ n
  · left
    rw [Nat.sub_eq_zero_of_le h, List.take_zero]
  · right
    rw [length_rtake]
    omega

end List

namespace Recency

variable {α : Type u} [DecidableEq α] {n : ℕ} {uses : List α} {k : α}

/-- The `n` most recently used keys, the least recent of them first. -/
def recent (n : ℕ) (uses : List α) : List α := uses.dedup.rtake n

/-- The distinct keys used since `k` was. -/
def usedSince (k : α) (uses : List α) : List α :=
  (uses.reverse.takeWhile fun x => !decide (x = k)).dedup

theorem length_recent : (recent n uses).length = min n uses.dedup.length := List.length_rtake

theorem mem_of_mem_recent (h : k ∈ recent n uses) : k ∈ uses :=
  List.mem_dedup.mp (List.mem_of_mem_drop h)

/-- One more use. -/
theorem dedup_snoc : (uses ++ [k]).dedup = uses.dedup.erase k ++ [k] := by
  induction uses with
  | nil => simp
  | cons a rest ih =>
    rw [List.cons_append]
    by_cases hrest : a ∈ rest
    · rw [List.dedup_cons_of_mem (List.mem_append_left _ hrest), List.dedup_cons_of_mem hrest, ih]
    · rw [List.dedup_cons_of_notMem hrest]
      by_cases hk : a = k
      · -- the old use is the one that is forgotten
        subst hk
        have hnot : a ∉ rest.dedup := by rwa [List.mem_dedup]
        rw [List.dedup_cons_of_mem (by simp), ih, List.erase_cons_head, List.erase_of_not_mem hnot]
      · rw [List.dedup_cons_of_notMem (by simp [hrest, hk]), ih, List.erase_cons_tail (by simpa),
          List.cons_append]

theorem recent_snoc_of_mem (h : k ∈ recent n uses) :
    recent n (uses ++ [k]) = (recent n uses).erase k ++ [k] := by
  rcases List.rtake_split (n := n) (l := uses.dedup) with ⟨early, heq, hfull⟩
  have hlen : ((recent n uses).erase k ++ [k]).length = (recent n uses).length := by
    have hpos := List.length_pos_of_mem h
    rw [List.length_append, List.length_erase_of_mem h, List.length_singleton]
    omega
  have hle : (recent n uses).length ≤ n := by
    rw [length_recent]
    omega
  have hearly : k ∉ early := by
    intro hin
    have hnodup := List.nodup_dedup uses
    rw [heq, List.nodup_append] at hnodup
    exact hnodup.2.2 k hin k h rfl
  have hdedup : (uses ++ [k]).dedup = early ++ ((recent n uses).erase k ++ [k]) := by
    rw [dedup_snoc, heq, List.erase_append_right _ hearly, List.append_assoc]
    rfl
  rw [recent, hdedup]
  rcases hfull with rfl | hfull
  · rw [List.nil_append, List.rtake_of_length_le (hlen.trans_le hle)]
  · have hn : n ≤ ((recent n uses).erase k ++ [k]).length := by
      rw [hlen]
      exact hfull.ge
    rw [List.rtake_append_of_le hn, List.rtake_of_length_le (hlen.trans_le hle)]

theorem recent_snoc_of_notMem (h : k ∉ recent n uses) :
    recent n (uses ++ [k]) = (recent n uses ++ [k]).rtake n := by
  rcases List.rtake_split (n := n) (l := uses.dedup) with ⟨early, heq, hfull⟩
  have hdedup : (uses ++ [k]).dedup = early.erase k ++ (recent n uses ++ [k]) := by
    rw [dedup_snoc, heq]
    by_cases hin : k ∈ early
    · rw [List.erase_append_left _ hin, List.append_assoc]
      rfl
    · have hrecent : (uses.dedup.rtake n).erase k = recent n uses := List.erase_of_not_mem h
      rw [List.erase_append_right _ hin, List.erase_of_not_mem hin, List.append_assoc, hrecent]
  rw [recent, hdedup]
  rcases hfull with rfl | hfull
  · rfl
  · refine List.rtake_append_of_le ?_
    rw [List.length_append, List.length_singleton]
    exact hfull.ge.trans (Nat.le_succ _)

/-- A key is among the most recent ones if it was used and not too many others were since. -/
theorem mem_recent_iff : k ∈ recent n uses ↔ k ∈ uses ∧ (usedSince k uses).length < n := by
  by_cases hk : k ∈ uses
  swap
  · exact ⟨fun h => absurd (mem_of_mem_recent h) hk, fun h => absurd h.1 hk⟩
  -- split at the last use of `k`
  rcases List.eq_append_cons_of_mem (List.mem_reverse.mpr hk) with ⟨post, pre, heq, hpost⟩
  have hsince : (usedSince k uses).length = post.reverse.dedup.length := by
    have htake : usedSince k uses = post.dedup := by
      rw [usedSince, heq, List.takeWhile_append_of_pos, List.takeWhile_cons_of_neg (by simp),
        List.append_nil]
      intro a ha
      have hne : a ≠ k := by
        rintro rfl
        exact hpost ha
      simpa using hne
    rw [htake]
    exact ((List.reverse_perm post).dedup.length_eq).symm
  have huses : uses = pre.reverse ++ k :: post.reverse := by
    rw [← List.reverse_reverse uses, heq]
    simp
  have hnotin : k ∉ post.reverse := by rwa [List.mem_reverse]
  have hsuffix : (k :: post.reverse.dedup) <:+ uses.dedup := by
    rw [huses, List.dedup_append, List.dedup_cons_of_notMem hnotin]
    exact List.suffix_union_right _ _
  rcases hsuffix with ⟨early, hearly⟩
  have hnodup := List.nodup_dedup uses
  rw [← hearly, List.nodup_append] at hnodup
  have hkearly : k ∉ early := fun hin => hnodup.2.2 k hin k List.mem_cons_self rfl
  have hlen : uses.dedup.length = early.length + (post.reverse.dedup.length + 1) := by
    rw [← hearly, List.length_append, List.length_cons]
  simp only [hk, true_and, recent, hsince, List.rtake, hlen]
  rw [← hearly]
  by_cases hlt : post.reverse.dedup.length < n
  · -- nothing of what was used since is dropped
    simp only [hlt, iff_true]
    rw [List.drop_append_of_le_length (by omega)]
    exact List.mem_append_right _ List.mem_cons_self
  · simp only [hlt, iff_false]
    intro hin
    have hdrop : early.length + (post.reverse.dedup.length + 1) - n =
        (early ++ [k]).length + (post.reverse.dedup.length - n) := by
      rw [List.length_append, List.length_singleton]
      omega
    rw [List.append_cons, hdrop, ← List.drop_drop, List.drop_left] at hin
    exact hnotin (List.mem_dedup.mp (List.mem_of_mem_drop hin))

end Recency
