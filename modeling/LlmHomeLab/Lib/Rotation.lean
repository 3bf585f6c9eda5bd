import Mathlib

/-! # Standing ahead in a rotation

A rotation is a list whose members take turns: who has had a turn goes to the back, newcomers
join at the back, and a member may leave. `Ahead t s r`: in the rotation `r` the turn of `t`
comes before that of `s`, which need not be in the rotation at all.
-/

universe u

variable {α : Type u}

/-- `t` is in the rotation, and `s` does not stand before it. -/
def Ahead (t s : α) (r : List α) : Prop := ∃ l₁ l₂, r = l₁ ++ t :: l₂ ∧ s ∉ l₁

namespace Ahead

variable {t s x : α} {r l : List α}

theorem of_notMem (ht : t ∈ r) (hs : s ∉ r) : Ahead t s r := by
  rcases List.append_of_mem ht with ⟨l₁, l₂, rfl⟩
  refine ⟨l₁, l₂, rfl, ?_⟩
  intro h
  exact hs (List.mem_append_left _ h)

/-- Newcomers join behind. -/
theorem join (h : Ahead t s r) (l : List α) : Ahead t s (r ++ l) := by
  rcases h with ⟨l₁, l₂, rfl, hs⟩
  exact ⟨l₁, l₂ ++ l, by simp, hs⟩

variable [DecidableEq α]

/-- Another member leaves. -/
theorem leave (h : Ahead t s r) (hx : x ≠ t) : Ahead t s (r.erase x) := by
  rcases h with ⟨l₁, l₂, rfl, hs⟩
  by_cases hmem : x ∈ l₁
  · rw [List.erase_append_left _ hmem]
    refine ⟨l₁.erase x, l₂, rfl, ?_⟩
    intro h
    exact hs (List.mem_of_mem_erase h)
  · rw [List.erase_append_right _ hmem, List.erase_cons_tail (by simpa using Ne.symm hx)]
    exact ⟨l₁, l₂.erase x, rfl, hs⟩

/-- After a turn of `s` everyone else stands ahead of it. -/
theorem of_turn (hnodup : r.Nodup) (ht : t ∈ r) (hts : t ≠ s) : Ahead t s (r.erase s) := by
  refine of_notMem ((hnodup.mem_erase_iff).mpr ⟨hts, ht⟩) ?_
  intro h
  exact ((hnodup.mem_erase_iff).mp h).1 rfl

end Ahead
