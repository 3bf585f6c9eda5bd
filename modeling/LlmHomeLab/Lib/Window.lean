import Mathlib

/-! # Samples that grow old

Samples are put at the end of a list, and old ones are dropped from its front. What is old stays
old, so a later reader that passes over the old samples does not miss what has been dropped.
-/

universe u v

namespace Window

variable {α : Type u} {T : Type v}

section

variable {p q : α → Bool} {l : List α}

theorem filter_dropWhile (h : ∀ a ∈ l, p a = true → q a = false) :
    (l.dropWhile p).filter q = l.filter q := by
  induction l with
  | nil => rfl
  | cons a rest ih =>
    rw [List.forall_mem_cons] at h
    cases hp : p a with
    | true =>
      have hq : q a ≠ true := Bool.eq_false_iff.mp (h.1 hp)
      rw [List.dropWhile_cons_of_pos hp, List.filter_cons_of_neg hq, ih h.2]
    | false => rw [List.dropWhile_cons_of_neg (Bool.eq_false_iff.mp hp)]

/-- In a list in order, the old samples are all in front. -/
theorem dropWhile_eq_filter (h : l.Pairwise fun a b => p b = true → p a = true) :
    l.dropWhile p = l.filter (!p ·) := by
  induction l with
  | nil => rfl
  | cons a rest ih =>
    rw [List.pairwise_cons] at h
    cases hp : p a with
    | true =>
      rw [List.dropWhile_cons_of_pos hp, List.filter_cons_of_neg (by simp [hp]), ih h.2]
    | false =>
      have hall : ∀ b ∈ a :: rest, (!p b) = true := by
        intro b hb
        rcases List.mem_cons.mp hb with rfl | hb
        · rw [hp]
          rfl
        · rw [Bool.not_eq_true']
          exact Bool.eq_false_of_not_eq_true fun hold => by simp [h.1 b hb hold] at hp
      rw [List.dropWhile_cons_of_neg (Bool.eq_false_iff.mp hp), List.filter_eq_self.mpr hall]

end

variable [Preorder T] {old : T → α → Bool} {last now : T} {recorded kept : List α}

/-- What is kept is some of what was recorded, in order, and whoever passes over the old samples,
at a time from `last` on, finds all there is in it. -/
structure Covers (old : T → α → Bool) (last : T) (recorded kept : List α) : Prop where
  sublist : kept.Sublist recorded
  same : ∀ t, last ≤ t → kept.filter (!old t ·) = recorded.filter (!old t ·)

namespace Covers

theorem nil : Covers old last [] [] := ⟨List.Sublist.refl [], fun _ _ => rfl⟩

theorem later (h : Covers old last recorded kept) (hle : last ≤ now) :
    Covers old now recorded kept :=
  ⟨h.sublist, fun t ht => h.same t (le_trans hle ht)⟩

theorem append (h : Covers old last recorded kept) (more : List α) :
    Covers old last (recorded ++ more) (kept ++ more) where
  sublist := h.sublist.append_right more
  same t ht := by rw [List.filter_append, List.filter_append, h.same t ht]

/-- What is old now may be dropped, if it is old whenever somebody looks. -/
theorem evict (h : Covers old last recorded kept)
    (hold : ∀ t a, last ≤ t → old now a = true → old t a = true) :
    Covers old last recorded (kept.dropWhile (old now)) where
  sublist := (List.dropWhile_sublist _).trans h.sublist
  same t ht := by
    rw [← h.same t ht]
    refine filter_dropWhile fun a _ ha => ?_
    rw [hold t a ht ha]
    rfl

/-- In order, what is left after dropping is what a reader would count. -/
theorem dropWhile_eq (h : Covers old last recorded kept) (hle : last ≤ now)
    (hsorted : recorded.Pairwise fun a b => old now b = true → old now a = true) :
    kept.dropWhile (old now) = recorded.filter (!old now ·) :=
  (dropWhile_eq_filter (hsorted.sublist h.sublist)).trans (h.same now hle)

end Covers

end Window
