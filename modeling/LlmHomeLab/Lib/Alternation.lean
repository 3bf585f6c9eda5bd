import Mathlib

/-! # Alternating sequences

What a two-state switch reports: a sequence of booleans in which no value follows itself. It
is built up at its end, as the reports come in.
-/

/-- The sequence alternates, and starts with `b` if it has a first value. -/
def Alternates (b : Bool) : List Bool → Prop
  | [] => True
  | x :: rest => x = b ∧ Alternates (!b) rest

/-- The only value an alternating sequence can go on with. -/
def following (b : Bool) (l : List Bool) : Bool :=
  match l.getLast? with
  | none => b
  | some x => !x

namespace Alternates

variable {b x : Bool} {l : List Bool}

@[simp] theorem following_nil : following b [] = b := rfl

@[simp] theorem following_snoc : following b (l ++ [x]) = !x := by
  simp [following]

theorem following_cons : following b (x :: l) = following (!x) l := by
  cases l with
  | nil => rfl
  | cons y rest => simp [following, List.getLast?_cons]

/-- A sequence is prolonged by one report. -/
theorem snoc_iff : Alternates b (l ++ [x]) ↔ Alternates b l ∧ x = following b l := by
  induction l generalizing b with
  | nil => simp [Alternates]
  | cons y rest ih =>
    rw [List.cons_append, Alternates, ih, Alternates, following_cons, and_assoc]
    constructor
    · rintro ⟨rfl, hrest, hx⟩
      exact ⟨rfl, hrest, hx⟩
    · rintro ⟨rfl, hrest, hx⟩
      exact ⟨rfl, hrest, hx⟩

end Alternates
