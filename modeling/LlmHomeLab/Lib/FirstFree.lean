import Mathlib

/-! # The first candidate that is free

Candidates are tried one after the other until one is not in use. If no two of them are the same,
there is a free one among the first `n + 1`, where `n` are in use.
-/

universe u

variable {α : Type u} [DecidableEq α] {f : ℕ → α} {used : List α} {start m : ℕ}

/-- The first candidate from `start` on that is free, if it comes up in this many rounds. -/
def firstFree (f : ℕ → α) (used : List α) : ℕ → ℕ → Option α
  | 0, _ => none
  | fuel + 1, n => if f n ∈ used then firstFree f used fuel (n + 1) else some (f n)

namespace FirstFree

omit [DecidableEq α] in
/-- One of the candidates is free. -/
theorem exists_free (hf : Function.Injective f) (used : List α) (start : ℕ) :
    ∃ m, start ≤ m ∧ m ≤ start + used.length ∧ f m ∉ used := by
  classical
  by_contra hall
  push Not at hall
  have hsubset : (List.range' start (used.length + 1)).map f ⊆ used := by
    intro a ha
    obtain ⟨m, hm, rfl⟩ := List.mem_map.mp ha
    rw [List.mem_range'_1] at hm
    exact hall m hm.1 (by omega)
  have hnodup : ((List.range' start (used.length + 1)).map f).Nodup :=
    (List.nodup_range' (s := start)).map hf
  have hlength := (hnodup.subperm hsubset).length_le
  rw [List.length_map, List.length_range'] at hlength
  omega

/-- The candidates before it are in use, so the search comes to the free one. -/
theorem firstFree_eq (hused : ∀ j, start ≤ j → j < m → f j ∈ used) (hfree : f m ∉ used)
    (hstart : start ≤ m) {fuel : ℕ} (hfuel : m < start + fuel) :
    firstFree f used fuel start = some (f m) := by
  induction fuel generalizing start with
  | zero => omega
  | succ fuel ih =>
    rw [firstFree]
    rcases hstart.lt_or_eq with hlt | rfl
    · rw [if_pos (hused start le_rfl hlt)]
      exact ih (fun j hj => hused j (by omega)) (by omega) (by omega)
    · rw [if_neg hfree]

/-- With more rounds than there are candidates in use the search ends, and no number of further
rounds makes a difference. -/
theorem terminates (hf : Function.Injective f) (used : List α) (start : ℕ) :
    ∃ m, f m ∉ used ∧ ∀ fuel, used.length < fuel → firstFree f used fuel start = some (f m) := by
  obtain ⟨m, ⟨hstart, hbound, hfree⟩, hleast⟩ :
      ∃ m, (start ≤ m ∧ m ≤ start + used.length ∧ f m ∉ used) ∧
        ∀ j < m, ¬ (start ≤ j ∧ j ≤ start + used.length ∧ f j ∉ used) :=
    ⟨_, Nat.find_spec (exists_free hf used start), fun _ => Nat.find_min _⟩
  refine ⟨m, hfree, fun fuel hfuel => firstFree_eq ?_ hfree hstart (by omega)⟩
  intro j hj hlt
  by_contra hnot
  exact hleast j hlt ⟨hj, by omega, hnot⟩

end FirstFree
