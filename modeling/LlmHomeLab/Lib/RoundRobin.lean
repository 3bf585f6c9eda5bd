import Mathlib

/-! # Taking turns

The places of `k` that have their turns one after the other. After any number of turns, no place
has had two more of them than another.
-/

namespace RoundRobin

variable {k n p q : ℕ}

/-- The places of `n` turns, from the turn of this number on. -/
def turns (k start n : ℕ) : List ℕ := (List.range' start n).map (· % k)

theorem turns_succ (k start n : ℕ) :
    turns k start (n + 1) = start % k :: turns k (start + 1) n := by
  rw [turns, List.range'_succ, List.map_cons]
  rfl

theorem count_turns (hp : p < k) : (turns k 0 n).count p = n / k + if p < n % k then 1 else 0 := by
  have hk : 0 < k := by omega
  have hcount := Nat.count_modEq_card n hk p
  rw [Nat.mod_eq_of_lt hp] at hcount
  rw [← hcount, turns, ← List.range_eq_range', Nat.count, List.count, List.countP_map]
  refine List.countP_congr fun x _ => ?_
  simp [Nat.ModEq, Nat.mod_eq_of_lt hp]

theorem balanced (hp : p < k) (hq : q < k) :
    (turns k 0 n).count p ≤ (turns k 0 n).count q + 1 := by
  rw [count_turns hp, count_turns hq]
  split <;> split <;> omega

end RoundRobin
