import Mathlib

/-! # Rounding to binary digits

The nearest natural number with a given number of significant binary digits, ties to even, and
the integers of the double format.
-/

namespace Rounding

variable {p n : ℕ}

/-- The nearest multiple of `2 ^ s`; of two, the one with an even factor. -/
def nearestMultiple (s n : ℕ) : ℕ :=
  let q := n / 2 ^ s
  let r := n % 2 ^ s
  (if 2 ^ s < 2 * r ∨ (2 * r = 2 ^ s ∧ q % 2 = 1) then q + 1 else q) * 2 ^ s

/-- The nearest number of `p` significant binary digits. -/
def roundBits (p n : ℕ) : ℕ := nearestMultiple (n.size - p) n

/-- A number of `p` significant binary digits. -/
def HasBits (p n : ℕ) : Prop := ∃ m e, m < 2 ^ p ∧ n = m * 2 ^ e

theorem nearestMultiple_eq_self_iff {s : ℕ} : nearestMultiple s n = n ↔ 2 ^ s ∣ n := by
  constructor
  · intro h
    exact ⟨_, h.symm.trans (Nat.mul_comm _ _)⟩
  · rintro ⟨q, rfl⟩
    have hpos : 0 < 2 ^ s := Nat.two_pow_pos s
    have hne : ¬ (0 = 2 ^ s) := by omega
    simp [nearestMultiple, Nat.mul_comm, hne]

/-- A multiple that is not below a number is not below the nearest one. -/
theorem nearestMultiple_le {s m : ℕ} (h : n ≤ m * 2 ^ s) : nearestMultiple s n ≤ m * 2 ^ s := by
  have hpos : 0 < 2 ^ s := Nat.two_pow_pos s
  have hdiv := Nat.div_add_mod n (2 ^ s)
  unfold nearestMultiple
  generalize 2 ^ s = unit at *
  simp only
  refine Nat.mul_le_mul_right unit ?_
  split
  · next hup =>
    -- it is rounded up only where it is no multiple
    have hrest : 0 < n % unit := by omega
    refine Nat.lt_of_mul_lt_mul_left (a := unit) ?_
    rw [Nat.mul_comm unit m]
    omega
  · refine Nat.le_of_mul_le_mul_left ?_ hpos
    rw [Nat.mul_comm unit m]
    omega

/-- It is at most half a unit below. -/
theorem le_nearestMultiple {s : ℕ} : 2 * n ≤ 2 * nearestMultiple s n + 2 ^ s := by
  have hpos : 0 < 2 ^ s := Nat.two_pow_pos s
  have hdiv := Nat.div_add_mod n (2 ^ s)
  have hmod := Nat.mod_lt n hpos
  unfold nearestMultiple
  generalize 2 ^ s = unit at *
  simp only
  split
  · next hup =>
    rw [Nat.add_mul, Nat.mul_comm (n / unit)]
    omega
  · next hup =>
    rw [Nat.mul_comm (n / unit)]
    omega

theorem dvd_iff_hasBits : 2 ^ (n.size - p) ∣ n ↔ HasBits p n := by
  constructor
  · rintro ⟨m, hm⟩
    refine ⟨m, n.size - p, ?_, hm.trans (Nat.mul_comm _ _)⟩
    have hlt : n < 2 ^ (n.size - p) * 2 ^ p := by
      rw [← pow_add]
      exact lt_of_lt_of_le n.lt_size_self (Nat.pow_le_pow_right (by omega) (by omega))
    generalize 2 ^ (n.size - p) = unit at hm hlt
    rw [hm] at hlt
    exact Nat.lt_of_mul_lt_mul_left hlt
  · rintro ⟨m, e, hm, rfl⟩
    have hlt : m * 2 ^ e < 2 ^ (p + e) := by
      rw [pow_add]
      exact Nat.mul_lt_mul_of_pos_right hm (Nat.two_pow_pos e)
    have hsize : (m * 2 ^ e).size ≤ p + e := Nat.size_le.mpr hlt
    exact Dvd.dvd.mul_left (Nat.pow_dvd_pow 2 (by omega)) m

theorem roundBits_eq_self_iff : roundBits p n = n ↔ HasBits p n :=
  nearestMultiple_eq_self_iff.trans dvd_iff_hasBits

/-- The double nearest to an integer, as an integer; `none` where it is infinite. -/
def toDouble (n : ℤ) : Option ℤ :=
  if roundBits 53 n.natAbs < 2 ^ 1024 then some (n.sign * roundBits 53 n.natAbs) else none

/-- An integer that is a double. -/
def IsDouble (n : ℤ) : Prop := HasBits 53 n.natAbs ∧ n.natAbs < 2 ^ 1024

theorem toDouble_eq_self_iff {n : ℤ} : toDouble n = some n ↔ IsDouble n := by
  unfold toDouble IsDouble
  rw [← roundBits_eq_self_iff]
  constructor
  · intro h
    split at h
    · next hlt =>
      have hself : roundBits 53 n.natAbs = n.natAbs := by
        have habs := congrArg Int.natAbs (Option.some.inj h)
        rcases eq_or_ne n 0 with rfl | hne
        · rfl
        · rwa [Int.natAbs_mul, Int.natAbs_sign_of_ne_zero hne, Int.natAbs_natCast, one_mul] at habs
      exact ⟨hself, hself ▸ hlt⟩
    · cases h
  · rintro ⟨hself, hlt⟩
    rw [hself, if_pos hlt, Int.sign_mul_natAbs]

/-- Integers of at most 53 bits are doubles. -/
theorem isDouble_of_lt {n : ℤ} (h : n.natAbs < 2 ^ 53) : IsDouble n := by
  have hpow : ∀ k : ℕ, 53 ≤ k → n.natAbs < 2 ^ k := by
    intro k hk
    exact lt_of_lt_of_le h (Nat.pow_le_pow_right (by omega) hk)
  exact ⟨⟨n.natAbs, 0, h, by simp⟩, hpow 1024 (by omega)⟩

end Rounding
