import LlmHomeLab.Lib.Json
import LlmHomeLab.Lib.Rounding

/-! # Python numbers and their texts

Floats are the values of a type with the operations Python has on them; what is known of the
operations that go through a text is in `PyFloat.Lawful`. Integers are written in decimal digits,
of which there may only be so many.
-/

inductive NumError where
  | valueError
  | zeroDivisionError
  | overflowError
  | typeError
  | keyError
deriving DecidableEq, Repr

class PyFloat (V : Type) where
  zero : V
  one : V
  add : V → V → V
  lt : V → V → Bool
  /-- `m / n` of integers. -/
  intDiv : Int → Int → Except NumError V
  /-- `x / n` of a float and an integer. -/
  divInt : V → Int → Except NumError V
  isNan : V → Bool
  /-- `str(x)`. -/
  repr : V → List Char
  /-- `float(text)`; `none` where it raises `ValueError`. -/
  ofText : List Char → Option V
  /-- `int(x)`. -/
  toInt : V → Except NumError Int

namespace PyFloat

/-- The decimal digits of an integer. -/
def digits (n : Int) : List Char := (toString n).toList

/-- `str(n)`; the interpreter refuses integers of more than 4300 digits. -/
def strInt (n : Int) : Except NumError (List Char) :=
  if n.natAbs < 10 ^ 4300 then .ok (digits n) else .error .valueError

variable {V : Type} [PyFloat V]

/-- A float's text is read back as the float, and the digits of an integer as the nearest
float. -/
structure Lawful (V : Type) [PyFloat V] : Prop where
  ofText_repr : ∀ v : V, isNan v = false → ofText (repr v) = some v
  ofText_nan : ∀ v : V, isNan v = true → ∃ w : V, ofText (repr v) = some w ∧ isNan w = true
  repr_ne : ∀ v : V, repr v ≠ []
  repr_visible : ∀ v : V, ∀ c ∈ repr v, Json.isSpace c = false
  ofText_digits : ∀ n : Int, ∃ v : V, ofText (digits n) = some v ∧
    toInt v = (Rounding.toDouble n).elim (.error .overflowError) .ok

/-! ## Operations that may raise -/

/-- A computation of two steps succeeds where the first does and the rest does for its result. -/
theorem except_seq_iff {ε α β : Type} {x : Except ε α} {f : α → Except ε β} {p : Prop}
    (h : ∀ a, x = .ok a → ((∃ b, f a = .ok b) ↔ p)) :
    (∃ b, (x >>= f) = .ok b) ↔ (∃ a, x = .ok a) ∧ p := by
  cases x with
  | error e =>
    refine iff_of_false (fun ⟨b, hb⟩ => by cases hb) ?_
    rintro ⟨⟨a, ha⟩, -⟩
    cases ha
  | ok a =>
    refine (h a rfl).trans ⟨fun hp => ⟨⟨a, rfl⟩, hp⟩, And.right⟩

/-- The last step of a computation. -/
theorem except_last_iff {ε α β : Type} {x : Except ε α} {g : α → β} :
    (∃ b, (x >>= fun a => pure (g a)) = .ok b) ↔ ∃ a, x = .ok a := by
  have hpure : ∀ a, x = .ok a → ((∃ b, (pure (g a) : Except ε β) = .ok b) ↔ True) :=
    fun a _ => iff_of_true ⟨g a, rfl⟩ trivial
  rw [except_seq_iff hpure, and_true]

/-- A computation of two steps raises what one of them raises. -/
theorem except_bind_error {ε α β : Type} {x : Except ε α} {f : α → Except ε β} {e : ε}
    (h : (x >>= f) = .error e) : x = .error e ∨ ∃ a, x = .ok a ∧ f a = .error e := by
  cases x with
  | error e' =>
    cases h
    exact Or.inl rfl
  | ok a => exact Or.inr ⟨a, rfl, h⟩

/-- The integer has few enough digits to be written. -/
def Short (n : Int) : Prop := n.natAbs < 10 ^ 4300

theorem strInt_ok_iff {n : Int} : (∃ text, strInt n = .ok text) ↔ Short n := by
  unfold strInt Short
  split
  · next h => exact iff_of_true ⟨_, rfl⟩ h
  · next h => exact iff_of_false (fun ⟨_, hok⟩ => by cases hok) h

/-- `2 ^ 1024` less half a unit in the last place of the largest double: the least number that
rounds to infinity. -/
def overflow : ℕ := (2 ^ 54 - 1) * 2 ^ 970

theorem lt_overflow {m : ℕ} (h : m < 2 ^ 54 - 1) : m < overflow := by
  have hpow : ∀ k : ℕ, 1 ≤ 2 ^ k := fun k => Nat.one_le_two_pow
  exact lt_of_lt_of_le h (Nat.le_mul_of_pos_right _ (hpow 970))

/-- A power of two has no more decimal digits than binary ones. -/
theorem short_of_lt_two_pow {n : Int} {b : ℕ} (h : n.natAbs < 2 ^ b) (hb : b ≤ 4300) : Short n := by
  have hten : ∀ {m : ℕ}, b ≤ m → 2 ^ b ≤ 10 ^ m := fun hm =>
    (Nat.pow_le_pow_left (by omega) _).trans (Nat.pow_le_pow_right (by omega) hm)
  exact lt_of_lt_of_le h (hten hb)

/-- What is not too large for a float has few enough digits. -/
theorem short_of_lt_overflow {n : Int} (h : n.natAbs < overflow) : Short n := by
  have hpow : overflow ≤ 2 ^ (54 + 970) := by
    have hle : 2 ^ 54 - 1 ≤ 2 ^ 54 := Nat.sub_le _ _
    rw [pow_add]
    exact Nat.mul_le_mul_right _ hle
  exact short_of_lt_two_pow (lt_of_lt_of_le h hpow) (by omega)

/-- Quotients are rounded to the nearest float: they raise where the divisor is zero and where the
result, or the divisor of a float, is too large, and they keep the order of the exact quotients. -/
structure Divides (V : Type) [PyFloat V] : Prop where
  intDiv_ok_iff : ∀ m n : Int, (∃ v : V, intDiv m n = .ok v) ↔
    n ≠ 0 ∧ m.natAbs < overflow * n.natAbs
  divInt_ok_iff : ∀ (x : V) (n : Int), (∃ v : V, divInt x n = .ok v) ↔
    n ≠ 0 ∧ n.natAbs < overflow
  isNan_intDiv : ∀ (m n : Int) (v : V), intDiv m n = .ok v → isNan v = false
  intDiv_mono : ∀ (m n m' n' : Int) (v w : V), intDiv m n = .ok v → intDiv m' n' = .ok w →
    (m : ℚ) / n ≤ m' / n' → lt w v = false
  intDiv_zero : ∀ n : Int, 0 < n → intDiv 0 n = .ok (zero : V)
  intDiv_self : ∀ n : Int, 0 < n → intDiv n n = .ok (one : V)

/-- A division by an integer other than zero raises nothing but `OverflowError`. -/
structure OnlyOverflows (V : Type) [PyFloat V] : Prop where
  intDiv : ∀ (m n : Int) (e : NumError), n ≠ 0 → intDiv m n = (.error e : Except NumError V) →
    e = .overflowError
  divInt : ∀ (x : V) (n : Int) (e : NumError), n ≠ 0 → divInt x n = .error e → e = .overflowError

/-- A float from 0 to 1. -/
structure InUnit (v : V) : Prop where
  number : isNan v = false
  notBelow : lt v zero = false
  notAbove : lt one v = false

/-- A part of a whole. -/
theorem Divides.inUnit (hV : Divides V) {m n : Int} (h0 : 0 ≤ m) (hle : m ≤ n) (hpos : 0 < n) :
    ∃ v : V, intDiv m n = .ok v ∧ InUnit v := by
  have hbound : m.natAbs < overflow * n.natAbs := by
    have hn : 0 < n.natAbs := by omega
    have hone := Nat.mul_lt_mul_of_pos_right (lt_overflow (by decide : 1 < 2 ^ 54 - 1)) hn
    omega
  obtain ⟨v, hv⟩ := (hV.intDiv_ok_iff m n).mpr ⟨hpos.ne', hbound⟩
  have hn : (0 : ℚ) < n := by exact_mod_cast hpos
  refine ⟨v, hv, hV.isNan_intDiv m n v hv, ?_, ?_⟩
  · refine hV.intDiv_mono 0 n m n zero v (hV.intDiv_zero n hpos) hv ?_
    gcongr
  · refine hV.intDiv_mono m n n n v one hv (hV.intDiv_self n hpos) ?_
    gcongr

theorem Divides.inUnit_one (hV : Divides V) : InUnit (one : V) := by
  obtain ⟨v, hv, hunit⟩ := hV.inUnit (by decide : (0 : Int) ≤ 1) le_rfl (by decide)
  rw [hV.intDiv_self 1 (by decide)] at hv
  cases hv
  exact hunit

/-! ## Digits -/

theorem mem_digits {n : Int} {c : Char} (hc : c ∈ digits n) : c.isDigit = true ∨ c = '-' := by
  have hdigit : ∀ (m : ℕ), c ∈ m.repr.toList → c.isDigit = true := by
    intro m hm
    rw [Nat.toList_repr] at hm
    exact Nat.isDigit_of_mem_toDigits (by decide) (by decide) hm
  cases n with
  | ofNat m => exact Or.inl (hdigit m hc)
  | negSucc m =>
    have hlist : digits (.negSucc m) = '-' :: (m + 1).repr.toList := by
      show ("-" ++ (m + 1).repr).toList = _
      simp
    rw [hlist] at hc
    rcases List.mem_cons.mp hc with hminus | hc
    · exact Or.inr hminus
    · exact Or.inl (hdigit _ hc)

theorem digits_visible (n : Int) : ∀ c ∈ digits n, Json.isSpace c = false := by
  intro c hc
  rcases mem_digits hc with hd | rfl
  · simp only [Char.isDigit, Bool.and_eq_true, decide_eq_true_eq] at hd
    have hlo : 48 ≤ c.toNat := UInt32.le_iff_toNat_le.mp hd.1
    have hhi : c.toNat ≤ 57 := UInt32.le_iff_toNat_le.mp hd.2
    rw [Bool.eq_false_iff]
    simp only [Json.isSpace, Bool.decide_or, Bool.decide_and, ne_eq, Bool.or_eq_true,
      Bool.and_eq_true, decide_eq_true_eq]
    omega
  · decide

theorem digits_ne (n : Int) : digits n ≠ [] := by
  have hne : ∀ m : ℕ, m.repr.toList ≠ [] := by
    intro m
    rw [Nat.toList_repr]
    exact Nat.toDigits_ne_nil
  cases n with
  | ofNat m => exact hne m
  | negSucc m =>
    show ("-" ++ (m + 1).repr).toList ≠ _
    simp

end PyFloat
