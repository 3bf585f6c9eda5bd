import LlmHomeLab.Lib.Dict

/-! # Totals and extremes kept by key

A table that is changed value by value, `d[key] = step(d.get(key), x)`, has under a key what the
steps make of the values that came with it. Sums and extremes are such steps.
-/

universe u v w

namespace Tally

variable {κ : Type u} {α : Type v} {σ : Type w} {step : Option σ → α → σ}

/-- What the steps make of the values, and nothing of no values. -/
def of (step : Option σ → α → σ) (values : List α) : Option σ :=
  values.foldl (fun acc x => some (step acc x)) none

theorem of_append_singleton (values : List α) (x : α) :
    of step (values ++ [x]) = some (step (of step values) x) := by
  rw [of, List.foldl_append]
  rfl

theorem of_cons (x : α) (values : List α) :
    of step (x :: values) = some (values.foldl (fun a y => step (some a) y) (step none x)) := by
  have hsome : ∀ (l : List α) (a : σ), l.foldl (fun acc y => some (step acc y)) (some a) =
      some (l.foldl (fun a y => step (some a) y) a) := by
    intro l
    induction l with
    | nil => exact fun _ => rfl
    | cons y l ih => exact fun a => ih (step (some a) y)
  exact hsome values (step none x)

theorem of_map {β : Type*} (f : β → α) (values : List β) :
    of (fun acc b => step acc (f b)) values = of step (values.map f) := by
  rw [of, of, List.foldl_map]

/-! ## Steps -/

/-- `total += x`, from a default. -/
def plus (add : σ → α → σ) (zero : σ) (total : Option σ) (x : α) : σ := add (total.getD zero) x

/-- `min(d.get(key, x), x)`. -/
def least [Min α] (low : Option α) (x : α) : α := min (low.getD x) x

/-- `max(d.get(key, x), x)`. -/
def most [Max α] (high : Option α) (x : α) : α := max (high.getD x) x

theorem of_plus {add : σ → α → σ} {zero : σ} {values : List α} (h : values ≠ []) :
    of (plus add zero) values = some (values.foldl add zero) := by
  cases values with
  | nil => exact absurd rfl h
  | cons x values => exact of_cons x values

section

variable {β : Type*} [LinearOrder β]

theorem of_least (values : List β) : of least values = values.min? := by
  cases values with
  | nil => rfl
  | cons x values =>
    rw [of_cons, List.min?_cons']
    simp only [least, Option.getD_some, Option.getD_none, min_self]

theorem of_most (values : List β) : of most values = values.max? := by
  cases values with
  | nil => rfl
  | cons x values =>
    rw [of_cons, List.max?_cons']
    simp only [most, Option.getD_some, Option.getD_none, max_self]

end

/-- The least value, taken as often as there are values, is no more than the sum. -/
theorem least_mul_length_le_sum {values : List ℤ} {low : ℤ} (h : values.min? = some low) :
    low * values.length ≤ values.sum := by
  have hbound := List.card_nsmul_le_sum values low fun n hn => (List.min?_eq_some_iff.mp h).2 n hn
  rwa [nsmul_eq_mul, mul_comm] at hbound

theorem sum_le_most_mul_length {values : List ℤ} {high : ℤ} (h : values.max? = some high) :
    values.sum ≤ high * values.length := by
  have hbound := List.sum_le_card_nsmul values high fun n hn => (List.max?_eq_some_iff.mp h).2 n hn
  rwa [nsmul_eq_mul, mul_comm] at hbound

/-! ## Tables -/

variable [DecidableEq κ]

/-- The table has what the steps make of the values of each key. -/
def Holds (step : Option σ → α → σ) (d : Dict κ σ) (values : κ → List α) : Prop :=
  ∀ k, d.get? k = of step (values k)

theorem Holds.empty : Holds step (Dict.empty : Dict κ σ) fun _ => [] := fun _ => rfl

theorem Holds.set {d : Dict κ σ} {values : κ → List α} (h : Holds step d values) (key : κ) (x : α) :
    Holds step (d.set key (step (d.get? key) x))
      fun k => if k = key then values k ++ [x] else values k := by
  intro k
  rw [Dict.get?_set]
  by_cases hk : k = key
  · subst hk
    simp only [if_true, of_append_singleton, h k]
  · simp only [if_neg hk, h k]

end Tally
