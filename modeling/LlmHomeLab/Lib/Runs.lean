import Mathlib

/-! # Runs of a labelled transition system

`Run Next s es t`: the system goes from `s` to `t` by taking, in this order, one step for
every label of `es`. Invariants are proved by induction along a run; a property of one
step somewhere in a run is reached by splitting the run at its label.
-/

universe u v

variable {σ : Type u} {ε : Type v}

/-- A finite run, built up at its end. -/
inductive Run (Next : σ → ε → σ → Prop) (s : σ) : List ε → σ → Prop
  | nil : Run Next s [] s
  | snoc {es : List ε} {t u : σ} {e : ε} :
      Run Next s es t → Next t e u → Run Next s (es ++ [e]) u

/-- The steps of `Next` that are taken where `G` allows them. -/
def Guarded (G : σ → ε → Prop) (Next : σ → ε → σ → Prop) (s : σ) (e : ε) (t : σ) : Prop :=
  G s e ∧ Next s e t

/-- The relation of a partial step function. -/
def Fires (step : σ → ε → Option σ) (s : σ) (e : ε) (t : σ) : Prop := step s e = some t

namespace Run

variable {Next : σ → ε → σ → Prop} {s t u : σ} {es fs : List ε} {e : ε}

/-- Standard invariant induction. -/
theorem invariant (Inv : σ → Prop) (hrun : Run Next s es t) (hinit : Inv s)
    (hstep : ∀ a e b, Next a e b → Inv a → Inv b) : Inv t := by
  induction hrun with
  | nil => exact hinit
  | snoc _ hnext ih => exact hstep _ _ _ hnext ih

theorem mono {Next' : σ → ε → σ → Prop} (h : ∀ a e b, Next a e b → Next' a e b)
    (hrun : Run Next s es t) : Run Next' s es t := by
  induction hrun with
  | nil => exact .nil
  | snoc _ hnext ih => exact .snoc ih (h _ _ _ hnext)

/-- A run whose labels the guard allows in every state. -/
theorem guard {G : σ → ε → Prop} (hrun : Run Next s es t) (h : ∀ e ∈ es, ∀ a, G a e) :
    Run (Guarded G Next) s es t := by
  induction hrun with
  | nil => exact .nil
  | snoc _ hnext ih =>
    refine .snoc (ih fun e he => h e (List.mem_append_left _ he)) ⟨?_, hnext⟩
    exact h _ (List.mem_append_right _ List.mem_cons_self) _

theorem append (h₁ : Run Next s es t) (h₂ : Run Next t fs u) : Run Next s (es ++ fs) u := by
  induction h₂ with
  | nil => simpa using h₁
  | snoc _ hnext ih =>
    rw [← List.append_assoc]
    exact .snoc ih hnext

theorem single (h : Next s e t) : Run Next s [e] t := by
  simpa using Run.snoc Run.nil h

theorem nil_eq (h : Run Next s [] t) : t = s := by
  generalize hes : ([] : List ε) = es at h
  cases h with
  | nil => rfl
  | snoc _ _ => simp at hes

/-- Take the last step of a run apart. -/
theorem of_snoc (h : Run Next s (es ++ [e]) u) : ∃ t, Run Next s es t ∧ Next t e u := by
  generalize hes : es ++ [e] = es' at h
  cases h with
  | nil => simp at hes
  | snoc hrun hnext =>
    obtain ⟨rfl, he⟩ := List.append_inj' hes rfl
    simp only [List.cons.injEq, and_true] at he
    subst he
    exact ⟨_, hrun, hnext⟩

theorem split (h : Run Next s (es ++ fs) u) : ∃ t, Run Next s es t ∧ Run Next t fs u := by
  induction fs using List.reverseRecOn generalizing u with
  | nil =>
    rw [List.append_nil] at h
    exact ⟨u, h, .nil⟩
  | append_singleton fs e ih =>
    rw [← List.append_assoc] at h
    obtain ⟨v, hv, hnext⟩ := of_snoc h
    obtain ⟨t, ht, hfs⟩ := ih hv
    exact ⟨t, ht, .snoc hfs hnext⟩

/-- Split a run at one of its labels. -/
theorem split_at (h : Run Next s (es ++ e :: fs) u) :
    ∃ t t', Run Next s es t ∧ Next t e t' ∧ Run Next t' fs u := by
  rw [List.append_cons] at h
  obtain ⟨t', h', hfs⟩ := split h
  obtain ⟨t, ht, hnext⟩ := of_snoc h'
  exact ⟨t, t', ht, hnext, hfs⟩

/-- Take the first step of a run apart. -/
theorem of_cons (h : Run Next s (e :: es) u) : ∃ t, Next s e t ∧ Run Next t es u := by
  have hsplit : Run Next s ([] ++ e :: es) u := h
  obtain ⟨t, t', hnil, hnext, hrest⟩ := split_at hsplit
  rw [hnil.nil_eq] at hnext
  exact ⟨t', hnext, hrest⟩

/-- A run seen through a function that takes each step to a step or to nothing. -/
theorem image {τ δ : Type*} {Next' : τ → δ → τ → Prop} (f : σ → τ)
    (h : ∀ a e b, Next a e b → f b = f a ∨ ∃ d, Next' (f a) d (f b)) (hrun : Run Next s es t) :
    ∃ ds, Run Next' (f s) ds (f t) := by
  induction hrun with
  | nil => exact ⟨[], .nil⟩
  | snoc _ hnext ih =>
    obtain ⟨ds, hds⟩ := ih
    rcases h _ _ _ hnext with hsame | ⟨d, hd⟩
    · rw [hsame]
      exact ⟨ds, hds⟩
    · exact ⟨ds ++ [d], .snoc hds hd⟩

/-- What holds at the end of a run and not at its start came to hold in one of its steps. -/
theorem exists_step {P : σ → Prop} (hrun : Run Next s es t) (hinit : ¬ P s) (hend : P t) :
    ∃ pre e post a b, es = pre ++ e :: post ∧ Run Next s pre a ∧ Next a e b ∧ Run Next b post t ∧
      ¬ P a ∧ P b := by
  induction hrun with
  | nil => exact absurd hend hinit
  | @snoc es a b e hrun hnext ih =>
    by_cases ha : P a
    · obtain ⟨pre, e', post, c, d, rfl, hpre, hstep, hpost, hc, hd⟩ := ih ha
      refine ⟨pre, e', post ++ [e], c, d, by simp, hpre, hstep, .snoc hpost hnext, hc, hd⟩
    · exact ⟨es, e, [], a, b, rfl, hrun, hnext, .nil, ha, hend⟩

end Run

/-! ## Executable runs -/

/-- Run a partial step function over a list of labels. -/
def exec (step : σ → ε → Option σ) (s : σ) : List ε → Option σ
  | [] => some s
  | e :: es => (step s e).bind fun t => exec step t es

theorem run_of_exec {step : σ → ε → Option σ} {s t : σ} {es : List ε}
    (h : exec step s es = some t) : Run (Fires step) s es t := by
  induction es generalizing s with
  | nil =>
    cases h
    exact .nil
  | cons e es ih =>
    obtain ⟨u, hu, ht⟩ := Option.bind_eq_some_iff.mp h
    have happ := Run.append (Run.single hu) (ih ht)
    exact happ

/-- The labels determine where a partial step function leads. -/
theorem Run.unique {step : σ → ε → Option σ} {s t u : σ} {es : List ε}
    (ht : Run (Fires step) s es t) (hu : Run (Fires step) s es u) : t = u := by
  induction ht generalizing u with
  | nil => exact hu.nil_eq.symm
  | snoc _ hstep ih =>
    rcases hu.of_snoc with ⟨v, hv, hstep'⟩
    rw [← ih hv] at hstep'
    exact Option.some.inj (hstep.symm.trans hstep')

/-- What the executed steps show of the state they end in. -/
theorem run_of_shows {step : σ → ε → Option σ} {s : σ} {es : List ε} {α : Type*} {shown : σ → α}
    {a : α} (h : (exec step s es).map shown = some a) :
    ∃ t, Run (Fires step) s es t ∧ shown t = a := by
  obtain ⟨t, ht, ha⟩ := Option.map_eq_some_iff.mp h
  exact ⟨t, run_of_exec ht, ha⟩

/-- The partial step function that is stuck where the guard does not hold. -/
def guardedStep (G : σ → ε → Prop) [∀ s e, Decidable (G s e)] (step : σ → ε → Option σ) (s : σ)
    (e : ε) : Option σ :=
  if G s e then step s e else none

theorem run_of_guardedStep {G : σ → ε → Prop} [∀ s e, Decidable (G s e)]
    {step : σ → ε → Option σ} {s t : σ} {es : List ε}
    (hrun : Run (Fires (guardedStep G step)) s es t) : Run (Guarded G (Fires step)) s es t := by
  refine hrun.mono fun a e b h => ?_
  unfold Fires guardedStep at h
  split at h
  · next hguard => exact ⟨hguard, h⟩
  · cases h
