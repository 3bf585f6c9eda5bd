import LlmHomeLab.Backends.Retry
import LlmHomeLab.Lib.RoundRobin

/-! # The aliases of a model take turns

`_resolve_model` keeps a cursor for each model name, which it reduces when it is read. Whatever
names are resolved in between, the aliases of one name are picked in turn.
-/

namespace LlmHomeLab

/-- One call of `_resolve_model`: the name it was for, the index it computed (none where there are
no aliases) and what it returned. -/
structure AliasPick where
  model : String
  index : Option Nat
  resolved : String
deriving DecidableEq, Repr

namespace LMStudio

variable {backend : LMStudio} {model : String} {names : List String}

/-- A backend as it is built. -/
def new (maxRetries : Nat) (modelAliases : Option (Dict String (List String))) : LMStudio where
  maxRetries
  modelAliases := modelAliases.getD .empty
  aliasCursor := .empty

/-- `index` of `_resolve_model`. -/
def aliasIndex (backend : LMStudio) (model : String) : Option Nat :=
  match backend.modelAliases.get? model with
  | none => none
  | some [] => none
  | some (first :: rest) =>
    some ((backend.aliasCursor.get? model).getD 0 % (first :: rest).length)

/-- The calls of `_resolve_model` one after the other. -/
def resolveAll : LMStudio → List String → List AliasPick
  | _, [] => []
  | backend, model :: calls =>
    ⟨model, backend.aliasIndex model, (backend.resolveModel model).1⟩ ::
      (backend.resolveModel model).2.resolveAll calls

/-! ## One call -/

@[simp] theorem modelAliases_resolveModel :
    (backend.resolveModel model).2.modelAliases = backend.modelAliases := by
  unfold resolveModel
  split <;> rfl

/-- With aliases, the one at the index is returned and the cursor is left behind it. -/
theorem resolveModel_of_aliases (h : backend.modelAliases.get? model = some names)
    (hne : names ≠ []) : ∃ index < names.length,
      index = (backend.aliasCursor.get? model).getD 0 % names.length ∧
      backend.aliasIndex model = some index ∧
      (backend.resolveModel model).1 = names.getD index model ∧
      (backend.resolveModel model).2.aliasCursor = backend.aliasCursor.set model (index + 1) := by
  cases names with
  | nil => exact absurd rfl hne
  | cons first rest =>
    have hlt : (backend.aliasCursor.get? model).getD 0 % (first :: rest).length <
        (first :: rest).length := Nat.mod_lt _ (List.length_pos_iff.mpr hne)
    exact ⟨_, hlt, rfl, by rw [aliasIndex, h], by rw [resolveModel, h], by rw [resolveModel, h]⟩

/-- Without aliases nothing happens. -/
theorem resolveModel_of_none
    (h : ∀ names, backend.modelAliases.get? model = some names → names = []) :
    backend.resolveModel model = (model, backend) ∧ backend.aliasIndex model = none := by
  unfold resolveModel aliasIndex
  cases hget : backend.modelAliases.get? model with
  | none => exact ⟨rfl, rfl⟩
  | some names =>
    rw [h names hget]
    exact ⟨rfl, rfl⟩

/-! ## The calls so far -/

/-- Every cursor stands where the calls for its name have brought it. -/
def Served (backend : LMStudio) (served : String → Nat) : Prop :=
  ∀ model names, backend.modelAliases.get? model = some names → names ≠ [] →
    (backend.aliasCursor.get? model).getD 0 % names.length = served model % names.length

theorem served_new (maxRetries : Nat) (modelAliases : Option (Dict String (List String))) :
    (new maxRetries modelAliases).Served fun _ => 0 := fun _ _ _ _ => rfl

theorem served_resolveModel {served : String → Nat} (h : backend.Served served) (model : String) :
    (backend.resolveModel model).2.Served (Function.update served model (served model + 1)) := by
  intro other names hnames hne
  rw [modelAliases_resolveModel] at hnames
  by_cases hother : other = model
  · subst hother
    obtain ⟨index, -, hindex, -, -, hcursor⟩ := resolveModel_of_aliases hnames hne
    rw [hcursor, Dict.get?_set_self, Function.update_self, Option.getD_some, hindex,
      h other names hnames hne, Nat.mod_add_mod]
  · rw [Function.update_of_ne hother, ← h other names hnames hne]
    -- the cursor of another name is left alone
    by_cases haliases : ∃ others, backend.modelAliases.get? model = some others ∧ others ≠ []
    · obtain ⟨others, hothers, hothersNe⟩ := haliases
      obtain ⟨index, -, -, -, -, hcursor⟩ := resolveModel_of_aliases hothers hothersNe
      rw [hcursor, Dict.get?_set_of_ne _ hother]
    · push Not at haliases
      rw [(resolveModel_of_none haliases).1]

/-! ## All calls -/

/-- The picks for one name. -/
def picksOf (backend : LMStudio) (calls : List String) (model : String) : List AliasPick :=
  (backend.resolveAll calls).filter fun pick => pick.model = model

theorem picksOf_cons (first : String) (calls : List String) :
    backend.picksOf (first :: calls) model =
      if first = model then
        ⟨model, backend.aliasIndex model, (backend.resolveModel model).1⟩ ::
          (backend.resolveModel model).2.picksOf calls model
      else (backend.resolveModel first).2.picksOf calls model := by
  unfold picksOf
  rw [resolveAll, List.filter_cons]
  by_cases h : first = model
  · subst h
    simp only [decide_true, if_true]
  · simp only [decide_eq_true_eq, if_neg h]

theorem picksOf_of_aliases {served : String → Nat} (h : backend.Served served)
    (hnames : backend.modelAliases.get? model = some names) (hne : names ≠ [])
    (calls : List String) :
    backend.picksOf calls model =
      (RoundRobin.turns names.length (served model) (calls.count model)).map
        fun index => ⟨model, some index, names.getD index model⟩ := by
  induction calls generalizing backend served with
  | nil => rfl
  | cons first calls ih =>
    rw [picksOf_cons]
    have hrest := ih (served_resolveModel h first) (by rw [modelAliases_resolveModel]; exact hnames)
    by_cases hfirst : first = model
    · subst hfirst
      obtain ⟨index, -, hindex, hpicked, hresolved, -⟩ := resolveModel_of_aliases hnames hne
      rw [Function.update_self] at hrest
      rw [if_pos rfl, List.count_cons_self, RoundRobin.turns_succ, List.map_cons, hrest,
        ← h first names hnames hne, ← hindex, hpicked, hresolved]
    · rw [Function.update_of_ne (Ne.symm hfirst)] at hrest
      rw [if_neg hfirst, List.count_cons_of_ne hfirst, hrest]

theorem resolved_of_none
    (h : ∀ names, backend.modelAliases.get? model = some names → names = []) (calls : List String) :
    ∀ pick ∈ backend.picksOf calls model, pick.resolved = model := by
  induction calls generalizing backend with
  | nil => exact fun _ hpick => by cases hpick
  | cons first calls ih =>
    rw [picksOf_cons]
    split
    · refine List.forall_mem_cons.mpr ⟨by rw [(resolveModel_of_none h).1], ih ?_⟩
      rw [modelAliases_resolveModel]
      exact h
    · refine ih ?_
      rw [modelAliases_resolveModel]
      exact h

/-- The calls for a name pick its aliases in turn, however many there are and whatever other names
are resolved between them; so no alias has been picked two times more than another. A name without
aliases stays as it is. -/
theorem aliases_take_turns (maxRetries : Nat) (modelAliases : Option (Dict String (List String)))
    (calls : List String) (model : String) :
    (∀ names, (modelAliases.getD .empty).get? model = some names → names ≠ [] →
      (new maxRetries modelAliases).picksOf calls model =
        (List.range (calls.count model)).map (fun turn =>
          ⟨model, some (turn % names.length), names.getD (turn % names.length) model⟩) ∧
      (∀ p < names.length, ∀ q < names.length,
        ((new maxRetries modelAliases).picksOf calls model).countP (·.index = some p) ≤
          ((new maxRetries modelAliases).picksOf calls model).countP (·.index = some q) + 1) ∧
      (new maxRetries modelAliases).picksOf calls model =
        (new maxRetries modelAliases).picksOf (calls.filter (· = model)) model) ∧
    ((∀ names, (modelAliases.getD .empty).get? model = some names → names = []) →
      ∀ pick ∈ (new maxRetries modelAliases).picksOf calls model, pick.resolved = model) := by
  refine ⟨fun names hnames hne => ?_, fun h => resolved_of_none h calls⟩
  have hpicks := picksOf_of_aliases (served_new maxRetries modelAliases) hnames hne
  have hcount : ∀ p, ((new maxRetries modelAliases).picksOf calls model).countP (·.index = some p) =
      (RoundRobin.turns names.length 0 (calls.count model)).count p := by
    intro p
    rw [hpicks calls, List.countP_map, List.count]
    exact List.countP_congr fun index _ => by simp
  refine ⟨?_, fun p hp q hq => ?_, ?_⟩
  · rw [hpicks calls, RoundRobin.turns, ← List.range_eq_range', List.map_map]
    rfl
  · rw [hcount p, hcount q]
    exact RoundRobin.balanced hp hq
  · have hsame : (calls.filter (· = model)).count model = calls.count model :=
      List.count_filter (by simp)
    rw [hpicks calls, hpicks (calls.filter (· = model)), hsame]

/-- Two names, the calls for one between those for the other. -/
example :
    (new 2 (some ⟨[("m", ["a", "b"]), ("n", ["c"])], by decide⟩)).resolveAll
        ["m", "n", "m", "x", "m"] =
      [⟨"m", some 0, "a"⟩, ⟨"n", some 0, "c"⟩, ⟨"m", some 1, "b"⟩, ⟨"x", none, "x"⟩,
        ⟨"m", some 0, "a"⟩] := by decide +kernel

end LMStudio

end LlmHomeLab
