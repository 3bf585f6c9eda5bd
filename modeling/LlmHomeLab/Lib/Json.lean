import Mathlib

/-! # Parsed JSON values and how Python reads them

Values as `json.loads` returns them, with the accesses Python code makes on them: truth,
`.get`, `[key]`, `[0]`, `.strip`. An access on a value of the wrong kind raises, and
`PyError` says what.
-/

/-- Exceptions of the built-in types. -/
inductive PyError where
  | attributeError
  | typeError
  | keyError
  | indexError
deriving DecidableEq, Repr

/-- A parsed value. A dictionary has every key once, so looking up the first pair is looking
up the only one. -/
inductive Json where
  | null
  | bool (b : Bool)
  | num (n : ℚ)
  | str (s : String)
  | arr (items : List Json)
  | obj (fields : List (String × Json))

namespace Json

def isNull : Json → Bool
  | .null => true
  | _ => false

/-- `bool(value)`. -/
def truthy : Json → Bool
  | .null => false
  | .bool b => b
  | .num n => n ≠ 0
  | .str s => s ≠ ""
  | .arr items => !items.isEmpty
  | .obj fields => !fields.isEmpty

/-- The numbers of Python's arithmetic; a boolean is one of them. -/
def numeric : Json → Bool
  | .num _ => true
  | .bool _ => true
  | _ => false

/-- The field of an object, if it has one. -/
def field? (key : String) : Json → Option Json
  | .obj fields => fields.lookup key
  | _ => none

/-- `value.get(key, default)`. -/
def get (value : Json) (key : String) (default : Json) : Except PyError Json :=
  match value with
  | .obj _ => .ok ((value.field? key).getD default)
  | _ => .error .attributeError

/-- `value[key]`. -/
def item (value : Json) (key : String) : Except PyError Json :=
  match value with
  | .obj _ => (value.field? key).elim (.error .keyError) .ok
  | _ => .error .typeError

/-- `value[0]`. -/
def first : Json → Except PyError Json
  | .arr [] => .error .indexError
  | .arr (x :: _) => .ok x
  | .str s =>
    match s.toList with
    | [] => .error .indexError
    | c :: _ => .ok (.str (String.ofList [c]))
  | .obj _ => .error .keyError
  | _ => .error .typeError

/-- The text of a string value, and nothing for any other value. -/
def text : Json → String
  | .str s => s
  | _ => ""

def isStr : Json → Bool
  | .str _ => true
  | _ => false

/-- `"".join(parts)`. -/
def join (parts : List Json) : Except PyError String :=
  if parts.all isStr then .ok (String.join (parts.map text)) else .error .typeError

/-- The characters `str.strip` removes. -/
def isSpace (c : Char) : Bool :=
  let n := c.toNat
  (9 ≤ n ∧ n ≤ 13) ∨ (28 ≤ n ∧ n ≤ 32) ∨ n = 0x85 ∨ n = 0xa0 ∨ n = 0x1680 ∨
    (0x2000 ≤ n ∧ n ≤ 0x200a) ∨ n = 0x2028 ∨ n = 0x2029 ∨ n = 0x202f ∨ n = 0x205f ∨ n = 0x3000

/-- Whether `value.strip()` is non-empty. -/
def stripped : Json → Except PyError Bool
  | .str s => .ok (s.toList.any fun c => !isSpace c)
  | _ => .error .attributeError

/-- The last value that is not `None`, else `init`. -/
def lastNonNull (init : Json) (values : List Json) : Json :=
  values.foldl (fun acc v => if v.isNull then acc else v) init

/-! ## Accesses that go through -/

theorem except_bind_ok {ε α β : Type} {x : Except ε α} {f : α → Except ε β} {b : β}
    (h : (x >>= f) = .ok b) : ∃ a, x = .ok a ∧ f a = .ok b := by
  cases x with
  | error e => cases h
  | ok a => exact ⟨a, rfl, h⟩

theorem except_ok_bind {ε α β : Type} (a : α) (f : α → Except ε β) :
    ((.ok a : Except ε α) >>= f) = f a := rfl

theorem get_ok {v d x : Json} {key : String} (h : v.get key d = .ok x) :
    x = (v.field? key).getD d := by
  cases v <;> simp_all [get]

theorem item_ok {v x : Json} {key : String} (h : v.item key = .ok x) :
    v.field? key = some x := by
  cases v with
  | obj fields => cases hf : field? key (.obj fields) <;> simp_all [item]
  | _ => simp [item] at h

/-- A value with a field is an object, and has every field read. -/
theorem get_of_field {v x : Json} {key : String} (h : v.field? key = some x) (other : String)
    (d : Json) : v.get other d = .ok ((v.field? other).getD d) := by
  cases v with
  | obj fields => rfl
  | _ => cases h

theorem item_of_field {v x : Json} {key : String} (h : v.field? key = some x) :
    v.item key = .ok x := by
  cases v with
  | obj fields => rw [item, h]; rfl
  | _ => cases h

theorem first_ok {v x : Json} (h : v.first = .ok x) :
    (∃ rest, v = .arr (x :: rest)) ∨ x.isStr = true := by
  cases v with
  | arr items => cases items <;> simp_all [first]
  | str s =>
    right
    simp only [first] at h
    split at h
    · cases h
    · cases h
      rfl
  | _ => simp [first] at h

theorem join_ok {parts : List Json} {s : String} (h : join parts = .ok s) :
    s = String.join (parts.map text) := by
  unfold join at h
  split at h
  · exact (Except.ok.inj h).symm
  · cases h

theorem stripped_ok {v : Json} {b : Bool} (h : v.stripped = .ok b) : v.isStr = true := by
  cases v <;> simp_all [stripped, isStr]

theorem isNull_iff {v : Json} : v.isNull = true ↔ v = .null := by
  cases v <;> simp [isNull]

theorem text_of_not_truthy {v : Json} (h : v.truthy = false) : v.text = "" := by
  cases v <;> simp_all [truthy, text]

@[simp] theorem lastNonNull_nil (init : Json) : lastNonNull init [] = init := rfl

theorem lastNonNull_cons (init v : Json) (vs : List Json) :
    lastNonNull init (v :: vs) = lastNonNull (if v.isNull then init else v) vs := rfl

/-- Either every value is `None`, or the last one that is not is among them. -/
theorem lastNonNull_cases (init : Json) (vs : List Json) :
    ((∀ v ∈ vs, v.isNull = true) ∧ lastNonNull init vs = init) ∨
      (∃ v ∈ vs, v.isNull = false ∧ lastNonNull init vs = v) := by
  induction vs generalizing init with
  | nil => exact Or.inl ⟨by simp, rfl⟩
  | cons v vs ih =>
    rw [lastNonNull_cons]
    cases hv : v.isNull with
    | true =>
      rcases ih init with ⟨hall, hlast⟩ | ⟨x, hx, hnx, hlast⟩
      · exact Or.inl ⟨by simpa [hv] using hall, by simpa using hlast⟩
      · exact Or.inr ⟨x, List.mem_cons_of_mem _ hx, hnx, by simpa using hlast⟩
    | false =>
      right
      rcases ih v with ⟨_, hlast⟩ | ⟨x, hx, hnx, hlast⟩
      · exact ⟨v, List.mem_cons_self, hv, by simpa using hlast⟩
      · exact ⟨x, List.mem_cons_of_mem _ hx, hnx, by simpa using hlast⟩

/-- The last value that is not `None`, as a list operation. -/
theorem getLast?_nonNull (init : Json) (vs : List Json) :
    (vs.filter fun v => !v.isNull).getLast? =
      if vs.all isNull then none else some (lastNonNull init vs) := by
  induction vs generalizing init with
  | nil => rfl
  | cons v vs ih =>
    rw [lastNonNull_cons]
    cases hv : v.isNull with
    | true => simpa [hv] using ih init
    | false =>
      have hlast : (vs.filter fun v => !v.isNull).getLast?.getD v = lastNonNull v vs := by
        rw [ih v]
        split
        · next hall =>
          rcases lastNonNull_cases v vs with ⟨_, hl⟩ | ⟨x, hx, hnx, _⟩
          · exact hl.symm
          · have := List.all_eq_true.mp hall x hx
            simp [hnx] at this
        · rfl
      simp [hv, List.getLast?_cons, ← hlast]

/-- Leaving out values without text does not change the joined text. -/
theorem join_filter {α : Type} (f : α → Json) (p : α → Bool) (l : List α)
    (h : ∀ x ∈ l, p x = false → (f x).text = "") :
    String.join ((l.filter p).map fun x => (f x).text) = String.join (l.map fun x => (f x).text) := by
  induction l with
  | nil => rfl
  | cons x l ih =>
    have ih' := ih fun y hy => h y (List.mem_cons_of_mem _ hy)
    cases hp : p x with
    | true => simp [hp, ih', String.join_cons]
    | false =>
      have hx := h x List.mem_cons_self hp
      simp [hp, ih', hx, String.join_cons]

/-! ## Lists that are written and read back -/

theorem mapM_map_some {α β : Type} {f : α → β} {g : β → Option α} {l : List α}
    (h : ∀ x ∈ l, g (f x) = some x) : (l.map f).mapM g = some l := by
  induction l with
  | nil => rfl
  | cons x rest ih =>
    rw [List.forall_mem_cons] at h
    simp [List.mapM_cons, h.1, ih h.2]

end Json
