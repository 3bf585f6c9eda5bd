import LlmHomeLab.Lib.Dict
import LlmHomeLab.Lib.Json

/-! # JSON texts

`json.loads`, as a machine that reads a text character by character: what may come next, and a
stack of the containers it is inside of. What `int` and `float` make of a number and what stands
for a constant are a parameter, as they are of the decoder. Strings are of Unicode scalar values,
so an escaped surrogate without its partner is not read.

Outside its strings a JSON text is ASCII. So a text that is cut at another character is cut inside
a string, and what is in front of the cut is no JSON text.
-/

namespace JsonText

/-- `parse_int`, `parse_float` and `parse_constant`; `none` is an exception. -/
structure Hooks where
  parseInt : List Char → Option Json
  parseFloat : List Char → Option Json
  parseConstant : List Char → Option Json

/-- White space between tokens. -/
def isSpace (c : Char) : Bool := c = ' ' || c = '\t' || c = '\n' || c = '\r'

/-! ## Numbers and constants -/

/-- The characters of tokens that are neither strings nor punctuation. -/
def isWordChar (c : Char) : Bool := c.isAlphanum || c = '+' || c = '-' || c = '.'

def isDigits (l : List Char) : Bool := !l.isEmpty && l.all Char.isDigit

/-- `0|[1-9][0-9]*` -/
def isNatural (l : List Char) : Bool := isDigits l && (l.head? ≠ some '0' || l.length = 1)

/-- `([eE][-+]?[0-9]+)?` -/
def isExponent : List Char → Bool
  | [] => true
  | e :: '+' :: digits => (e = 'e' || e = 'E') && isDigits digits
  | e :: '-' :: digits => (e = 'e' || e = 'E') && isDigits digits
  | e :: digits => (e = 'e' || e = 'E') && isDigits digits

/-- `(\.[0-9]+)?([eE][-+]?[0-9]+)?` -/
def isFraction : List Char → Bool
  | '.' :: rest => isDigits (rest.takeWhile Char.isDigit) && isExponent (rest.dropWhile Char.isDigit)
  | rest => isExponent rest

/-- `-?(0|[1-9][0-9]*)(\.[0-9]+)?([eE][-+]?[0-9]+)?` -/
def isNumber (word : List Char) : Bool :=
  let unsigned := if word.head? = some '-' then word.tail else word
  isNatural (unsigned.takeWhile Char.isDigit) && isFraction (unsigned.dropWhile Char.isDigit)

def readWord (hooks : Hooks) (word : List Char) : Option Json :=
  if word = "null".toList then some .null
  else if word = "true".toList then some (.bool true)
  else if word = "false".toList then some (.bool false)
  else if word = "NaN".toList ∨ word = "Infinity".toList ∨ word = "-Infinity".toList then
    hooks.parseConstant word
  else if isNumber word then
    if word.all fun c => c.isDigit || c = '-' then hooks.parseInt word else hooks.parseFloat word
  else none

/-! ## Strings -/

def hexDigit (c : Char) : Option Nat :=
  if c.isDigit then some (c.toNat - 48)
  else if 'a' ≤ c ∧ c ≤ 'f' then some (c.toNat - 87)
  else if 'A' ≤ c ∧ c ≤ 'F' then some (c.toNat - 55)
  else none

def hex4 (a b c d : Char) : Option Nat := do
  return (((← hexDigit a) * 16 + (← hexDigit b)) * 16 + (← hexDigit c)) * 16 + (← hexDigit d)

/-- The character a backslash and this one stand for. -/
def escaped (c : Char) : Option Char :=
  if c = '"' ∨ c = '\\' ∨ c = '/' then some c
  else if c = 'b' then some '\x08'
  else if c = 'f' then some '\x0c'
  else if c = 'n' then some '\n'
  else if c = 'r' then some '\r'
  else if c = 't' then some '\t'
  else none

def isHigh (n : Nat) : Bool := 0xd800 ≤ n && n < 0xdc00

def isLow (n : Nat) : Bool := 0xdc00 ≤ n && n < 0xe000

/-- What stands between the quotes of a string, without its escapes, after a high surrogate if
there was one right before. -/
def unescape : (high : Option Nat) → List Char → Option (List Char)
  | none, [] => some []
  | some _, [] => none
  | high, '\\' :: 'u' :: a :: b :: c :: d :: rest =>
    match high, hex4 a b c d with
    | _, none => none
    | none, some n =>
      if isHigh n then unescape (some n) rest
      else if isLow n then none
      else (unescape none rest).map (Char.ofNat n :: ·)
    | some m, some n =>
      if isLow n then
        (unescape none rest).map
          (Char.ofNat (0x10000 + (m - 0xd800) * 0x400 + (n - 0xdc00)) :: ·)
      else none
  | some _, _ :: _ => none
  | none, ['\\'] => none
  | none, '\\' :: c :: rest =>
    (escaped c).bind fun c => (unescape none rest).map (c :: ·)
  | none, c :: rest => (unescape none rest).map (c :: ·)

/-! ## The machine -/

/-- A container with a value of it to come. -/
inductive Frame where
  | array (items : List Json)
  | object (fields : List (String × Json)) (key : String)

/-- What the machine is in the middle of. -/
inductive Mode where
  | value
  | firstItem
  | firstKey
  | key (fields : List (String × Json))
  | keyText (fields : List (String × Json)) (raw : List Char) (escaped : Bool)
  | colon (fields : List (String × Json)) (key : String)
  | text (raw : List Char) (escaped : Bool)
  | word (letters : List Char)
  | ended (v : Json)

structure State where
  mode : Mode
  stack : List Frame

/-- The first character of a value. -/
def opens (stack : List Frame) (c : Char) : Option State :=
  if c = '"' then some ⟨.text [] false, stack⟩
  else if c = '{' then some ⟨.firstKey, stack⟩
  else if c = '[' then some ⟨.firstItem, stack⟩
  else if isWordChar c then some ⟨.word [c], stack⟩
  else none

/-- The character behind a value. A key that was there before keeps its place. -/
def behind (v : Json) (stack : List Frame) (c : Char) : Option State :=
  if isSpace c then some ⟨.ended v, stack⟩
  else
    match stack with
    | [] => none
    | .array items :: outer =>
      if c = ',' then some ⟨.value, .array (items ++ [v]) :: outer⟩
      else if c = ']' then some ⟨.ended (.arr (items ++ [v])), outer⟩
      else none
    | .object fields key :: outer =>
      if c = ',' then some ⟨.key (Dict.insertList key v fields), outer⟩
      else if c = '}' then some ⟨.ended (.obj (Dict.insertList key v fields)), outer⟩
      else none

/-- A character of a string, or the quote that ends it. -/
def inside (raw : List Char) (escaped : Bool) (c : Char) (goesOn : List Char → Bool → State)
    (ends : String → State) : Option State :=
  if c.toNat < 0x20 then none
  else if escaped then some (goesOn (raw ++ [c]) false)
  else if c = '"' then (unescape none raw).map fun text => ends (String.ofList text)
  else some (goesOn (raw ++ [c]) (c = '\\'))

variable (hooks : Hooks)

def step (s : State) (c : Char) : Option State :=
  match s.mode with
  | .value => if isSpace c then some s else opens s.stack c
  | .firstItem =>
    if isSpace c then some s
    else if c = ']' then some ⟨.ended (.arr []), s.stack⟩
    else opens (.array [] :: s.stack) c
  | .firstKey =>
    if isSpace c then some s
    else if c = '}' then some ⟨.ended (.obj []), s.stack⟩
    else if c = '"' then some ⟨.keyText [] [] false, s.stack⟩
    else none
  | .key fields =>
    if isSpace c then some s
    else if c = '"' then some ⟨.keyText fields [] false, s.stack⟩
    else none
  | .keyText fields raw escaped =>
    inside raw escaped c (fun raw escaped => ⟨.keyText fields raw escaped, s.stack⟩)
      fun key => ⟨.colon fields key, s.stack⟩
  | .colon fields key =>
    if isSpace c then some s
    else if c = ':' then some ⟨.value, .object fields key :: s.stack⟩
    else none
  | .text raw escaped =>
    inside raw escaped c (fun raw escaped => ⟨.text raw escaped, s.stack⟩)
      fun text => ⟨.ended (.str text), s.stack⟩
  | .word letters =>
    if isWordChar c then some ⟨.word (letters ++ [c]), s.stack⟩
    else (readWord hooks letters).bind fun v => behind v s.stack c
  | .ended v => behind v s.stack c

/-- The value of a text that is over. -/
def finish (s : State) : Option Json :=
  match s.stack, s.mode with
  | [], .ended v => some v
  | [], .word letters => readWord hooks letters
  | _, _ => none

def run (l : List Char) : Option State := l.foldlM (step hooks) ⟨.value, []⟩

/-- `json.loads(text)`; `none` is an exception. -/
def loads (text : String) : Option Json := (run hooks text.toList).bind (finish hooks)

/-! ## Where a text may be cut -/

def State.inString (s : State) : Bool :=
  match s.mode with
  | .keyText _ _ _ => true
  | .text _ _ => true
  | _ => false

variable {hooks} {s s' : State} {c : Char}

theorem finish_of_inString (h : s.inString = true) : finish hooks s = none := by
  obtain ⟨mode, stack⟩ := s
  cases mode with
  | keyText _ _ _ => cases stack <;> rfl
  | text _ _ => cases stack <;> rfl
  | _ => cases h

/-- A character outside of strings: white space, or one of ASCII that is printed. -/
def plain (c : Char) : Bool := isSpace c || (0x20 ≤ c.toNat && c.toNat < 0x80)

theorem plain_of_isWordChar (h : isWordChar c = true) : plain c = true := by
  simp only [isWordChar, Char.isAlphanum, Char.isAlpha, Char.isUpper, Char.isLower, Char.isDigit,
    Bool.or_eq_true, Bool.and_eq_true, decide_eq_true_eq, UInt32.le_iff_toNat_le, ge_iff_le] at h
  rcases h with ((((h | h) | h) | rfl) | rfl) | rfl
  · have hlo : 65 ≤ c.toNat := h.1
    have hhi : c.toNat ≤ 90 := h.2
    simp only [plain, Bool.or_eq_true, Bool.and_eq_true, decide_eq_true_eq]
    omega
  · have hlo : 97 ≤ c.toNat := h.1
    have hhi : c.toNat ≤ 122 := h.2
    simp only [plain, Bool.or_eq_true, Bool.and_eq_true, decide_eq_true_eq]
    omega
  · have hlo : 48 ≤ c.toNat := h.1
    have hhi : c.toNat ≤ 57 := h.2
    simp only [plain, Bool.or_eq_true, Bool.and_eq_true, decide_eq_true_eq]
    omega
  all_goals decide

theorem plain_of_opens {stack : List Frame} (h : opens stack c = some s) : plain c = true := by
  unfold opens at h
  split at h
  · next hc => rw [hc]; decide
  · split at h
    · next hc => rw [hc]; decide
    · split at h
      · next hc => rw [hc]; decide
      · split at h
        · next hc => exact plain_of_isWordChar hc
        · cases h

theorem plain_of_behind {v : Json} {stack : List Frame} (h : behind v stack c = some s) :
    plain c = true := by
  unfold behind at h
  split at h
  · next hc => simp [plain, hc]
  · split at h
    · cases h
    all_goals
      split at h
      · next hc => rw [hc]; decide
      · split at h
        · next hc => rw [hc]; decide
        · cases h

theorem le_of_inside {raw : List Char} {escaped : Bool} {goesOn : List Char → Bool → State}
    {ends : String → State} (h : inside raw escaped c goesOn ends = some s) :
    0x20 ≤ c.toNat := by
  unfold inside at h
  split at h
  · cases h
  · omega

/-- A step outside of a string reads a plain character, one inside of it no control character. -/
theorem step_char (h : step hooks s c = some s') :
    plain c = true ∨ (s.inString = true ∧ 0x20 ≤ c.toNat) := by
  have hspace : isSpace c = true → plain c = true := fun hc => by simp [plain, hc]
  obtain ⟨mode, stack⟩ := s
  cases mode with
  | keyText fields raw escaped =>
    simp only [step] at h
    exact Or.inr ⟨rfl, le_of_inside h⟩
  | text raw escaped =>
    simp only [step] at h
    exact Or.inr ⟨rfl, le_of_inside h⟩
  | ended v => exact Or.inl (plain_of_behind h)
  | word letters =>
    simp only [step] at h
    split at h
    · next hc => exact Or.inl (plain_of_isWordChar hc)
    · obtain ⟨v, -, hv⟩ := Option.bind_eq_some_iff.mp h
      exact Or.inl (plain_of_behind hv)
  | value =>
    simp only [step] at h
    split at h
    · next hc => exact Or.inl (hspace hc)
    · exact Or.inl (plain_of_opens h)
  | firstItem =>
    simp only [step] at h
    split at h
    · next hc => exact Or.inl (hspace hc)
    · split at h
      · next hc => rw [hc]; exact Or.inl (by decide)
      · exact Or.inl (plain_of_opens h)
  | firstKey =>
    simp only [step] at h
    split at h
    · next hc => exact Or.inl (hspace hc)
    · split at h
      · next hc => rw [hc]; exact Or.inl (by decide)
      · split at h
        · next hc => rw [hc]; exact Or.inl (by decide)
        · cases h
  | key fields =>
    simp only [step] at h
    split at h
    · next hc => exact Or.inl (hspace hc)
    · split at h
      · next hc => rw [hc]; exact Or.inl (by decide)
      · cases h
  | colon fields key =>
    simp only [step] at h
    split at h
    · next hc => exact Or.inl (hspace hc)
    · split at h
      · next hc => rw [hc]; exact Or.inl (by decide)
      · cases h

/-- A text that is read passes through a state at every character. -/
theorem run_split {a b : List Char} (h : run hooks (a ++ c :: b) = some s') :
    ∃ s t, run hooks a = some s ∧ step hooks s c = some t := by
  rw [run, List.foldlM_append] at h
  obtain ⟨s, hs, h⟩ := Option.bind_eq_some_iff.mp h
  rw [List.foldlM_cons] at h
  obtain ⟨t, ht, -⟩ := Option.bind_eq_some_iff.mp h
  exact ⟨s, t, hs, ht⟩

/-- The characters of a JSON text. -/
theorem char_of_loads {text : String} {v : Json} (h : loads hooks text = some v) :
    ∀ c ∈ text.toList, isSpace c = true ∨ 0x20 ≤ c.toNat := by
  intro c hc
  obtain ⟨s', hrun, -⟩ := Option.bind_eq_some_iff.mp h
  obtain ⟨a, b, hsplit⟩ := List.append_of_mem hc
  rw [hsplit] at hrun
  obtain ⟨s, t, -, hstep⟩ := run_split hrun
  rcases step_char hstep with hplain | ⟨-, hle⟩
  · rw [plain, Bool.or_eq_true, Bool.and_eq_true, decide_eq_true_eq] at hplain
    exact hplain.imp_right And.left
  · exact Or.inr hle

/-- In front of a character that is not ASCII a JSON text is in the middle of a string. -/
theorem run_front {text : String} {v : Json} {a b : List Char} (h : loads hooks text = some v)
    (hsplit : text.toList = a ++ c :: b) (hc : 0x80 ≤ c.toNat) :
    ∃ s, run hooks a = some s ∧ s.inString = true := by
  obtain ⟨s', hrun, -⟩ := Option.bind_eq_some_iff.mp h
  rw [hsplit] at hrun
  obtain ⟨s, t, hs, hstep⟩ := run_split hrun
  rcases step_char hstep with hplain | ⟨hin, -⟩
  · simp only [plain, isSpace, Bool.or_eq_true, Bool.and_eq_true, decide_eq_true_eq] at hplain
    rcases hplain with (((rfl | rfl) | rfl) | rfl) | hlt
    all_goals first | exact absurd hc (by decide) | omega
  · exact ⟨s, hs, hin⟩

/-- What is in front of it is no JSON text. -/
theorem loads_front {text : String} {v : Json} {a b : List Char} (h : loads hooks text = some v)
    (hsplit : text.toList = a ++ c :: b) (hc : 0x80 ≤ c.toNat) :
    loads hooks (String.ofList a) = none := by
  obtain ⟨s, hs, hin⟩ := run_front h hsplit hc
  rw [loads, String.toList_ofList, hs, Option.bind_some, finish_of_inString hin]

/-- A key that occurs twice has the last of its values, in the first of its places. -/
example : loads ⟨fun _ => none, fun _ => none, fun _ => none⟩
    "\x7b\"a\" : [null], \"b\" : \"\\u00e9\\n\", \"a\" : true\x7d" =
      some (.obj [("a", .bool true), ("b", .str "é\n")]) := rfl

end JsonText
