import LlmHomeLab.Lib.JsonText
import LlmHomeLab.Lib.PyFloat

/-! # Writing JSON texts

`json.dumps` with its defaults: ASCII only, a space behind each comma and colon. What a number is
written as is a parameter. A value whose numbers are read back, and whose objects have every key
once, is read back (`loads_dumps`).
-/

namespace JsonText

/-! ## Model -/

def hexChar (n : Nat) : Char := if n < 10 then Char.ofNat (48 + n) else Char.ofNat (87 + n)

/-- `'\\u{0:04x}'.format(n)` -/
def unicodeEscape (n : Nat) : List Char :=
  ['\\', 'u', hexChar (n / 4096), hexChar (n / 256 % 16), hexChar (n / 16 % 16), hexChar (n % 16)]

/-- `ESCAPE_DCT`. -/
def shortEscape (c : Char) : Option Char :=
  if c = '"' then some '"'
  else if c = '\\' then some '\\'
  else if c = '\x08' then some 'b'
  else if c = '\x0c' then some 'f'
  else if c = '\n' then some 'n'
  else if c = '\r' then some 'r'
  else if c = '\t' then some 't'
  else none

/-- A character as it stands between quotes. -/
def escapeChar (c : Char) : List Char :=
  match shortEscape c with
  | some short => ['\\', short]
  | none =>
    if 0x20 ≤ c.toNat ∧ c.toNat < 0x7f then [c]
    else if c.toNat < 0x10000 then unicodeEscape c.toNat
    else
      -- a surrogate pair
      unicodeEscape (0xd800 + (c.toNat - 0x10000) / 0x400) ++
        unicodeEscape (0xdc00 + (c.toNat - 0x10000) % 0x400)

def dumpString (s : String) : List Char := '"' :: (s.toList.flatMap escapeChar ++ ['"'])

variable (showNum : ℚ → List Char)

mutual

def dump : Json → List Char
  | .null => "null".toList
  | .bool true => "true".toList
  | .bool false => "false".toList
  | .num n => showNum n
  | .str s => dumpString s
  | .arr [] => ['[', ']']
  | .arr (v :: rest) => '[' :: (dump v ++ dumpItems rest)
  | .obj [] => ['\x7b', '\x7d']
  | .obj ((key, v) :: rest) => '\x7b' :: (dumpString key ++ ':' :: ' ' :: (dump v ++ dumpFields rest))

/-- The items behind the first, and the end of the array. -/
def dumpItems : List Json → List Char
  | [] => [']']
  | v :: rest => ',' :: ' ' :: (dump v ++ dumpItems rest)

/-- The fields behind the first, and the end of the object. -/
def dumpFields : List (String × Json) → List Char
  | [] => ['\x7d']
  | (key, v) :: rest =>
    ',' :: ' ' :: (dumpString key ++ ':' :: ' ' :: (dump v ++ dumpFields rest))

end

/-- `json.dumps(value)`. -/
def dumps (v : Json) : String := String.ofList (dump showNum v)

/-! ## Values that have a text -/

/-- What the number is written as is a word that stands for it. -/
structure Readable (hooks : Hooks) (n : ℚ) : Prop where
  ne_nil : showNum n ≠ []
  isWord : ∀ c ∈ showNum n, isWordChar c = true
  reads : readWord hooks (showNum n) = some (.num n)

mutual

/-- Every number can be read back, and an object has each key once. -/
inductive Writable (hooks : Hooks) : Json → Prop where
  | null : Writable hooks .null
  | bool (b : Bool) : Writable hooks (.bool b)
  | num {n : ℚ} (h : Readable showNum hooks n) : Writable hooks (.num n)
  | str (s : String) : Writable hooks (.str s)
  | arr {items : List Json} (h : WritableItems hooks items) : Writable hooks (.arr items)
  | obj {fields : List (String × Json)} (nodup : (fields.map Prod.fst).Nodup)
      (h : WritableFields hooks fields) : Writable hooks (.obj fields)

inductive WritableItems (hooks : Hooks) : List Json → Prop where
  | nil : WritableItems hooks []
  | cons {v : Json} {rest : List Json} (head : Writable hooks v)
      (tail : WritableItems hooks rest) : WritableItems hooks (v :: rest)

inductive WritableFields (hooks : Hooks) : List (String × Json) → Prop where
  | nil : WritableFields hooks []
  | cons {key : String} {v : Json} {rest : List (String × Json)} (head : Writable hooks v)
      (tail : WritableFields hooks rest) : WritableFields hooks ((key, v) :: rest)

end

/-! ## Strings -/

theorem hexDigit_hexChar : ∀ d, d < 16 → hexDigit (hexChar d) = some d := by decide

theorem hex4_unicode {n : Nat} (h : n < 0x10000) :
    hex4 (hexChar (n / 4096)) (hexChar (n / 256 % 16)) (hexChar (n / 16 % 16)) (hexChar (n % 16)) =
      some n := by
  unfold hex4
  rw [hexDigit_hexChar (n / 4096) (by omega), hexDigit_hexChar (n / 256 % 16) (by omega),
    hexDigit_hexChar (n / 16 % 16) (by omega), hexDigit_hexChar (n % 16) (by omega)]
  simp only [Option.bind_eq_bind, Option.bind_some, Option.pure_def, Option.some.injEq]
  omega

theorem unescape_plain {c : Char} (hc : c ≠ '\\') (rest : List Char) :
    unescape none (c :: rest) = (unescape none rest).map (c :: ·) := by
  rw [unescape]
  · rintro _ _ _ _ _ heq -
    exact hc heq
  · intro heq _
    exact hc heq
  · rintro _ _ heq -
    exact hc heq

/-- Outside of a surrogate pair. -/
theorem unescape_unicode {n : Nat} (h : n < 0x10000) (hhigh : isHigh n = false)
    (hlow : isLow n = false) (rest : List Char) :
    unescape none (unicodeEscape n ++ rest) = (unescape none rest).map (Char.ofNat n :: ·) := by
  simp only [unicodeEscape, List.cons_append, List.nil_append]
  rw [unescape.eq_def]
  simp only [hex4_unicode h, hhigh, hlow, Bool.false_eq_true, if_false]

theorem unescape_high {m : Nat} (h : m < 0x10000) (hhigh : isHigh m = true) (rest : List Char) :
    unescape none (unicodeEscape m ++ rest) = unescape (some m) rest := by
  simp only [unicodeEscape, List.cons_append, List.nil_append]
  rw [unescape.eq_def]
  simp only [hex4_unicode h, hhigh, if_true]

theorem unescape_low {m n : Nat} (h : n < 0x10000) (hlow : isLow n = true) (rest : List Char) :
    unescape (some m) (unicodeEscape n ++ rest) = (unescape none rest).map
      (Char.ofNat (0x10000 + (m - 0xd800) * 0x400 + (n - 0xdc00)) :: ·) := by
  simp only [unicodeEscape, List.cons_append, List.nil_append]
  rw [unescape.eq_def]
  simp only [hex4_unicode h, hlow, if_true]

theorem unescape_short {c short : Char} (h : shortEscape c = some short) (rest : List Char) :
    unescape none ('\\' :: short :: rest) = (unescape none rest).map (c :: ·) := by
  unfold shortEscape at h
  split_ifs at h with h₁ h₂ h₃ h₄ h₅ h₆ h₇ <;> cases h <;> subst c <;> rfl

/-- The scalar values are those that are no surrogates. -/
theorem isScalar (c : Char) : c.toNat < 0xd800 ∨ (0xdfff < c.toNat ∧ c.toNat < 0x110000) :=
  c.valid

theorem unescape_escapeChar (c : Char) (rest : List Char) :
    unescape none (escapeChar c ++ rest) = (unescape none rest).map (c :: ·) := by
  have hscalar := isScalar c
  unfold escapeChar
  split
  · next short hshort => exact unescape_short hshort rest
  · next hnone =>
    split
    · refine unescape_plain ?_ rest
      rintro rfl
      cases hnone
    · split
      · next hlt =>
        have hhigh : isHigh c.toNat = false := by simp [isHigh]; omega
        have hlow : isLow c.toNat = false := by simp [isLow]; omega
        rw [unescape_unicode hlt hhigh hlow, Char.ofNat_toNat]
      · next hge =>
        have hhigh : isHigh (0xd800 + (c.toNat - 0x10000) / 0x400) = true := by
          simp [isHigh]; omega
        have hlow : isLow (0xdc00 + (c.toNat - 0x10000) % 0x400) = true := by simp [isLow]; omega
        have hback : 0x10000 + (0xd800 + (c.toNat - 0x10000) / 0x400 - 0xd800) * 0x400 +
            (0xdc00 + (c.toNat - 0x10000) % 0x400 - 0xdc00) = c.toNat := by omega
        rw [List.append_assoc, unescape_high (by omega) hhigh, unescape_low (by omega) hlow, hback,
          Char.ofNat_toNat]

theorem unescape_escape (l : List Char) : unescape none (l.flatMap escapeChar) = some l := by
  induction l with
  | nil => rfl
  | cons c rest ih => rw [List.flatMap_cons, unescape_escapeChar, ih, Option.map_some]

/-! ## The machine on a text that was written -/

variable {showNum} {hooks : Hooks} {s t u : State} {a b : List Char} {c : Char}

/-- The machine reads these characters from `s` to `t`. -/
def Reaches (hooks : Hooks) (s : State) (l : List Char) (t : State) : Prop :=
  l.foldlM (step hooks) s = some t

theorem Reaches.cons (hstep : step hooks s c = some t) (h : Reaches hooks t a u) :
    Reaches hooks s (c :: a) u := by
  rw [Reaches, List.foldlM_cons, hstep]
  exact h

theorem Reaches.append (h₁ : Reaches hooks s a t) (h₂ : Reaches hooks t b u) :
    Reaches hooks s (a ++ b) u := by
  rw [Reaches, List.foldlM_append, (h₁ : a.foldlM (step hooks) s = some t)]
  exact h₂

theorem Reaches.single (hstep : step hooks s c = some t) : Reaches hooks s [c] t :=
  .cons hstep rfl

section

variable {goesOn : List Char → Bool → State} {ends : String → State} {raw : List Char}

theorem inside_plain (hc : 0x20 ≤ c.toNat) (hquote : c ≠ '"') (hslash : c ≠ '\\') :
    inside raw false c goesOn ends = some (goesOn (raw ++ [c]) false) := by
  simp [inside, not_lt.mpr hc, hquote, hslash]

theorem inside_escaped (hc : 0x20 ≤ c.toNat) :
    inside raw true c goesOn ends = some (goesOn (raw ++ [c]) false) := by
  simp [inside, not_lt.mpr hc]

theorem inside_slash : inside raw false '\\' goesOn ends = some (goesOn (raw ++ ['\\']) true) := rfl

theorem inside_quote (l : List Char) :
    inside (l.flatMap escapeChar) false '"' goesOn ends = some (ends (String.ofList l)) := by
  have hquote : inside (l.flatMap escapeChar) false '"' goesOn ends =
      (unescape none (l.flatMap escapeChar)).map fun text => ends (String.ofList text) := rfl
  rw [hquote, unescape_escape, Option.map_some]

theorem hexChar_plain : ∀ d, d < 16 →
    0x20 ≤ (hexChar d).toNat ∧ hexChar d ≠ '"' ∧ hexChar d ≠ '\\' := by decide

theorem shortEscape_printed {short : Char} (h : shortEscape c = some short) :
    0x20 ≤ short.toNat := by
  unfold shortEscape at h
  split_ifs at h <;> cases h <;> decide

variable (hinside : ∀ raw escaped c,
  step hooks (goesOn raw escaped) c = inside raw escaped c goesOn ends)

include hinside

theorem reaches_unicode (raw : List Char) {n : Nat} (h : n < 0x10000) :
    Reaches hooks (goesOn raw false) (unicodeEscape n) (goesOn (raw ++ unicodeEscape n) false) := by
  have hhex : ∀ raw d, d < 16 →
      step hooks (goesOn raw false) (hexChar d) = some (goesOn (raw ++ [hexChar d]) false) := by
    intro raw d hd
    obtain ⟨hprinted, hquote, hslash⟩ := hexChar_plain d hd
    rw [hinside, inside_plain hprinted hquote hslash]
  have hu : step hooks (goesOn (raw ++ ['\\']) true) 'u' =
      some (goesOn (raw ++ ['\\'] ++ ['u']) false) := by
    rw [hinside, inside_escaped (by decide)]
  have hreads := Reaches.cons ((hinside raw false '\\').trans inside_slash) <| .cons hu <|
    .cons (hhex _ (n / 4096) (by omega)) <| .cons (hhex _ (n / 256 % 16) (by omega)) <|
    .cons (hhex _ (n / 16 % 16) (by omega)) <| .single (hhex _ (n % 16) (by omega))
  simpa only [unicodeEscape, List.append_assoc, List.cons_append, List.nil_append] using hreads

theorem reaches_escapeChar (raw : List Char) (c : Char) :
    Reaches hooks (goesOn raw false) (escapeChar c) (goesOn (raw ++ escapeChar c) false) := by
  have hscalar := isScalar c
  unfold escapeChar
  split
  · next short hshort =>
    have hescaped : step hooks (goesOn (raw ++ ['\\']) true) short =
        some (goesOn (raw ++ ['\\'] ++ [short]) false) := by
      rw [hinside, inside_escaped (shortEscape_printed hshort)]
    have hreads := Reaches.cons ((hinside raw false '\\').trans inside_slash) (.single hescaped)
    simpa only [List.append_assoc, List.cons_append, List.nil_append] using hreads
  · next hnone =>
    split
    · next hprinted =>
      refine .single ((hinside raw false c).trans (inside_plain hprinted.1 ?_ ?_))
      · rintro rfl
        cases hnone
      · rintro rfl
        cases hnone
    · split
      · next hlt => exact reaches_unicode hinside raw hlt
      · rw [← List.append_assoc]
        exact (reaches_unicode hinside raw (by omega)).append (reaches_unicode hinside _ (by omega))

theorem reaches_escape (raw l : List Char) :
    Reaches hooks (goesOn raw false) (l.flatMap escapeChar)
      (goesOn (raw ++ l.flatMap escapeChar) false) := by
  induction l generalizing raw with
  | nil =>
    rw [List.flatMap_nil, List.append_nil]
    exact rfl
  | cons c rest ih =>
    rw [List.flatMap_cons, ← List.append_assoc]
    exact (reaches_escapeChar hinside raw c).append (ih _)

/-- From the opening quote to the closing one. -/
theorem reaches_string (text : String) :
    Reaches hooks (goesOn [] false) (text.toList.flatMap escapeChar ++ ['"']) (ends text) := by
  have hquote := @inside_quote goesOn ends text.toList
  rw [String.ofList_toList] at hquote
  refine (reaches_escape hinside [] text.toList).append (.single ?_)
  rw [List.nil_append, hinside, hquote]

end

/-- The machine has read the value, up to the character behind it. -/
structure Ends (hooks : Hooks) (v : Json) (stack : List Frame) (s : State) : Prop where
  next : ∀ c, isWordChar c = false → step hooks s c = behind v stack c
  finished : stack = [] → finish hooks s = some v

theorem ends_ended (v : Json) (stack : List Frame) : Ends hooks v stack ⟨.ended v, stack⟩ where
  next _ _ := rfl
  finished hstack := by
    rw [hstack]
    rfl

theorem ends_word {letters : List Char} {v : Json} (h : readWord hooks letters = some v)
    (stack : List Frame) : Ends hooks v stack ⟨.word letters, stack⟩ where
  next c hc := by
    simp only [step, hc, Bool.false_eq_true, if_false, h, Option.bind_some]
  finished hstack := by
    rw [hstack]
    exact h

theorem reaches_word (letters more : List Char) (stack : List Frame)
    (h : ∀ c ∈ more, isWordChar c = true) :
    Reaches hooks ⟨.word letters, stack⟩ more ⟨.word (letters ++ more), stack⟩ := by
  induction more generalizing letters with
  | nil =>
    rw [List.append_nil]
    exact rfl
  | cons c rest ih =>
    rw [List.forall_mem_cons] at h
    have hstep : step hooks ⟨.word letters, stack⟩ c = some ⟨.word (letters ++ [c]), stack⟩ := by
      simp only [step, h.1, if_true]
    have hreads := Reaches.cons hstep (ih (letters ++ [c]) h.2)
    simpa only [List.append_assoc, List.cons_append, List.nil_append] using hreads

/-- A character a value may begin with. -/
theorem step_value {stack : List Frame} (hspace : isSpace c = false) :
    step hooks ⟨.value, stack⟩ c = opens stack c := by
  simp [step, hspace]

theorem word_first {word : List Char} {v : Json} (hne : word ≠ [])
    (hword : ∀ c ∈ word, isWordChar c = true) (h : readWord hooks word = some v)
    (stack : List Frame) :
    ∃ s, Reaches hooks ⟨.value, stack⟩ word s ∧ Ends hooks v stack s := by
  obtain ⟨c, rest, rfl⟩ := List.exists_cons_of_ne_nil hne
  rw [List.forall_mem_cons] at hword
  have hc := hword.1
  have hne : ∀ d, isWordChar d = false → c ≠ d := by
    rintro d hd rfl
    rw [hc] at hd
    cases hd
  have hspace : isSpace c = false := by
    simp [isSpace, hne ' ' rfl, hne '\t' rfl, hne '\n' rfl, hne '\r' rfl]
  have hopens : opens stack c = some ⟨.word [c], stack⟩ := by
    simp [opens, hne '"' rfl, hne '\x7b' rfl, hne '[' rfl, hc]
  exact ⟨_, .cons ((step_value hspace).trans hopens) (reaches_word [c] rest stack hword.2),
    ends_word h stack⟩

/-- The text of a value begins with neither a space nor a bracket that closes. -/
theorem dump_first {v : Json} (h : Writable showNum hooks v) :
    ∃ c rest, dump showNum v = c :: rest ∧ isSpace c = false ∧ c ≠ ']' := by
  cases h with
  | null => exact ⟨'n', _, rfl, rfl, by decide⟩
  | bool b =>
    cases b with
    | true => exact ⟨'t', _, rfl, rfl, by decide⟩
    | false => exact ⟨'f', _, rfl, rfl, by decide⟩
  | num hn =>
    obtain ⟨c, rest, hc⟩ := List.exists_cons_of_ne_nil hn.ne_nil
    have hword : isWordChar c = true := hn.isWord c (by rw [hc]; exact List.mem_cons_self)
    refine ⟨c, rest, hc, ?_, ?_⟩
    · rw [Bool.eq_false_iff]
      intro hspace
      simp only [isSpace, Bool.or_eq_true, decide_eq_true_eq] at hspace
      rcases hspace with ((rfl | rfl) | rfl) | rfl <;> cases hword
    · rintro rfl
      cases hword
  | str s => exact ⟨'"', _, rfl, rfl, by decide⟩
  | @arr items _ => cases items <;> exact ⟨'[', _, rfl, rfl, by decide⟩
  | @obj fields _ _ => cases fields <;> exact ⟨'\x7b', _, by rfl, rfl, by decide⟩

/-- The first item of an array is read like any value. -/
theorem reaches_firstItem {stack : List Frame} {v : Json} (h : Writable showNum hooks v)
    (hreads : Reaches hooks ⟨.value, .array [] :: stack⟩ (dump showNum v) s) :
    Reaches hooks ⟨.firstItem, stack⟩ (dump showNum v) s := by
  obtain ⟨c, rest, hdump, hspace, hclose⟩ := dump_first h
  have hsame : step hooks ⟨.firstItem, stack⟩ c = step hooks ⟨.value, .array [] :: stack⟩ c := by
    simp [step, hspace, hclose]
  rw [hdump] at hreads ⊢
  unfold Reaches at hreads ⊢
  rw [List.foldlM_cons] at hreads ⊢
  rwa [hsame]

theorem reaches_key {stack : List Frame} (fields : List (String × Json)) (key : String) {mode : Mode}
    (hquote : step hooks ⟨mode, stack⟩ '"' = some ⟨.keyText fields [] false, stack⟩) :
    Reaches hooks ⟨mode, stack⟩ (dumpString key ++ [':', ' '])
      ⟨.value, .object fields key :: stack⟩ := by
  have hkey : Reaches hooks ⟨.keyText fields [] false, stack⟩ _ ⟨.colon fields key, stack⟩ :=
    @reaches_string hooks (fun raw escaped => ⟨.keyText fields raw escaped, stack⟩)
      (fun key => ⟨.colon fields key, stack⟩) (fun _ _ _ => rfl) key
  have hread : Reaches hooks ⟨mode, stack⟩ (dumpString key) ⟨.colon fields key, stack⟩ :=
    .cons hquote hkey
  exact hread.append (.cons rfl (.single rfl))

mutual

theorem reaches_dump {v : Json} (h : Writable showNum hooks v) (stack : List Frame) :
    ∃ s, Reaches hooks ⟨.value, stack⟩ (dump showNum v) s ∧ Ends hooks v stack s := by
  cases h with
  | null =>
    rw [dump]
    exact word_first (by decide) (List.all_eq_true.mp (by decide)) rfl stack
  | bool b =>
    cases b with
    | true =>
      rw [dump]
      exact word_first (by decide) (List.all_eq_true.mp (by decide)) rfl stack
    | false =>
      rw [dump]
      exact word_first (by decide) (List.all_eq_true.mp (by decide)) rfl stack
  | num hn => exact word_first hn.ne_nil hn.isWord hn.reads stack
  | str text =>
    refine ⟨_, .cons (step_value rfl) ?_, ends_ended _ stack⟩
    exact @reaches_string hooks (fun raw escaped => ⟨.text raw escaped, stack⟩)
      (fun text => ⟨.ended (.str text), stack⟩) (fun _ _ _ => rfl) text
  | arr hitems =>
    cases hitems with
    | nil => exact ⟨_, .cons rfl (.single rfl), ends_ended _ stack⟩
    | cons head tail =>
      obtain ⟨s, hreads, hends⟩ := reaches_dump head (.array [] :: stack)
      refine ⟨_, ?_, ends_ended _ stack⟩
      rw [dump]
      exact .cons rfl ((reaches_firstItem head hreads).append (reaches_items [] tail hends))
  | obj nodup hfields =>
    cases hfields with
    | nil => exact ⟨_, .cons rfl (.single rfl), ends_ended _ stack⟩
    | @cons key v rest head tail =>
      obtain ⟨s, hreads, hends⟩ := reaches_dump head (.object [] key :: stack)
      refine ⟨_, ?_, ends_ended _ stack⟩
      have hkey : Reaches hooks ⟨.firstKey, stack⟩ _ ⟨.value, .object [] key :: stack⟩ :=
        reaches_key [] key rfl
      have hrest := (hkey.append hreads).append (reaches_fields [] nodup tail hends)
      rw [dump]
      refine .cons rfl ?_
      simpa only [List.append_assoc, List.cons_append, List.nil_append] using hrest

/-- The items behind one that has been read. -/
theorem reaches_items {s : State} {stack : List Frame} {v : Json} (done : List Json) {rest : List Json}
    (h : WritableItems showNum hooks rest) (hends : Ends hooks v (.array done :: stack) s) :
    Reaches hooks s (dumpItems showNum rest) ⟨.ended (.arr (done ++ v :: rest)), stack⟩ := by
  cases h with
  | nil => exact .single (hends.next ']' rfl)
  | @cons w rest head tail =>
    obtain ⟨t, hreads, hends'⟩ := reaches_dump head (.array (done ++ [v]) :: stack)
    have hmore := reaches_items (done ++ [v]) tail hends'
    rw [List.append_assoc, List.singleton_append] at hmore
    rw [dumpItems]
    exact .cons (hends.next ',' rfl) (.cons rfl (hreads.append hmore))

/-- The fields behind one that has been read. -/
theorem reaches_fields {s : State} {stack : List Frame} {key : String} {v : Json}
    (done : List (String × Json)) {rest : List (String × Json)}
    (nodup : ((done ++ (key, v) :: rest).map Prod.fst).Nodup)
    (h : WritableFields showNum hooks rest) (hends : Ends hooks v (.object done key :: stack) s) :
    Reaches hooks s (dumpFields showNum rest)
      ⟨.ended (.obj (done ++ (key, v) :: rest)), stack⟩ := by
  have hnew : Dict.insertList key v done = done ++ [(key, v)] := by
    refine Dict.insertList_of_notMem v ?_
    rw [List.map_append, List.map_cons] at nodup
    exact fun hmem => List.disjoint_of_nodup_append nodup hmem List.mem_cons_self
  cases h with
  | nil =>
    have hclose := hends.next '\x7d' rfl
    refine .single (hclose.trans ?_)
    rw [← hnew]
    rfl
  | @cons key' w rest head tail =>
    obtain ⟨t, hreads, hends'⟩ := reaches_dump head (.object (done ++ [(key, v)]) key' :: stack)
    have hcomma : step hooks s ',' = some ⟨.key (done ++ [(key, v)]), stack⟩ := by
      rw [hends.next ',' rfl, ← hnew]
      rfl
    have hkey : Reaches hooks ⟨.key (done ++ [(key, v)]), stack⟩ _
        ⟨.value, .object (done ++ [(key, v)]) key' :: stack⟩ := reaches_key _ key' rfl
    have hmore := reaches_fields (done ++ [(key, v)]) (by simpa using nodup) tail hends'
    have hrest := (hkey.append hreads).append hmore
    rw [dumpFields]
    refine .cons hcomma (.cons rfl ?_)
    simpa only [List.append_assoc, List.cons_append, List.nil_append] using hrest

end

/-- What was written is read back. -/
theorem loads_dumps {v : Json} (h : Writable showNum hooks v) :
    loads hooks (dumps showNum v) = some v := by
  obtain ⟨s, hreads, hends⟩ := reaches_dump h []
  have hrun : run hooks (dump showNum v) = some s := hreads
  rw [loads, dumps, String.toList_ofList, hrun, Option.bind_some]
  exact hends.finished rfl

/-! ## Integers -/

theorem head?_toDigits {n : Nat} (h : 0 < n) : (Nat.toDigits 10 n).head? ≠ some '0' := by
  induction n using Nat.strong_induction_on with
  | _ n ih =>
    by_cases hlt : n < 10
    · rw [Nat.toDigits_of_lt_base hlt]
      interval_cases n <;> decide
    · have hpos : 0 < n / 10 := by omega
      rw [Nat.toDigits_of_base_le (by decide) (by omega),
        List.head?_append_of_ne_nil _ Nat.toDigits_ne_nil]
      exact ih _ (by omega) hpos

theorem isNatural_toDigits (n : Nat) : isNatural (Nat.toDigits 10 n) = true := by
  have hdigits : isDigits (Nat.toDigits 10 n) = true := by
    have hall : ∀ c ∈ Nat.toDigits 10 n, c.isDigit = true := fun c hc =>
      Nat.isDigit_of_mem_toDigits (by decide) (by decide) hc
    simpa [isDigits, Nat.toDigits_ne_nil] using hall
  rw [isNatural, hdigits, Bool.true_and]
  rcases Nat.eq_zero_or_pos n with rfl | hpos
  · rfl
  · simp [head?_toDigits hpos]

theorem digits_ofNat (m : Nat) : PyFloat.digits (.ofNat m) = Nat.toDigits 10 m := Nat.toList_repr

theorem digits_negSucc (m : Nat) :
    PyFloat.digits (.negSucc m) = '-' :: Nat.toDigits 10 (m + 1) := by
  show ("-" ++ (m + 1).repr).toList = _
  rw [String.toList_append, Nat.toList_repr]
  rfl

theorem notMem_toDigits {c : Char} (h : c.isDigit = false) (n : Nat) : c ∉ Nat.toDigits 10 n := by
  intro hmem
  rw [Nat.isDigit_of_mem_toDigits (by decide) (by decide) hmem] at h
  cases h

theorem isNumber_digits (n : Int) : isNumber (PyFloat.digits n) = true := by
  have hunsigned : ∀ m : Nat, isNatural ((Nat.toDigits 10 m).takeWhile Char.isDigit) = true ∧
      isFraction ((Nat.toDigits 10 m).dropWhile Char.isDigit) = true := by
    intro m
    have hall : ∀ c ∈ Nat.toDigits 10 m, c.isDigit = true := fun c hc =>
      Nat.isDigit_of_mem_toDigits (by decide) (by decide) hc
    rw [List.takeWhile_eq_self_iff.mpr hall, List.dropWhile_eq_nil_iff.mpr hall]
    exact ⟨isNatural_toDigits m, rfl⟩
  unfold isNumber
  rw [Bool.and_eq_true]
  cases n with
  | ofNat m =>
    have hsign : (Nat.toDigits 10 m).head? ≠ some '-' := fun hhead =>
      notMem_toDigits rfl m (List.mem_of_mem_head? hhead)
    rw [digits_ofNat, if_neg hsign]
    exact hunsigned m
  | negSucc m =>
    rw [digits_negSucc, List.head?_cons, if_pos rfl, List.tail_cons]
    exact hunsigned (m + 1)

theorem readWord_digits (n : Int) :
    readWord hooks (PyFloat.digits n) = hooks.parseInt (PyFloat.digits n) := by
  have hdigit : ∀ c ∈ PyFloat.digits n, c.isDigit = true ∨ c = '-' := fun c hc =>
    PyFloat.mem_digits hc
  -- none of the constants
  have hne : ∀ (word : List Char) (c : Char), c ∈ word → c.isDigit = false → c ≠ '-' →
      PyFloat.digits n ≠ word := by
    rintro word c hmem hletter hminus rfl
    rcases hdigit c hmem with hc | hc
    · rw [hletter] at hc
      cases hc
    · exact hminus hc
  have hall : ((PyFloat.digits n).all fun c => c.isDigit || c = '-') = true := by
    rw [List.all_eq_true]
    intro c hc
    simpa using hdigit c hc
  unfold readWord
  rw [if_neg (hne _ 'n' (by decide) rfl (by decide)), if_neg (hne _ 't' (by decide) rfl (by decide)),
    if_neg (hne _ 'f' (by decide) rfl (by decide)), if_neg, if_pos (isNumber_digits n),
    if_pos hall]
  rintro (h | h | h)
  · exact hne _ 'N' (by decide) rfl (by decide) h
  · exact hne _ 'I' (by decide) rfl (by decide) h
  · exact hne _ 'I' (by decide) rfl (by decide) h

/-- Where `int` undoes `str`. -/
theorem readable_int {n : Int} (hshow : showNum n = PyFloat.digits n)
    (hparse : hooks.parseInt (PyFloat.digits n) = some (.num n)) :
    Readable showNum hooks n where
  ne_nil := by
    rw [hshow]
    exact PyFloat.digits_ne n
  isWord c hc := by
    rw [hshow] at hc
    rcases PyFloat.mem_digits hc with hd | rfl
    · simp [isWordChar, Char.isAlphanum, hd]
    · rfl
  reads := by rw [hshow, readWord_digits, hparse]

/-- `int(text)` of a number without fraction and exponent; the interpreter refuses more than 4300
digits. -/
def intOfWord (word : List Char) : Option Int :=
  match word with
  | '-' :: digits => if digits.length ≤ 4300 then some (-(Nat.ofDigitChars 10 digits 0 : Int)) else none
  | digits => if digits.length ≤ 4300 then some (Nat.ofDigitChars 10 digits 0 : Int) else none

/-- The decoder with its own `parse_int`. -/
def intHooks (parseFloat parseConstant : List Char → Option Json) : Hooks where
  parseInt word := (intOfWord word).map fun n => .num n
  parseFloat := parseFloat
  parseConstant := parseConstant

/-- The encoder writes an integer in decimal. -/
def showInt (n : ℚ) : List Char := PyFloat.digits n.num

theorem length_toDigits_le {n k : Nat} (hk : 0 < k) (h : n < 10 ^ k) :
    (Nat.toDigits 10 n).length ≤ k := (Nat.length_toDigits_le_iff (by decide) hk).mpr h

theorem intOfWord_digits {n : Int} (h : n.natAbs < 10 ^ 4300) :
    intOfWord (PyFloat.digits n) = some n := by
  have hlength : (Nat.toDigits 10 n.natAbs).length ≤ 4300 := length_toDigits_le (by decide) h
  cases n with
  | ofNat m =>
    rw [Int.natAbs_ofNat'] at hlength
    rw [digits_ofNat]
    unfold intOfWord
    split
    · next rest heq => exact absurd (heq ▸ List.mem_cons_self) (notMem_toDigits (c := '-') rfl m)
    · rw [if_pos hlength, Nat.ofDigitChars_ten_toDigits]
      rfl
  | negSucc m =>
    rw [Int.natAbs_negSucc] at hlength
    rw [digits_negSucc]
    simp only [intOfWord]
    rw [if_pos hlength, Nat.ofDigitChars_ten_toDigits]
    rfl

/-- The integers the interpreter writes are read back. -/
theorem readable_showInt {parseFloat parseConstant : List Char → Option Json} {n : Int}
    (h : n.natAbs < 10 ^ 4300) : Readable showInt (intHooks parseFloat parseConstant) n :=
  readable_int rfl (by simp [intHooks, intOfWord_digits h])

end JsonText
