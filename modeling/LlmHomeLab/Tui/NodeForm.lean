import LlmHomeLab.Gateway.System
import LlmHomeLab.Lib.CommaList
import LlmHomeLab.Lib.PyFloat

/-! # Editing a node

`NodeFormScreen` of `tui/app.py` in edit mode: every setting of a node is written into an input, and
read back from it when the form is saved; what is read is sent as a PATCH. A form that is saved as
it was opened should change nothing.
-/

namespace LlmHomeLab

/-! ## Data -/

/-- `NodeRegistrationRequest`. -/
structure NodeRegistration where
  hostId : String
  backendType : String
  contextWindow : Int
  baseUrl : String
  maxConcurrentRequests : Int
  allowedModels : Option (List String) := none
  memoryBudgetGb : Option ℚ := none
  modelSizesGb : Option (Dict String ℚ) := none
  modelAliases : Option (Dict String (List String)) := none
  position : Option Int := none

namespace NodeRegistration

/-- What `register_node` stores. -/
def capabilities (node : NodeRegistration) : HostCapabilities where
  backendType := some node.backendType
  contextWindow := some node.contextWindow
  baseUrl := some node.baseUrl
  allowedModels := node.allowedModels
  memoryBudgetGb := node.memoryBudgetGb
  modelSizesGb := node.modelSizesGb
  modelAliases := node.modelAliases
  position := node.position

def capacity (node : NodeRegistration) : HostCapacity := ⟨some node.maxConcurrentRequests⟩

end NodeRegistration

/-- The texts of floats. -/
structure FloatTexts where
  /-- `str(x)`. -/
  str : ℚ → List Char
  /-- `float(text)`; `none` where it raises `ValueError`. -/
  float : List Char → Option ℚ

/-- The text of a float has no spaces and is read back as the float. -/
structure FloatTexts.RoundTrips (texts : FloatTexts) (x : ℚ) : Prop where
  ne_nil : texts.str x ≠ []
  visible : ∀ c ∈ texts.str x, Json.isSpace c = false
  float_str : texts.float (texts.str x) = some x

inductive FormError where
  | wholeNumbers
  | emptyBaseUrl
  | memoryBudget
  | duplicateModel (name : String)
  | sizeValue
  | aliasValue
deriving DecidableEq, Repr

def FormError.message : FormError → String
  | .wholeNumbers => "context_window and max_concurrent_requests must be whole numbers"
  | .emptyBaseUrl => "base_url must not be empty"
  | .memoryBudget => "memory_budget_gb must be a number"
  | .duplicateModel name => "duplicate model name \"" ++ name ++ "\""
  | .sizeValue => "model_sizes_gb values must be numbers"
  | .aliasValue => "model_aliases values must not be empty"

/-- What is in the inputs of the form. -/
structure NodeForm where
  backendType : String
  contextWindow : List Char
  maxConcurrentRequests : List Char
  baseUrl : List Char
  suggestedBaseUrl : Option (List Char)
  allowedModels : List Char
  memoryBudgetGb : List Char
  modelSizesRows : List (List Char × List Char)
  modelAliasesRows : List (List Char × List Char)

/-! ## Texts -/

/-- `str.strip`. -/
def stripText (text : List Char) : List Char := CommaList.strip Json.isSpace text

/-- `", ".join(names)`. -/
def writeNames (names : List String) : List Char :=
  CommaList.joinWith [',', ' '] (names.map String.toList)

/-- `[m.strip() for m in text.split(",") if m.strip()]`. -/
def readNames (text : List Char) : List String :=
  (CommaList.items Json.isSpace ',' text).map String.ofList

/-- The value of decimal digits, with single underscores between them. -/
def parseDigits (text : List Char) : Option Nat :=
  if (text.splitOn '_').all fun group => group ≠ [] && group.all Char.isDigit then
    some (Nat.ofDigitChars 10 (text.filter (· ≠ '_')) 0)
  else none

/-- `int(text)`, for the digits 0 to 9; `none` where it raises `ValueError`. -/
def parseInt (text : List Char) : Option Int :=
  match stripText text with
  | '-' :: digits => (parseDigits digits).map fun n => -(n : Int)
  | '+' :: digits => (parseDigits digits).map fun n => (n : Int)
  | digits => (parseDigits digits).map fun n => (n : Int)

/-- `str` of an integer or null. -/
def strOfInt : Option Int → List Char
  | some n => PyFloat.digits n
  | none => "None".toList

/-! ## Opening -/

/-- `_DEFAULT_BASE_URLS.get(backend_type, "")`. -/
def defaultBaseUrl (backendType : String) : List Char :=
  if backendType = "lmstudio" then "http://localhost:1234".toList
  else if backendType = "llamaserver" then "http://localhost:8080".toList
  else []

/-- `x or None`. -/
def orNone (text : List Char) : Option (List Char) := if text = [] then none else some text

namespace NodeForm

/-- `compose` and `on_mount`, for a node as it is listed. -/
def opened (texts : FloatTexts) (node : HostCapabilities) (capacity : HostCapacity) : NodeForm :=
  let backendType :=
    match node.backendType with
    | none => "lmstudio"
    | some backendType => if backendType = "" then "lmstudio" else backendType
  let baseUrl := (node.baseUrl.getD "None").toList
  let suggestion := defaultBaseUrl backendType
  { backendType
    contextWindow := strOfInt node.contextWindow
    maxConcurrentRequests := strOfInt capacity.maxConcurrentRequests
    baseUrl := if baseUrl = [] then suggestion else baseUrl
    suggestedBaseUrl := if baseUrl = [] then orNone suggestion else none
    allowedModels := writeNames (node.allowedModels.getD [])
    memoryBudgetGb := node.memoryBudgetGb.elim [] texts.str
    modelSizesRows :=
      (node.modelSizesGb.getD .empty).entries.map fun kv => (kv.1.toList, texts.str kv.2)
    modelAliasesRows :=
      (node.modelAliases.getD .empty).entries.map fun kv => (kv.1.toList, writeNames kv.2) }

/-- `on_select_changed`. -/
def selectChanged (form : NodeForm) (backendType : String) : NodeForm :=
  if stripText form.baseUrl ≠ [] ∧ some form.baseUrl ≠ form.suggestedBaseUrl then form
  else
    let suggestion := defaultBaseUrl backendType
    { form with baseUrl := suggestion, suggestedBaseUrl := orNone suggestion }

/-! ## Saving -/

/-- `_collect_mapping_rows`: `result` and `seen` are what the rows so far have given. -/
def collectMappingRows {V : Type} (parseValue : List Char → Option V) (valueError : FormError) :
    List (List Char × List Char) → Dict String V → List String → Except FormError (Dict String V)
  | [], result, _ => .ok result
  | row :: rows, result, seen =>
    let name := String.ofList (stripText row.1)
    if name = "" then collectMappingRows parseValue valueError rows result seen
    else if name ∈ seen then .error (.duplicateModel name)
    else
      let rawValue := stripText row.2
      if rawValue = [] then collectMappingRows parseValue valueError rows result (seen ++ [name])
      else
        match parseValue rawValue with
        | none => .error valueError
        | some value =>
          collectMappingRows parseValue valueError rows (result.set name value) (seen ++ [name])

/-- `mapping or None`. -/
def mappingOrNone {V : Type} (mapping : Dict String V) : Option (Dict String V) :=
  if mapping.entries = [] then none else some mapping

/-- `memory_budget_gb`, of the stripped text. -/
def collectMemoryBudget (texts : FloatTexts) (raw : List Char) : Except FormError (Option ℚ) :=
  if raw = [] then .ok none else (texts.float raw).elim (.error .memoryBudget) fun x => .ok (some x)

/-- `_collect_fields` in edit mode. -/
def collectFields (texts : FloatTexts) (form : NodeForm) : Except FormError NodeUpdate := do
  let contextWindow ← (parseInt form.contextWindow).elim (.error .wholeNumbers) .ok
  let maxConcurrentRequests ←
    (parseInt form.maxConcurrentRequests).elim (.error .wholeNumbers) .ok
  let baseUrl := stripText form.baseUrl
  if baseUrl = [] then .error .emptyBaseUrl
  let allowedModelsRaw := stripText form.allowedModels
  let allowedModels := if allowedModelsRaw = [] then none else some (readNames allowedModelsRaw)
  let memoryBudgetGb ← collectMemoryBudget texts (stripText form.memoryBudgetGb)
  let modelSizesGb ← collectMappingRows texts.float .sizeValue form.modelSizesRows .empty []
  let modelAliases ←
    collectMappingRows (fun raw => some (readNames raw)) .aliasValue form.modelAliasesRows .empty []
  return {
    backendType := some (some form.backendType)
    contextWindow := some (some contextWindow)
    maxConcurrentRequests := some (some maxConcurrentRequests)
    baseUrl := some (some (String.ofList baseUrl))
    allowedModels := some allowedModels
    memoryBudgetGb := some memoryBudgetGb
    modelSizesGb := some (mappingOrNone modelSizesGb)
    modelAliases := some (mappingOrNone modelAliases) }

/-- The form is opened on a node and saved without edits. Whether the select box posts its first
value as a change is up to the widget library. -/
def savedUnedited (texts : FloatTexts) (posted : Bool) (node : HostCapabilities)
    (capacity : HostCapacity) : Except FormError NodeUpdate :=
  let form := opened texts node capacity
  collectFields texts (if posted then form.selectChanged form.backendType else form)

end NodeForm

/-! ## Texts that are read back -/

/-- A name with no space at its ends, and not blank. -/
structure CleanName (name : String) : Prop where
  ne_empty : name ≠ ""
  stripped : stripText name.toList = name.toList

/-- A name that can stand in a list with commas. -/
def ListName (name : String) : Prop := CommaList.IsItem Json.isSpace ',' name.toList

theorem parseDigits_toDigits (n : Nat) : parseDigits (Nat.toDigits 10 n) = some n := by
  have hdigit : ∀ c ∈ Nat.toDigits 10 n, c.isDigit = true := fun c hc =>
    Nat.isDigit_of_mem_toDigits (by decide) (by decide) hc
  have hunderscore : '_' ∉ Nat.toDigits 10 n := by
    intro hmem
    cases hdigit _ hmem
  have hfilter : (Nat.toDigits 10 n).filter (· ≠ '_') = Nat.toDigits 10 n := by
    refine List.filter_eq_self.mpr fun c hc => ?_
    have hne : c ≠ '_' := fun heq => hunderscore (heq ▸ hc)
    simpa using hne
  rw [parseDigits, List.splitOn_eq_singleton hunderscore, hfilter, Nat.ofDigitChars_ten_toDigits,
    if_pos]
  simpa [Nat.toDigits_ne_nil] using hdigit

/-- `int(str(n)) == n`. -/
theorem parseInt_digits (n : Int) : parseInt (PyFloat.digits n) = some n := by
  have hstrip : stripText (PyFloat.digits n) = PyFloat.digits n :=
    CommaList.strip_of_visible (PyFloat.digits_visible n)
  rw [parseInt, hstrip]
  cases n with
  | ofNat m =>
    have hdigits : PyFloat.digits (.ofNat m) = Nat.toDigits 10 m := Nat.toList_repr
    rw [hdigits]
    -- the first character is a digit, not a sign
    split
    · next rest heq =>
      have hsign := Nat.isDigit_of_mem_toDigits (by decide) (by decide)
        (heq ▸ List.mem_cons_self : '-' ∈ Nat.toDigits 10 m)
      cases hsign
    · next rest heq =>
      have hsign := Nat.isDigit_of_mem_toDigits (by decide) (by decide)
        (heq ▸ List.mem_cons_self : '+' ∈ Nat.toDigits 10 m)
      cases hsign
    · rw [parseDigits_toDigits]
      rfl
  | negSucc m =>
    have hdigits : PyFloat.digits (.negSucc m) = '-' :: Nat.toDigits 10 (m + 1) := by
      show ("-" ++ (m + 1).repr).toList = _
      rw [String.toList_append, Nat.toList_repr]
      rfl
    rw [hdigits]
    show (parseDigits (Nat.toDigits 10 (m + 1))).map (fun n => -(n : Int)) = _
    rw [parseDigits_toDigits]
    rfl

/-- A list of names is read back exactly if each of them can stand in a list. -/
theorem readNames_writeNames_iff {names : List String} :
    readNames (stripText (writeNames names)) = names ↔ ∀ name ∈ names, ListName name := by
  have hread : readNames (stripText (writeNames names)) =
      ((names.map String.toList).flatMap (CommaList.items Json.isSpace ',')).map String.ofList := by
    rw [readNames, stripText, CommaList.items_strip (by decide), writeNames,
      CommaList.items_joinWith (by decide) (by decide)]
  have hnames : (names.map String.toList).map String.ofList = names := by simp
  have hinj : Function.Injective (List.map String.ofList) :=
    List.map_injective_iff.mpr fun a b h => by simpa using congrArg String.toList h
  rw [hread]
  calc ((names.map String.toList).flatMap (CommaList.items Json.isSpace ',')).map String.ofList =
        names
      ↔ ((names.map String.toList).flatMap (CommaList.items Json.isSpace ',')).map String.ofList =
          (names.map String.toList).map String.ofList := by rw [hnames]
    _ ↔ (names.map String.toList).flatMap (CommaList.items Json.isSpace ',') =
          names.map String.toList := hinj.eq_iff
    _ ↔ ∀ name ∈ names, ListName name := by
        rw [CommaList.flatMap_items_eq_self_iff, List.forall_mem_map]
        rfl

/-- With names in it that are read back, a text is not blank. -/
theorem writeNames_ne_blank {names : List String} (hne : names ≠ [])
    (h : ∀ name ∈ names, ListName name) : stripText (writeNames names) ≠ [] := by
  intro hblank
  have hread := readNames_writeNames_iff.mpr h
  rw [hblank] at hread
  exact hne hread.symm

/-- What is collected of a list that may be null. -/
theorem collected_names_iff {names : Option (List String)} :
    (if stripText (writeNames (names.getD [])) = [] then none
      else some (readNames (stripText (writeNames (names.getD []))))) = names ↔
    ∀ list, names = some list → list ≠ [] ∧ ∀ name ∈ list, ListName name := by
  cases names with
  | none => exact iff_of_true rfl (by simp)
  | some list =>
    simp only [Option.getD_some, Option.some.injEq, forall_eq']
    constructor
    · intro h
      split at h
      · cases h
      · next hblank =>
        refine ⟨?_, readNames_writeNames_iff.mp (Option.some.inj h)⟩
        rintro rfl
        exact hblank rfl
    · rintro ⟨hne, hnames⟩
      rw [if_neg (writeNames_ne_blank hne hnames), readNames_writeNames_iff.mpr hnames]

/-! ## Rows that are read back -/

/-- The name a row is read under. -/
def rowName (row : List Char × List Char) : String := String.ofList (stripText row.1)

/-- The names of the rows that count. -/
def rowNames (rows : List (List Char × List Char)) : List String :=
  (rows.map rowName).filter (· ≠ "")

/-- What is kept of a row. -/
def keptRow {V : Type} (parseValue : List Char → Option V) (row : List Char × List Char) :
    Option (String × V) :=
  if rowName row = "" ∨ stripText row.2 = [] then none
  else (parseValue (stripText row.2)).map fun value => (rowName row, value)

section

variable {V : Type} {parseValue : List Char → Option V} {valueError : FormError}

variable (parseValue valueError) in
/-- Where all values can be parsed, rows are refused for a name that comes twice, and else kept in
their order. -/
theorem collectMappingRows_spec (rows : List (List Char × List Char))
    (hparse : ∀ row ∈ rows, stripText row.2 ≠ [] → ∃ v, parseValue (stripText row.2) = some v)
    (result : Dict String V) (seen : List String) (hseen : seen.Nodup)
    (hresult : ∀ name, result.contains name = true → name ∈ seen) :
    (¬ (seen ++ rowNames rows).Nodup ∧ ∃ name,
      NodeForm.collectMappingRows parseValue valueError rows result seen =
        .error (.duplicateModel name)) ∨
    ((seen ++ rowNames rows).Nodup ∧ ∃ d : Dict String V,
      NodeForm.collectMappingRows parseValue valueError rows result seen = .ok d ∧
        d.entries = result.entries ++ rows.filterMap (keptRow parseValue)) := by
  induction rows generalizing result seen with
  | nil => exact Or.inr ⟨by simpa [rowNames] using hseen, result, rfl, by simp⟩
  | cons row rows ih =>
    rw [List.forall_mem_cons] at hparse
    have hunfold : NodeForm.collectMappingRows parseValue valueError (row :: rows) result seen =
        if rowName row = "" then NodeForm.collectMappingRows parseValue valueError rows result seen
        else if rowName row ∈ seen then .error (.duplicateModel (rowName row))
        else if stripText row.2 = [] then
          NodeForm.collectMappingRows parseValue valueError rows result (seen ++ [rowName row])
        else (parseValue (stripText row.2)).elim (.error valueError) fun value =>
          NodeForm.collectMappingRows parseValue valueError rows (result.set (rowName row) value)
            (seen ++ [rowName row]) := by
      simp only [NodeForm.collectMappingRows, rowName]
      congr 3
      cases parseValue (stripText row.2) <;> rfl
    rw [hunfold, rowNames, List.map_cons, List.filter_cons, List.filterMap_cons]
    by_cases hname : rowName row = ""
    · have hkept : keptRow parseValue row = none := if_pos (Or.inl hname)
      simp only [hname, if_true, ne_eq, not_true_eq_false, decide_false, Bool.false_eq_true,
        if_false, hkept]
      exact ih hparse.2 _ _ hseen hresult
    · have hmoved : seen ++ rowName row :: rowNames rows =
          seen ++ [rowName row] ++ rowNames rows := by simp
      simp only [ne_eq, hname, not_false_eq_true, decide_true, if_true]
      rw [← rowNames, hmoved]
      by_cases hmem : rowName row ∈ seen
      · -- the name has been seen
        rw [if_pos hmem]
        refine Or.inl ⟨fun hnodup => ?_, rowName row, rfl⟩
        have hdisjoint := (List.nodup_append.mp (List.nodup_append.mp hnodup).1).2.2
        exact hdisjoint _ hmem _ (List.mem_singleton_self _) rfl
      · have hseen' : (seen ++ [rowName row]).Nodup :=
          List.nodup_append.mpr ⟨hseen, List.nodup_singleton _, fun a ha b hb heq => by
            rw [List.mem_singleton.mp hb] at heq
            exact hmem (heq ▸ ha)⟩
        rw [if_neg hmem]
        by_cases hblank : stripText row.2 = []
        · have hkept : keptRow parseValue row = none := if_pos (Or.inr hblank)
          rw [if_pos hblank, hkept]
          exact ih hparse.2 _ _ hseen' fun name hcontains =>
            List.mem_append_left _ (hresult name hcontains)
        · obtain ⟨value, hvalue⟩ := hparse.1 hblank
          have hkept : keptRow parseValue row = some (rowName row, value) := by
            rw [keptRow, if_neg (by tauto), hvalue]
            rfl
          have hnone : result.get? (rowName row) = none := by
            rw [← Dict.contains_eq_false, Bool.eq_false_iff]
            exact fun hcontains => hmem (hresult _ hcontains)
          rw [if_neg hblank, hvalue, hkept, Option.elim_some]
          have hrest := ih hparse.2 (result.set (rowName row) value) _ hseen'
            fun name hcontains => by
              rcases (Dict.contains_set_iff _).mp hcontains with rfl | hcontains
              · simp
              · exact List.mem_append_left _ (hresult name hcontains)
          rw [Dict.entries_set_of_get?_eq_none _ hnone] at hrest
          simpa using hrest

/-! ## Mappings that are read back -/

/-- The rows of a mapping that may be null. -/
def mappingRows (write : V → List Char) (mapping : Option (Dict String V)) :
    List (List Char × List Char) :=
  (mapping.getD .empty).entries.map fun kv => (kv.1.toList, write kv.2)

/-- The names of a mapping, as they are read. -/
def strippedNames (mapping : Option (Dict String V)) : List String :=
  ((mapping.getD .empty).keys.map fun name => String.ofList (stripText name.toList)).filter (· ≠ "")

/-- The value that is read of the text of one. -/
def readBack (write : V → List Char) (parseValue : List Char → Option V) (v : V) : Option V :=
  if stripText (write v) = [] then none else parseValue (stripText (write v))

variable {write : V → List Char} {mapping : Option (Dict String V)}

theorem rowNames_mappingRows : rowNames (mappingRows write mapping) = strippedNames mapping := by
  rw [rowNames, mappingRows, strippedNames, Dict.keys, List.map_map, List.map_map]
  rfl

theorem keptRow_eq_some {name name' : String} {v w : V} :
    keptRow parseValue (name.toList, write v) = some (name', w) ↔
      String.ofList (stripText name.toList) ≠ "" ∧
        String.ofList (stripText name.toList) = name' ∧ readBack write parseValue v = some w := by
  unfold keptRow readBack rowName
  by_cases hname : String.ofList (stripText name.toList) = "" <;>
    by_cases hblank : stripText (write v) = [] <;>
    simp [hname, hblank, and_comm]

theorem cleanName_stripped {name : String} (h : String.ofList (stripText name.toList) ≠ "") :
    CleanName (String.ofList (stripText name.toList)) where
  ne_empty := h
  stripped := by
    rw [String.toList_ofList]
    exact CommaList.strip_strip

theorem CleanName.ofList_eq {name : String} (h : CleanName name) :
    String.ofList (stripText name.toList) = name := by
  rw [h.stripped, String.ofList_toList]

/-- What is collected of a mapping is the mapping itself exactly if it is null, or not empty with
clean names and values that are read back. -/
theorem collected_mapping_iff [DecidableEq V] {d : Dict String V}
    (hentries : d.entries = (mappingRows write mapping).filterMap (keptRow parseValue)) :
    sameItems (NodeForm.mappingOrNone d) mapping = true ↔
      ∀ m, mapping = some m → m.entries ≠ [] ∧
        ∀ name v, m.get? name = some v → CleanName name ∧ readBack write parseValue v = some v := by
  have hget : ∀ name w, d.get? name = some w ↔
      ∃ name' v, (name', v) ∈ (mapping.getD .empty).entries ∧
        keptRow parseValue (name'.toList, write v) = some (name, w) := by
    intro name w
    rw [Dict.get?_eq_some, hentries, mappingRows, List.filterMap_map, List.mem_filterMap]
    simp only [Prod.exists, Function.comp_apply]
  cases mapping with
  | none =>
    refine iff_of_true ?_ (by simp)
    have hnil : d.entries = [] := by rw [hentries]; rfl
    rw [NodeForm.mappingOrNone, if_pos hnil]
    rfl
  | some m =>
    simp only [Option.getD_some, Option.some.injEq, forall_eq'] at hget ⊢
    constructor
    · intro hsame
      obtain ⟨hsome, hitems⟩ := sameItems_iff.mp hsame
      have hne : d.entries ≠ [] := by
        intro hnil
        rw [NodeForm.mappingOrNone, if_pos hnil] at hsome
        cases hsome
      rw [NodeForm.mappingOrNone, if_neg hne] at hitems
      have hback : ∀ name v, m.get? name = some v → d.get? name = some v := fun name v hv =>
        (hitems name).trans hv
      have hclean : ∀ name v, m.get? name = some v → CleanName name := by
        intro name v hv
        obtain ⟨name', v', -, hkept⟩ := (hget name v).mp (hback name v hv)
        obtain ⟨hname, rfl, -⟩ := keptRow_eq_some.mp hkept
        exact cleanName_stripped hname
      refine ⟨?_, fun name v hv => ⟨hclean name v hv, ?_⟩⟩
      · intro hnil
        rw [hentries, mappingRows, Option.getD_some, hnil] at hne
        exact hne rfl
      · obtain ⟨name', v', hmem, hkept⟩ := (hget name v).mp (hback name v hv)
        obtain ⟨-, hname, hread⟩ := keptRow_eq_some.mp hkept
        have hv' := (Dict.get?_eq_some _).mpr hmem
        -- the names of the mapping are clean, so the row is that of the name itself
        rw [(hclean name' v' hv').ofList_eq] at hname
        rw [hname, hv] at hv'
        cases hv'
        exact hread
    · rintro ⟨hne, hall⟩
      have hsame : d.entries = m.entries := by
        have hkept : ∀ kv ∈ m.entries, keptRow parseValue (kv.1.toList, write kv.2) = some kv := by
          intro kv hkv
          obtain ⟨hclean, hread⟩ := hall kv.1 kv.2 ((Dict.get?_eq_some _).mpr hkv)
          exact keptRow_eq_some.mpr ⟨by rw [hclean.ofList_eq]; exact hclean.ne_empty,
            hclean.ofList_eq, hread⟩
        rw [hentries, mappingRows, Option.getD_some, List.filterMap_map, Function.comp_def,
          List.filterMap_congr hkept, List.filterMap_some]
      rw [NodeForm.mappingOrNone, if_neg (hsame ▸ hne), Dict.ext_entries hsame]
      exact sameItems_iff.mpr ⟨rfl, fun _ => rfl⟩

end

/-! ## Statement -/

namespace NodeRegistration

variable (node : NodeRegistration) (texts : FloatTexts) (posted : Bool)

/-- The backend type the form shows. -/
def shownType : String := if node.backendType = "" then "lmstudio" else node.backendType

/-- The form cannot be saved as it is: it has no base URL, or two models of one mapping have the
same name but for spaces. -/
def Refused : Prop :=
  (stripText node.baseUrl.toList = [] ∧
    (defaultBaseUrl node.shownType = [] ∨ (node.baseUrl ≠ "" ∧ posted = false))) ∨
  ¬ (strippedNames node.modelSizesGb).Nodup ∨ ¬ (strippedNames node.modelAliases).Nodup

/-- Every setting has a text of its own. -/
structure Clean : Prop where
  backendType : node.backendType ≠ ""
  baseUrl : CleanName node.baseUrl
  allowedModels : ∀ names, node.allowedModels = some names →
    names ≠ [] ∧ ∀ name ∈ names, ListName name
  modelSizesGb : ∀ sizes, node.modelSizesGb = some sizes →
    sizes.entries ≠ [] ∧ ∀ name ∈ sizes.keys, CleanName name
  modelAliases : ∀ mapping, node.modelAliases = some mapping →
    mapping.entries ≠ [] ∧ ∀ name aliases, mapping.get? name = some aliases →
      CleanName name ∧ aliases ≠ [] ∧ ∀ other ∈ aliases, ListName other

/-- The texts of the node's floats are read back. -/
structure FloatsRoundTrip : Prop where
  memoryBudgetGb : ∀ x, node.memoryBudgetGb = some x → texts.RoundTrips x
  modelSizesGb : ∀ sizes, node.modelSizesGb = some sizes → ∀ x ∈ sizes.values, texts.RoundTrips x

/-- The PATCH leaves the settings as they were. -/
def Unchanged (fields : NodeUpdate) : Prop :=
  (fields.capabilities node.capabilities).same node.capabilities = true ∧
    fields.capacity node.capacity = node.capacity

/-! ## The form of a registered node -/

/-- The base URL the form shows. -/
def shownBaseUrl : List Char :=
  if node.baseUrl.toList = [] ∨ (posted = true ∧ stripText node.baseUrl.toList = []) then
    defaultBaseUrl node.shownType
  else node.baseUrl.toList

/-- A change of the select box that is none matters for the base URL only. -/
theorem shown_form : ∃ suggested,
    (if posted then (NodeForm.opened texts node.capabilities node.capacity).selectChanged
        (NodeForm.opened texts node.capabilities node.capacity).backendType
      else NodeForm.opened texts node.capabilities node.capacity) =
    { NodeForm.opened texts node.capabilities node.capacity with
      baseUrl := node.shownBaseUrl posted, suggestedBaseUrl := suggested } := by
  have htype : (NodeForm.opened texts node.capabilities node.capacity).backendType =
      node.shownType := rfl
  have hbase : (NodeForm.opened texts node.capabilities node.capacity).baseUrl =
      if node.baseUrl.toList = [] then defaultBaseUrl node.shownType else node.baseUrl.toList := rfl
  have hsuggested : (NodeForm.opened texts node.capabilities node.capacity).suggestedBaseUrl =
      if node.baseUrl.toList = [] then orNone (defaultBaseUrl node.shownType) else none := rfl
  cases posted with
  | false =>
    refine ⟨(NodeForm.opened texts node.capabilities node.capacity).suggestedBaseUrl, ?_⟩
    have hshown : node.shownBaseUrl false =
        (NodeForm.opened texts node.capabilities node.capacity).baseUrl := by
      rw [hbase, shownBaseUrl]
      simp
    rw [hshown]
    rfl
  | true =>
    simp only [if_true]
    rw [NodeForm.selectChanged, hbase, hsuggested, htype]
    by_cases hempty : node.baseUrl.toList = []
    · have hshown : node.shownBaseUrl true = defaultBaseUrl node.shownType :=
        if_pos (Or.inl hempty)
      -- the suggestion is made again
      have hagain : ¬ (stripText (defaultBaseUrl node.shownType) ≠ [] ∧
          some (defaultBaseUrl node.shownType) ≠ orNone (defaultBaseUrl node.shownType)) := by
        rintro ⟨hne, hother⟩
        refine hother (if_neg fun hnil => hne ?_).symm
        rw [hnil]
        rfl
      rw [if_pos hempty, if_pos hempty, if_neg hagain, hshown]
      exact ⟨_, rfl⟩
    · rw [if_neg hempty, if_neg hempty]
      by_cases hblank : stripText node.baseUrl.toList = []
      · have hshown : node.shownBaseUrl true = defaultBaseUrl node.shownType :=
          if_pos (Or.inr ⟨rfl, hblank⟩)
        rw [if_neg (by tauto), hshown]
        exact ⟨_, rfl⟩
      · have hshown : node.shownBaseUrl true = node.baseUrl.toList :=
          if_neg (by tauto)
        refine ⟨(NodeForm.opened texts node.capabilities node.capacity).suggestedBaseUrl, ?_⟩
        have hkept : node.shownBaseUrl true =
            (NodeForm.opened texts node.capabilities node.capacity).baseUrl := by
          rw [hshown, hbase, if_neg hempty]
        rw [if_pos ⟨hblank, by simp⟩, hkept]
        rfl

variable {node texts posted}

theorem defaultBaseUrl_stripped (backendType : String) :
    stripText (defaultBaseUrl backendType) = defaultBaseUrl backendType := by
  refine CommaList.strip_of_visible ?_
  have hlmstudio : "http://localhost:1234".toList.all (fun c => !Json.isSpace c) = true := by decide
  have hllamaserver : "http://localhost:8080".toList.all (fun c => !Json.isSpace c) = true := by
    decide
  unfold defaultBaseUrl
  split
  · simpa using hlmstudio
  · split
    · simpa using hllamaserver
    · simp

/-- No base URL is left in the form exactly if none is registered and none is suggested. -/
theorem strip_shownBaseUrl_eq_nil : stripText (node.shownBaseUrl posted) = [] ↔
    stripText node.baseUrl.toList = [] ∧
      (defaultBaseUrl node.shownType = [] ∨ (node.baseUrl ≠ "" ∧ posted = false)) := by
  have hempty : node.baseUrl.toList = [] ↔ node.baseUrl = "" := by simp
  unfold shownBaseUrl
  split
  · next hdefault =>
    rw [defaultBaseUrl_stripped]
    have hblank : stripText node.baseUrl.toList = [] := by
      rcases hdefault with hnil | ⟨-, hblank⟩
      · rw [hnil]
        rfl
      · exact hblank
    constructor
    · exact fun h => ⟨hblank, Or.inl h⟩
    · rintro ⟨-, h | ⟨hne, hposted⟩⟩
      · exact h
      · rcases hdefault with hnil | ⟨hposted', -⟩
        · exact absurd (hempty.mp hnil) hne
        · rw [hposted] at hposted'
          cases hposted'
  · next hkept =>
    rw [not_or, hempty, not_and] at hkept
    constructor
    · intro hblank
      refine ⟨hblank, Or.inr ⟨hkept.1, ?_⟩⟩
      rw [Bool.eq_false_iff]
      exact fun hposted => hkept.2 hposted hblank
    · exact fun h => h.1

/-- The base URL is saved as it is registered exactly if it is not blank and has no space at its
ends. -/
theorem saved_baseUrl_iff (hne : stripText (node.shownBaseUrl posted) ≠ []) :
    String.ofList (stripText (node.shownBaseUrl posted)) = node.baseUrl ↔
      CleanName node.baseUrl := by
  have hlist : String.ofList (stripText (node.shownBaseUrl posted)) = node.baseUrl ↔
      stripText (node.shownBaseUrl posted) = node.baseUrl.toList := by
    rw [← String.toList_inj, String.toList_ofList]
  rw [hlist]
  constructor
  · intro h
    have hurl : node.baseUrl.toList ≠ [] := h ▸ hne
    refine ⟨fun hempty => hurl (by rw [hempty]; rfl), ?_⟩
    rw [← h]
    exact CommaList.strip_strip
  · rintro ⟨hnonempty, hstripped⟩
    have hurl : node.baseUrl.toList ≠ [] := by simpa using hnonempty
    have hshown : node.shownBaseUrl posted = node.baseUrl.toList := by
      refine if_neg ?_
      rw [hstripped]
      tauto
    rw [hshown, hstripped]

/-! ## What is saved -/

theorem float_of_roundTrips {x : ℚ} (h : texts.RoundTrips x) :
    readBack texts.str texts.float x = some x := by
  have hstrip : stripText (texts.str x) = texts.str x := CommaList.strip_of_visible h.visible
  rw [readBack, hstrip, if_neg h.ne_nil, h.float_str]

theorem collectMemoryBudget_opened (hfloats : node.FloatsRoundTrip texts) :
    NodeForm.collectMemoryBudget texts (stripText (node.memoryBudgetGb.elim [] texts.str)) =
      .ok node.memoryBudgetGb := by
  cases hbudget : node.memoryBudgetGb with
  | none => rfl
  | some x =>
    have hx := hfloats.memoryBudgetGb x hbudget
    have hstrip : stripText (texts.str x) = texts.str x := CommaList.strip_of_visible hx.visible
    rw [Option.elim_some, NodeForm.collectMemoryBudget, hstrip, if_neg hx.ne_nil, hx.float_str]
    rfl

/-- The form reports an error where the node is refused, and else saves what is read of each
input. -/
theorem saved_cases (posted : Bool) (hfloats : node.FloatsRoundTrip texts) :
    (node.Refused posted ∧ ∃ e,
      NodeForm.savedUnedited texts posted node.capabilities node.capacity = .error e) ∨
    (¬ node.Refused posted ∧ stripText (node.shownBaseUrl posted) ≠ [] ∧
      ∃ (sizes : Dict String ℚ) (aliases : Dict String (List String)),
        sizes.entries =
          (mappingRows texts.str node.modelSizesGb).filterMap (keptRow texts.float) ∧
        aliases.entries = (mappingRows writeNames node.modelAliases).filterMap
          (keptRow fun raw => some (readNames raw)) ∧
        NodeForm.savedUnedited texts posted node.capabilities node.capacity = .ok {
          backendType := some (some node.shownType)
          contextWindow := some (some node.contextWindow)
          maxConcurrentRequests := some (some node.maxConcurrentRequests)
          baseUrl := some (some (String.ofList (stripText (node.shownBaseUrl posted))))
          allowedModels := some (
            if stripText (writeNames (node.allowedModels.getD [])) = [] then none
            else some (readNames (stripText (writeNames (node.allowedModels.getD [])))))
          memoryBudgetGb := some node.memoryBudgetGb
          modelSizesGb := some (NodeForm.mappingOrNone sizes)
          modelAliases := some (NodeForm.mappingOrNone aliases) }) := by
  obtain ⟨suggested, hform⟩ := shown_form node texts posted
  have hsaved : NodeForm.savedUnedited texts posted node.capabilities node.capacity = (do
      if stripText (node.shownBaseUrl posted) = [] then .error FormError.emptyBaseUrl
      let sizes ← NodeForm.collectMappingRows texts.float .sizeValue
        (mappingRows texts.str node.modelSizesGb) .empty []
      let aliases ← NodeForm.collectMappingRows (fun raw => some (readNames raw)) .aliasValue
        (mappingRows writeNames node.modelAliases) .empty []
      return {
        backendType := some (some node.shownType)
        contextWindow := some (some node.contextWindow)
        maxConcurrentRequests := some (some node.maxConcurrentRequests)
        baseUrl := some (some (String.ofList (stripText (node.shownBaseUrl posted))))
        allowedModels := some (
          if stripText (writeNames (node.allowedModels.getD [])) = [] then none
          else some (readNames (stripText (writeNames (node.allowedModels.getD [])))))
        memoryBudgetGb := some node.memoryBudgetGb
        modelSizesGb := some (NodeForm.mappingOrNone sizes)
        modelAliases := some (NodeForm.mappingOrNone aliases) }) := by
    have hmemory := collectMemoryBudget_opened hfloats
    simp only [NodeForm.savedUnedited]
    rw [hform]
    simp only [NodeForm.collectFields, NodeForm.opened, capabilities, capacity, strOfInt,
      parseInt_digits, Option.elim_some, Json.except_ok_bind, hmemory]
    rfl
  have hsizes := collectMappingRows_spec texts.float .sizeValue
    (mappingRows texts.str node.modelSizesGb) (by
      intro row hrow hne
      obtain ⟨⟨name, x⟩, hmem, rfl⟩ := List.mem_map.mp hrow
      cases hsome : node.modelSizesGb with
      | none => rw [hsome] at hmem; cases hmem
      | some sizes =>
        rw [hsome] at hmem
        have hx := hfloats.modelSizesGb sizes hsome x (List.mem_map_of_mem hmem)
        refine ⟨x, ?_⟩
        have hread := float_of_roundTrips hx
        rwa [readBack, if_neg hne] at hread)
    .empty [] List.nodup_nil (fun _ h => by cases h)
  have haliases := collectMappingRows_spec (fun raw => some (readNames raw)) .aliasValue
    (mappingRows writeNames node.modelAliases) (fun _ _ _ => ⟨_, rfl⟩) .empty [] List.nodup_nil
    (fun _ h => by cases h)
  simp only [List.nil_append, rowNames_mappingRows] at hsizes haliases
  rw [hsaved, Refused, ← strip_shownBaseUrl_eq_nil]
  by_cases hblank : stripText (node.shownBaseUrl posted) = []
  · exact Or.inl ⟨Or.inl hblank, _, by rw [if_pos hblank]; rfl⟩
  rw [if_neg hblank]
  rcases hsizes with ⟨hdup, name, herror⟩ | ⟨hnodup, sizes, hok, hentries⟩
  · exact Or.inl ⟨Or.inr (Or.inl hdup), _, by rw [herror]; rfl⟩
  rcases haliases with ⟨hdup, name, herror⟩ | ⟨hnodup', aliases, hok', hentries'⟩
  · exact Or.inl ⟨Or.inr (Or.inr hdup), _, by rw [hok, herror]; rfl⟩
  exact Or.inr ⟨by tauto, hblank, sizes, aliases, hentries, hentries', by rw [hok, hok']; rfl⟩

theorem saved_sizes_iff (hfloats : node.FloatsRoundTrip texts) {sizes : Dict String ℚ}
    (hentries : sizes.entries =
      (mappingRows texts.str node.modelSizesGb).filterMap (keptRow texts.float)) :
    sameItems (NodeForm.mappingOrNone sizes) node.modelSizesGb = true ↔
      ∀ sizes, node.modelSizesGb = some sizes →
        sizes.entries ≠ [] ∧ ∀ name ∈ sizes.keys, CleanName name := by
  rw [collected_mapping_iff hentries]
  refine forall_congr' fun m => forall_congr' fun hm => and_congr_right fun _ => ?_
  simp only [Dict.mem_keys, forall_exists_index]
  refine forall_congr' fun name => forall_congr' fun x => forall_congr' fun hx => ?_
  have hfloat := hfloats.modelSizesGb m hm x ((Dict.mem_values _).mpr ⟨name, hx⟩)
  exact and_iff_left (float_of_roundTrips hfloat)

theorem saved_aliases_iff {aliases : Dict String (List String)}
    (hentries : aliases.entries = (mappingRows writeNames node.modelAliases).filterMap
      (keptRow fun raw => some (readNames raw))) :
    sameItems (NodeForm.mappingOrNone aliases) node.modelAliases = true ↔
      ∀ mapping, node.modelAliases = some mapping →
        mapping.entries ≠ [] ∧ ∀ name aliases, mapping.get? name = some aliases →
          CleanName name ∧ aliases ≠ [] ∧ ∀ other ∈ aliases, ListName other := by
  rw [collected_mapping_iff hentries]
  refine forall_congr' fun m => forall_congr' fun hm => and_congr_right fun _ => ?_
  refine forall_congr' fun name => forall_congr' fun list => forall_congr' fun hlist => ?_
  refine and_congr_right fun _ => ?_
  have hnames := @collected_names_iff (some list)
  simp only [Option.getD_some, Option.some.injEq, forall_eq'] at hnames
  exact hnames

theorem same_iff {a b : HostCapabilities} : a.same b = true ↔
    a.backendType = b.backendType ∧ a.contextWindow = b.contextWindow ∧ a.baseUrl = b.baseUrl ∧
      a.allowedModels = b.allowedModels ∧ a.memoryBudgetGb = b.memoryBudgetGb ∧
      sameItems a.modelSizesGb b.modelSizesGb = true ∧
      sameItems a.modelAliases b.modelAliases = true ∧ a.position = b.position := by
  simp only [HostCapabilities.same, Bool.and_eq_true, decide_eq_true_eq, and_assoc]

/-- A form that is saved as it was opened changes nothing exactly if it is refused or every setting
of the node has a text of its own. -/
theorem unedited_save_iff (texts : FloatTexts) (posted : Bool) (node : NodeRegistration)
    (hfloats : node.FloatsRoundTrip texts) :
    (∀ fields,
      NodeForm.savedUnedited texts posted node.capabilities node.capacity = .ok fields →
        node.Unchanged fields) ↔
      node.Refused posted ∨ node.Clean := by
  rcases saved_cases posted hfloats with
    ⟨hrefused, e, herror⟩ | ⟨hnot, hurl, sizes, aliases, hsizes, haliases, hok⟩
  · refine iff_of_true (fun fields h => ?_) (Or.inl hrefused)
    rw [herror] at h
    cases h
  · have htype : node.shownType = node.backendType ↔ node.backendType ≠ "" := by
      unfold shownType
      split
      · next hempty => simp [hempty]
      · next hne => simp [hne]
    rw [or_iff_right hnot, hok]
    simp only [Except.ok.injEq, forall_eq', Unchanged, same_iff, NodeUpdate.capabilities,
      NodeUpdate.capacity, Option.getD_some, Option.getD_none, capabilities, capacity,
      Option.some.injEq, and_true, true_and, htype, saved_baseUrl_iff hurl, collected_names_iff,
      saved_sizes_iff hfloats hsizes, saved_aliases_iff haliases]
    constructor
    · rintro ⟨htype, hbase, hmodels, hsizes, haliases⟩
      exact ⟨htype, hbase, hmodels, hsizes, haliases⟩
    · rintro ⟨htype, hbase, hmodels, hsizes, haliases⟩
      exact ⟨htype, hbase, hmodels, hsizes, haliases⟩

/-- A node with a setting of every kind. -/
def settled : NodeRegistration where
  hostId := "gpu-1"
  backendType := "llamaserver"
  contextWindow := 8192
  baseUrl := "http://gpu-1:8080"
  maxConcurrentRequests := 4
  allowedModels := some ["m", "a model"]
  memoryBudgetGb := some (3 / 2)
  modelSizesGb := some ⟨[("m", 3 / 2)], by decide⟩
  modelAliases := some ⟨[("m", ["m-1", "m-2"])], by decide⟩

theorem unedited_save_iff_settled : ∃ fields,
    NodeForm.savedUnedited ⟨fun _ => "1.5".toList, fun _ => some (3 / 2)⟩ true settled.capabilities
      settled.capacity = .ok fields ∧ settled.Unchanged fields := by
  have hfloat : FloatTexts.RoundTrips ⟨fun _ => "1.5".toList, fun _ => some (3 / 2)⟩ (3 / 2) := by
    refine ⟨by decide, fun c hc => ?_, rfl⟩
    have hall : "1.5".toList.all (fun c => !Json.isSpace c) = true := by decide
    simpa using List.all_eq_true.mp hall c hc
  have hfloats : settled.FloatsRoundTrip ⟨fun _ => "1.5".toList, fun _ => some (3 / 2)⟩ := by
    constructor
    · rintro x h
      cases h
      exact hfloat
    · rintro sizes h x hx
      cases h
      rw [List.mem_singleton.mp hx]
      exact hfloat
  have hname : CleanName "m" := ⟨by decide, by decide⟩
  have hlist : ∀ name ∈ ["m", "a model", "m-1", "m-2"], ListName name := by
    intro name hmem
    have hitem : ["m", "a model", "m-1", "m-2"].all (fun name => decide (name.toList ≠ []) &&
        decide (CommaList.strip Json.isSpace name.toList = name.toList) &&
        !name.toList.contains ',') = true := by decide +kernel
    have hone := List.all_eq_true.mp hitem name hmem
    simp only [Bool.and_eq_true, decide_eq_true_eq, Bool.not_eq_true'] at hone
    exact ⟨hone.1.1, hone.1.2, by simpa using hone.2⟩
  have hclean : settled.Clean := by
    refine ⟨by decide, ⟨by decide, by decide +kernel⟩, ?_, ?_, ?_⟩
    · rintro names h
      cases h
      exact ⟨by decide, fun name hmem => hlist name (by simp at hmem ⊢; tauto)⟩
    · rintro sizes h
      cases h
      refine ⟨by decide, fun name hmem => ?_⟩
      rw [List.mem_singleton.mp hmem]
      exact hname
    · rintro mapping h
      cases h
      refine ⟨by decide, fun name aliases hget => ?_⟩
      obtain ⟨rfl, rfl⟩ := Prod.mk.inj (List.mem_singleton.mp ((Dict.get?_eq_some _).mp hget))
      exact ⟨hname, by decide, fun other hmem => hlist other (by simp at hmem ⊢; tauto)⟩
  exact ⟨_, rfl, (unedited_save_iff _ true settled hfloats).mpr (Or.inr hclean) _ rfl⟩

/-- A node that is allowed no model at all is saved as one without restrictions. -/
theorem unedited_save_lifts_restriction :
    ¬ ∀ fields, NodeForm.savedUnedited ⟨fun _ => [], fun _ => none⟩ false
      (⟨"gpu-1", "lmstudio", 8, "http://a", 2, some [], none, none, none, none⟩ :
        NodeRegistration).capabilities ⟨some 2⟩ = .ok fields →
      (⟨"gpu-1", "lmstudio", 8, "http://a", 2, some [], none, none, none, none⟩ :
        NodeRegistration).Unchanged fields := by
  intro h
  have hsame := (h _ rfl).1
  exact absurd hsame (by decide +kernel)

end NodeRegistration

end LlmHomeLab
