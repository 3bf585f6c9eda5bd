import LlmHomeLab.Diagnostics.MetricsParser
import LlmHomeLab.Lib.Text

/-! # The lines of the metrics

What the reader makes of each line of the text of a snapshot. A host id is written between quotes
as it is, so one with a line separator makes lines of its own.
-/

namespace LlmHomeLab

/-! ## One line -/

theorem afterText_eq_some {text : String} {line rest : List Char} :
    afterText text line = some rest ↔ line = text.toList ++ rest := by
  unfold afterText
  rw [Option.ite_none_right_eq_some, List.isPrefixOf_iff_prefix]
  constructor
  · rintro ⟨⟨rest', rfl⟩, heq⟩
    rw [List.drop_left] at heq
    cases heq
    rfl
  · rintro rfl
    exact ⟨List.prefix_append _ _, congrArg some List.drop_left⟩

theorem afterText_append (text : String) (rest : List Char) :
    afterText text (text.toList ++ rest) = some rest :=
  afterText_eq_some.mpr rfl

/-- Of two texts none begins with the other. -/
def Apart (a b : String) : Prop := ¬ a.toList <+: b.toList ∧ ¬ b.toList <+: a.toList

theorem afterText_apart {name name' : String} (h : Apart name name') (rest : List Char) :
    afterText name (name'.toList ++ rest) = none := by
  unfold afterText
  rw [if_neg]
  intro hprefix
  rcases List.prefix_or_prefix_of_prefix (List.isPrefixOf_iff_prefix.mp hprefix)
    (List.prefix_append name'.toList rest) with hp | hp
  · exact h.1 hp
  · exact h.2 hp

/-- A text without white space, as the values are. -/
def Visible (value : List Char) : Prop := value ≠ [] ∧ ∀ c ∈ value, Json.isSpace c = false

theorem matchToken_space {value : List Char} (h : Visible value) :
    matchToken (' ' :: value) = some value := by
  have hspace : Json.isSpace ' ' = true := by decide
  have hdrop : value.dropWhile Json.isSpace = value := by
    cases value with
    | nil => rfl
    | cons c rest => rw [List.dropWhile_cons_of_neg (by simp [h.2 c (List.mem_cons_self ..)])]
  have hany : value.any Json.isSpace = false := by
    rw [List.any_eq_false]
    intro c hc
    simp [h.2 c hc]
  have hempty : value.isEmpty = false := by
    rw [List.isEmpty_eq_false_iff]
    exact h.1
  simp [matchToken, hspace, hdrop, hany, hempty]

theorem matchValue_valueLine {name : String} {value : List Char} (h : Visible value) :
    matchValue name (valueLine name value) = some value := by
  simp [matchValue, valueLine, afterText_append, matchToken_space h]

/-- A host id that can be read back. -/
def ReadableId (hostId : String) : Prop :=
  hostId ≠ "" ∧ ∀ c ∈ hostId.toList, c ≠ '"' ∧ Lines.isBreak c = false

theorem readableId_ofList {text : List Char}
    (h : (text ≠ [] && text.all fun c => c != '"' && !Lines.isBreak c) = true) :
    ReadableId (String.ofList text) := by
  simp only [Bool.and_eq_true, decide_eq_true_eq, List.all_eq_true, bne_iff_ne,
    Bool.not_eq_true'] at h
  constructor
  · rw [Ne, ← String.toList_eq_nil_iff, String.toList_ofList]
    exact h.1
  · rw [String.toList_ofList]
    exact h.2

theorem matchHost_hostLine {name hostId : String} {value : List Char} (hid : ReadableId hostId)
    (h : Visible value) :
    matchHost name (hostLine name hostId value) = some (hostId.toList, value) := by
  have hquote : ∀ rest, (hostId.toList ++ '"' :: rest).takeWhile (· ≠ '"') = hostId.toList ∧
      (hostId.toList ++ '"' :: rest).dropWhile (· ≠ '"') = '"' :: rest := by
    intro rest
    refine Text.takeWhile_append_of_all ?_ ?_
    · intro c hc
      simp [(hid.2 c hc).1]
    · intro c hc
      cases hc
      decide
  have hlist : "\"\x7d".toList = '"' :: ['\x7d'] := by decide
  have hne : hostId.toList ≠ [] := by
    rw [Ne, String.toList_eq_nil_iff]
    exact hid.1
  have hafter : afterText "\"\x7d" ('"' :: '\x7d' :: ' ' :: value) = some (' ' :: value) :=
    afterText_eq_some.mpr (by rw [hlist]; rfl)
  unfold matchHost hostLine
  simp only [afterText_append, Option.bind_eq_bind, Option.bind_some, hlist, List.cons_append,
    List.nil_append, hquote, List.isEmpty_iff, hne, if_false, hafter, matchToken_space h]
  rfl

/-- What is read of a host has an id that can be read. -/
theorem readableId_of_matchHost {name : String} {line hostId token : List Char}
    (h : matchHost name line = some (hostId, token))
    (hline : ∀ c ∈ line, Lines.isBreak c = false) : ReadableId (String.ofList hostId) := by
  unfold matchHost at h
  simp only [Option.bind_eq_bind, Option.bind_eq_some_iff] at h
  rcases h with ⟨rest, hrest, label, hlabel, h⟩
  rw [Option.ite_none_left_eq_some] at h
  rcases h with ⟨hne, h⟩
  simp only [Option.bind_eq_some_iff] at h
  rcases h with ⟨_, _, _, _, hpure⟩
  cases hpure
  constructor
  · intro hempty
    have hlist := congrArg String.toList hempty
    rw [String.toList_ofList] at hlist
    exact hne (List.isEmpty_iff.mpr hlist)
  · intro c hc
    rw [String.toList_ofList] at hc
    refine ⟨by simpa using List.mem_takeWhile_imp hc, hline c ?_⟩
    rw [afterText_eq_some.mp hrest, afterText_eq_some.mp hlabel]
    have hmem := List.takeWhile_subset _ hc
    simp [hmem]

/-! ## The names of the metrics -/

/-- For texts that are given, by going through their characters. -/
theorem apart_ofList {a b : List Char} (h : (!a.isPrefixOf b && !b.isPrefixOf a) = true) :
    Apart (String.ofList a) (String.ofList b) := by
  rw [Bool.and_eq_true, Bool.not_eq_true', Bool.not_eq_true'] at h
  rw [Apart, String.toList_ofList, String.toList_ofList, ← List.isPrefixOf_iff_prefix,
    ← List.isPrefixOf_iff_prefix, h.1, h.2]
  decide

theorem apart_queueDepth (metric : HostMetric) :
    Apart "llm_home_lab_queue_depth" metric.metricName := by
  rcases metric with k | k <;> cases k <;> exact apart_ofList rfl

theorem apart_p95 (metric : HostMetric) :
    Apart "llm_home_lab_request_latency_p95_ms" metric.metricName := by
  rcases metric with k | k <;> cases k <;> exact apart_ofList rfl

theorem apart_metrics {metric metric' : HostMetric} (h : metric ≠ metric') :
    Apart metric.metricName metric'.metricName := by
  rcases metric with k | k <;> rcases metric' with k' | k' <;> cases k <;> cases k' <;>
    first
    | exact absurd rfl h
    | exact apart_ofList rfl

/-- A name of a metric, and none of those that are read. -/
structure Unread (name : String) : Prop where
  queueDepth : Apart "llm_home_lab_queue_depth" name
  p95 : Apart "llm_home_lab_request_latency_p95_ms" name
  host : ∀ metric : HostMetric, Apart metric.metricName name

theorem unread_availability : Unread "llm_home_lab_availability_ratio" := by
  refine ⟨apart_ofList rfl, apart_ofList rfl, ?_⟩
  rintro (k | k) <;> cases k <;> exact apart_ofList rfl

theorem unread_failover : Unread "llm_home_lab_failover_success_ratio" := by
  refine ⟨apart_ofList rfl, apart_ofList rfl, ?_⟩
  rintro (k | k) <;> cases k <;> exact apart_ofList rfl

theorem unread_saturation : Unread "llm_home_lab_host_saturation_ratio" := by
  refine ⟨apart_ofList rfl, apart_ofList rfl, ?_⟩
  rintro (k | k) <;> cases k <;> exact apart_ofList rfl

/-! ## What a line says -/

/-- A line that begins with a letter is no comment and not blank. -/
theorem sampleOf_letter {line : List Char} (h : line.head? = some 'l') :
    sampleOf line = matchPatterns line := by
  have hspace : Json.isSpace 'l' = false := by decide
  cases line with
  | nil => cases h
  | cons c rest =>
    cases h
    simp [sampleOf, hspace]

theorem sampleOf_comment (rest : List Char) : sampleOf ('#' :: rest) = none := by
  simp [sampleOf]

theorem matchPatterns_unread {name : String} (h : Unread name) (rest : List Char) :
    matchPatterns (name.toList ++ rest) = none := by
  have hhost : ∀ metric, matchMetric (name.toList ++ rest) metric = none := by
    intro metric
    simp [matchMetric, matchHost, afterText_apart (h.host metric)]
  simp [matchPatterns, matchValue, afterText_apart h.queueDepth, afterText_apart h.p95, hhost]

theorem matchPatterns_queueDepth {value : List Char} (h : Visible value) :
    matchPatterns (valueLine "llm_home_lab_queue_depth" value) = some (.queueDepth value) := by
  unfold matchPatterns
  rw [matchValue_valueLine h]

/-- A line with the name of the latency is left to its pattern. -/
theorem matchPatterns_of_p95 {rest value : List Char}
    (h : matchValue "llm_home_lab_request_latency_p95_ms"
      ("llm_home_lab_request_latency_p95_ms".toList ++ rest) = some value) :
    matchPatterns ("llm_home_lab_request_latency_p95_ms".toList ++ rest) =
      some (.p95LatencyMs value) := by
  have hapart : Apart "llm_home_lab_queue_depth" "llm_home_lab_request_latency_p95_ms" :=
    apart_ofList rfl
  have hqueue : matchValue "llm_home_lab_queue_depth"
      ("llm_home_lab_request_latency_p95_ms".toList ++ rest) = none := by
    rw [matchValue, afterText_apart hapart]
    rfl
  unfold matchPatterns
  rw [hqueue, h]

theorem matchPatterns_p95 {value : List Char} (h : Visible value) :
    matchPatterns (valueLine "llm_home_lab_request_latency_p95_ms" value) =
      some (.p95LatencyMs value) :=
  matchPatterns_of_p95 (matchValue_valueLine h)

/-- A line with the name of a metric of a host is left to the pattern of this metric. -/
theorem matchPatterns_of_host {metric : HostMetric} {rest hostId value : List Char}
    (h : matchHost metric.metricName (metric.metricName.toList ++ rest) = some (hostId, value)) :
    matchPatterns (metric.metricName.toList ++ rest) =
      some (.host metric (String.ofList hostId) value) := by
  have hown : matchMetric (metric.metricName.toList ++ rest) metric =
      some (.host metric (String.ofList hostId) value) := by
    rw [matchMetric, h]
    rfl
  have hother : ∀ metric', metric' ≠ metric →
      matchMetric (metric.metricName.toList ++ rest) metric' = none := by
    intro metric' hne
    simp [matchMetric, matchHost, afterText_apart (apart_metrics hne)]
  have hqueue : matchValue "llm_home_lab_queue_depth" (metric.metricName.toList ++ rest) = none := by
    simp [matchValue, afterText_apart (apart_queueDepth metric)]
  have hp95 : matchValue "llm_home_lab_request_latency_p95_ms"
      (metric.metricName.toList ++ rest) = none := by
    simp [matchValue, afterText_apart (apart_p95 metric)]
  unfold matchPatterns
  rw [hqueue, hp95]
  by_cases htoken : metric = .int .tokenUsageTotal
  · rw [htoken] at hown ⊢
    rw [hown]
  · have hfind : hostCompletionMetrics.findSome?
        (matchMetric (metric.metricName.toList ++ rest)) =
          some (.host metric (String.ofList hostId) value) := by
      have hmem : metric ∈ hostCompletionMetrics := by
        rcases metric with k | k <;> cases k <;> first | exact absurd rfl htoken | decide
      generalize hostCompletionMetrics = metrics at hmem ⊢
      induction metrics with
      | nil => cases hmem
      | cons first rest ih =>
        rw [List.findSome?_cons]
        by_cases hfirst : first = metric
        · rw [hfirst, hown]
        · rw [hother first hfirst]
          exact ih ((List.mem_cons.mp hmem).resolve_left (Ne.symm hfirst))
    rw [hother _ (Ne.symm htoken)]
    exact hfind

theorem matchPatterns_host (metric : HostMetric) {hostId : String} {value : List Char}
    (hid : ReadableId hostId) (h : Visible value) :
    matchPatterns (hostLine metric.metricName hostId value) = some (.host metric hostId value) := by
  have hown : matchHost metric.metricName (hostLine metric.metricName hostId value) = _ :=
    matchHost_hostLine hid h
  have hline := matchPatterns_of_host hown
  rwa [String.ofList_toList] at hline

/-- A sample of a host has an id that can be read. -/
theorem readableId_of_sampleOf {line : List Char} {metric : HostMetric} {hostId : String}
    {text : List Char} (h : sampleOf line = some (.host metric hostId text))
    (hline : ∀ c ∈ line, Lines.isBreak c = false) : ReadableId hostId := by
  have hmetric : ∀ metric', matchMetric line metric' = some (.host metric hostId text) →
      ReadableId hostId := by
    intro metric' hmatch
    simp only [matchMetric, Option.bind_eq_bind, Option.bind_eq_some_iff] at hmatch
    rcases hmatch with ⟨⟨hostId', text'⟩, hhost, hpure⟩
    cases hpure
    exact readableId_of_matchHost hhost hline
  unfold sampleOf at h
  rw [Option.ite_none_left_eq_some] at h
  rcases h with ⟨_, h⟩
  unfold matchPatterns at h
  split at h
  · cases h
  · split at h
    · cases h
    · split at h
      · next hmatch =>
        cases h
        exact hmetric _ hmatch
      · rcases List.exists_of_findSome?_eq_some h with ⟨metric', _, hmatch⟩
        exact hmetric metric' hmatch

/-! ## The lines of a text -/

/-- What the lines of a text say, when its own lines are split again. -/
def samplesOf (lines : List (List Char)) : List Sample :=
  (lines.flatMap fun line => Lines.splitlines (line ++ ['\n'])).filterMap sampleOf

@[simp] theorem samplesOf_nil : samplesOf [] = [] := rfl

@[simp] theorem samplesOf_append (lines more : List (List Char)) :
    samplesOf (lines ++ more) = samplesOf lines ++ samplesOf more := by
  simp [samplesOf]

theorem samplesOf_cons (line : List Char) (lines : List (List Char)) :
    samplesOf (line :: lines) = samplesOf [line] ++ samplesOf lines :=
  samplesOf_append [line] lines

/-- A line without separators is read as it is. -/
theorem samplesOf_line {line : List Char} (h : ∀ c ∈ line, Lines.isBreak c = false) :
    samplesOf [line] = (sampleOf line).toList := by
  simp only [samplesOf, List.flatMap_singleton, Lines.splitlines_line h]
  cases hs : sampleOf line <;> simp [hs]

theorem samplesOf_readable {lines : List (List Char)} {metric : HostMetric} {hostId : String}
    {text : List Char} (h : .host metric hostId text ∈ samplesOf lines) : ReadableId hostId := by
  rcases List.mem_filterMap.mp h with ⟨line, hline, hsample⟩
  rcases List.mem_flatMap.mp hline with ⟨whole, _, hpart⟩
  exact readableId_of_sampleOf hsample (Lines.isBreak_of_mem_splitlines hpart)

/-- No character of it separates lines. -/
def Unbroken (text : List Char) : Prop := ∀ c ∈ text, Lines.isBreak c = false

theorem Visible.unbroken {value : List Char} (h : Visible value) : Unbroken value := by
  intro c hc
  rw [Bool.eq_false_iff]
  intro hbreak
  have hspace := Lines.isSpace_of_isBreak hbreak
  rw [h.2 c hc] at hspace
  cases hspace

theorem Unbroken.append {a b : List Char} (ha : Unbroken a) (hb : Unbroken b) :
    Unbroken (a ++ b) := by
  intro c hc
  rcases List.mem_append.mp hc with hc | hc
  · exact ha c hc
  · exact hb c hc

theorem Unbroken.cons {c : Char} {b : List Char} (hc : Lines.isBreak c = false) (hb : Unbroken b) :
    Unbroken (c :: b) := by
  intro d hd
  rcases List.mem_cons.mp hd with rfl | hd
  · exact hc
  · exact hb d hd

theorem unbroken_ofList {text : List Char} (h : text.all (!Lines.isBreak ·) = true) :
    Unbroken (String.ofList text).toList := by
  rw [String.toList_ofList]
  simpa [Unbroken] using h

theorem head_ofList {text : List Char} {c : Char} (h : text.head? = some c) :
    (String.ofList text).toList.head? = some c := by
  rwa [String.toList_ofList]

/-- Comments say nothing. -/
theorem samplesOf_metricHeader {name help kind : String} (hname : Unbroken name.toList)
    (hhelp : Unbroken help.toList) (hkind : Unbroken kind.toList) :
    samplesOf (metricHeader name help kind) = [] := by
  have hspace : Lines.isBreak ' ' = false := by decide
  have hone : ∀ {first : String} {rest : List Char}, first.toList.head? = some '#' →
      Unbroken first.toList → Unbroken rest →
      samplesOf [first.toList ++ name.toList ++ ' ' :: rest] = [] := by
    intro first rest hhead hfirst hrest
    rw [samplesOf_line ((hfirst.append hname).append (hrest.cons hspace))]
    cases hlist : first.toList with
    | nil =>
      rw [hlist] at hhead
      cases hhead
    | cons c tail =>
      rw [hlist] at hhead
      cases hhead
      simp [sampleOf_comment]
  rw [metricHeader, samplesOf_cons, hone (head_ofList rfl) (unbroken_ofList rfl) hhelp,
    hone (head_ofList rfl) (unbroken_ofList rfl) hkind]
  rfl

theorem unbroken_metricName (metric : HostMetric) : Unbroken metric.metricName.toList := by
  rcases metric with k | k <;> cases k <;> exact unbroken_ofList rfl

theorem unbroken_hostLine {name hostId : String} {value : List Char} (hname : Unbroken name.toList)
    (hid : Unbroken hostId.toList) (h : Visible value) : Unbroken (hostLine name hostId value) := by
  have hspace : Lines.isBreak ' ' = false := by decide
  have hopen : Unbroken "\x7bhost_id=\"".toList := unbroken_ofList rfl
  have hclose : Unbroken "\"\x7d".toList := unbroken_ofList rfl
  exact hname.append (hopen.append (hid.append (hclose.append (h.unbroken.cons hspace))))

/-- The line of a host with a readable id. -/
theorem samplesOf_hostLine (metric : HostMetric) {hostId : String} {value : List Char}
    (hid : ReadableId hostId) (h : Visible value) :
    samplesOf [hostLine metric.metricName hostId value] = [.host metric hostId value] := by
  have hletter : (hostLine metric.metricName hostId value).head? = some 'l' := by
    rw [hostLine, List.head?_append]
    rcases metric with k | k <;> cases k <;> exact congrArg (Option.or · _) (head_ofList rfl)
  rw [samplesOf_line (unbroken_hostLine (unbroken_metricName metric) (fun c hc => (hid.2 c hc).2) h),
    sampleOf_letter hletter, matchPatterns_host metric hid h]
  rfl

/-! ## The samples of a snapshot -/

section

variable {V : Type} [PyFloat V] (snapshot : SliSnapshot V)

/-- What the lines of one metric say. -/
def familySamples : HostMetric → List Sample
  | .int k => (snapshot.hostInts k).entries.map fun kv =>
      .host (.int k) kv.1 (PyFloat.digits kv.2)
  | .float k => (snapshot.hostFloats k).entries.map fun kv =>
      .host (.float k) kv.1 (PyFloat.repr kv.2)

/-- What the saturation lines say. No metric of theirs is read, but an id with a line separator
ends a line and begins another. -/
def strays : List Sample :=
  samplesOf (SliSnapshot.floatLines "llm_home_lab_host_saturation_ratio"
    snapshot.hostSaturation.entries)

/-- The ids under which something is read. -/
def ReadableIds : Prop :=
  ∀ hostId, snapshot.tokenUsageTotal.contains hostId = true ∨
    snapshot.hostCompletionStats.contains hostId = true → ReadableId hostId

variable {snapshot}

omit [PyFloat V] in
theorem ReadableIds.ints (h : ReadableIds snapshot) (k : HostInt) :
    ∀ kv ∈ (snapshot.hostInts k).entries, ReadableId kv.1 := by
  intro kv hkv
  have hget := (Dict.get?_eq_some _).mpr hkv
  have hcontains := (Dict.contains_iff _).mpr ⟨_, hget⟩
  cases k
  case tokenUsageTotal => exact h _ (Or.inl hcontains)
  all_goals
    refine h _ (Or.inr ?_)
    simpa [SliSnapshot.hostInts, Dict.contains, Dict.get?_mapValues] using hcontains

omit [PyFloat V] in
theorem ReadableIds.floats (h : ReadableIds snapshot) (k : HostFloat) :
    ∀ kv ∈ (snapshot.hostFloats k).entries, ReadableId kv.1 := by
  intro kv hkv
  have hget := (Dict.get?_eq_some _).mpr hkv
  have hcontains := (Dict.contains_iff _).mpr ⟨_, hget⟩
  cases k
  all_goals
    refine h _ (Or.inr ?_)
    simpa [SliSnapshot.hostFloats, Dict.contains, Dict.get?_mapValues] using hcontains

theorem visible_repr (hV : PyFloat.Lawful V) (v : V) : Visible (PyFloat.repr v) :=
  ⟨hV.repr_ne v, hV.repr_visible v⟩

theorem visible_digits (n : Int) : Visible (PyFloat.digits n) :=
  ⟨PyFloat.digits_ne n, PyFloat.digits_visible n⟩

theorem strInt_ok {n : Int} {text : List Char} (h : PyFloat.strInt n = .ok text) :
    text = PyFloat.digits n := by
  unfold PyFloat.strInt at h
  split at h
  · cases h
    rfl
  · cases h

theorem samplesOf_intLines {k : HostInt} {values : List (String × Int)} {lines : List (List Char)}
    (h : SliSnapshot.intLines k values = .ok lines) (hids : ∀ kv ∈ values, ReadableId kv.1) :
    samplesOf lines = values.map fun kv => .host (.int k) kv.1 (PyFloat.digits kv.2) := by
  induction values generalizing lines with
  | nil =>
    cases h
    rfl
  | cons kv rest ih =>
    rcases kv with ⟨hostId, n⟩
    rcases Json.except_bind_ok h with ⟨text, htext, h⟩
    rcases Json.except_bind_ok h with ⟨more, hmore, h⟩
    cases h
    have hline := samplesOf_hostLine (.int k) (hids _ (List.mem_cons_self ..)) (visible_digits n)
    rw [HostMetric.metricName] at hline
    rw [samplesOf_cons, strInt_ok htext, hline, ih hmore fun kv hkv => hids kv (by simp [hkv])]
    rfl

theorem samplesOf_intFamily (hids : ReadableIds snapshot) {k : HostInt} {lines : List (List Char)}
    (h : snapshot.intFamily k = .ok lines) : samplesOf lines = familySamples snapshot (.int k) := by
  have hheader : samplesOf (metricHeader k.metricName k.help k.kind) = [] := by
    refine samplesOf_metricHeader (unbroken_metricName (.int k)) ?_ ?_ <;> cases k <;>
      exact unbroken_ofList rfl
  rcases Json.except_bind_ok h with ⟨values, hvalues, h⟩
  cases h
  rw [samplesOf_append, hheader, samplesOf_intLines hvalues (hids.ints k)]
  rfl

theorem samplesOf_floatFamily (hV : PyFloat.Lawful V) (hids : ReadableIds snapshot) (k : HostFloat) :
    samplesOf (snapshot.floatFamily k) = familySamples snapshot (.float k) := by
  have hheader : samplesOf (metricHeader k.metricName k.help "gauge") = [] := by
    refine samplesOf_metricHeader (unbroken_metricName (.float k)) ?_ (unbroken_ofList rfl)
    cases k <;> exact unbroken_ofList rfl
  rw [SliSnapshot.floatFamily, samplesOf_append, hheader, familySamples, List.nil_append]
  have hreadable := hids.floats k
  generalize (snapshot.hostFloats k).entries = values at hreadable
  induction values with
  | nil => rfl
  | cons kv rest ih =>
    have hline := samplesOf_hostLine (.float k) (hreadable kv (List.mem_cons_self ..))
      (visible_repr hV kv.2)
    rw [HostMetric.metricName] at hline
    rw [SliSnapshot.floatLines, List.map_cons, samplesOf_cons, hline, List.map_cons]
    exact congrArg _ (ih fun kv hkv => hreadable kv (by simp [hkv]))

theorem samplesOf_statsLines (hV : PyFloat.Lawful V) (hids : ReadableIds snapshot)
    {lines : List (List Char)} (h : snapshot.statsLines = .ok lines) :
    samplesOf lines = hostCompletionMetrics.flatMap (familySamples snapshot) := by
  unfold SliSnapshot.statsLines at h
  split at h
  · next hempty =>
    -- no statistics: all these metrics are empty
    cases h
    have hentries := List.isEmpty_iff.mp hempty
    simp [hostCompletionMetrics, familySamples, SliSnapshot.hostInts, SliSnapshot.hostFloats,
      Dict.mapValues, hentries]
  · rcases Json.except_bind_ok h with ⟨completionsTotal, hcompletions, h⟩
    rcases Json.except_bind_ok h with ⟨promptMin, hpromptMin, h⟩
    rcases Json.except_bind_ok h with ⟨promptMax, hpromptMax, h⟩
    rcases Json.except_bind_ok h with ⟨completionMin, hcompletionMin, h⟩
    rcases Json.except_bind_ok h with ⟨completionMax, hcompletionMax, h⟩
    cases h
    simp only [samplesOf_append, samplesOf_intFamily hids hcompletions,
      samplesOf_intFamily hids hpromptMin, samplesOf_intFamily hids hpromptMax,
      samplesOf_intFamily hids hcompletionMin, samplesOf_intFamily hids hcompletionMax,
      samplesOf_floatFamily hV hids, hostCompletionMetrics, List.flatMap_cons,
      List.flatMap_nil, List.append_nil, List.append_assoc]

theorem samplesOf_tokenLines (hids : ReadableIds snapshot) {lines : List (List Char)}
    (h : snapshot.tokenLines = .ok lines) :
    samplesOf lines = familySamples snapshot (.int .tokenUsageTotal) := by
  unfold SliSnapshot.tokenLines at h
  split at h
  · next hempty =>
    cases h
    simp [familySamples, SliSnapshot.hostInts, List.isEmpty_iff.mp hempty]
  · exact samplesOf_intFamily hids h

theorem samplesOf_valueLine {name : String} {value : List Char} (hname : Unbroken name.toList)
    (hletter : name.toList.head? = some 'l') (h : Visible value) :
    samplesOf [valueLine name value] = (matchPatterns (valueLine name value)).toList := by
  have hspace : Lines.isBreak ' ' = false := by decide
  have hunbroken : Unbroken (valueLine name value) := hname.append (h.unbroken.cons hspace)
  rw [samplesOf_line hunbroken, sampleOf_letter]
  rw [valueLine, List.head?_append, hletter]
  rfl

theorem samplesOf_ratioLines (hV : PyFloat.Lawful V) :
    samplesOf snapshot.ratioLines = [.p95LatencyMs (PyFloat.repr snapshot.p95LatencyMs)] := by
  have hnone : ∀ {name : String} (v : V), Unread name → Unbroken name.toList →
      name.toList.head? = some 'l' → samplesOf [valueLine name (PyFloat.repr v)] = [] := by
    intro name v hunread hname hletter
    rw [samplesOf_valueLine hname hletter (visible_repr hV v), valueLine,
      matchPatterns_unread hunread]
    rfl
  have hfailover : samplesOf snapshot.failoverLines = [] := by
    unfold SliSnapshot.failoverLines
    split
    · next rate hrate =>
      rw [samplesOf_append, samplesOf_metricHeader (unbroken_ofList rfl) (unbroken_ofList rfl)
      (unbroken_ofList rfl), hnone rate unread_failover (unbroken_ofList rfl) (head_ofList rfl)]
      rfl
    · rfl
  rw [SliSnapshot.ratioLines, samplesOf_append, hfailover, samplesOf_append, samplesOf_append,
    samplesOf_append, samplesOf_metricHeader (unbroken_ofList rfl) (unbroken_ofList rfl)
      (unbroken_ofList rfl),
    samplesOf_metricHeader (unbroken_ofList rfl) (unbroken_ofList rfl)
      (unbroken_ofList rfl),
    hnone snapshot.availability unread_availability (unbroken_ofList rfl)
      (head_ofList rfl),
    samplesOf_valueLine (unbroken_ofList rfl) (head_ofList rfl) (visible_repr hV _),
    matchPatterns_p95 (visible_repr hV _)]
  rfl

theorem samplesOf_saturationLines : samplesOf snapshot.saturationLines = strays snapshot := by
  unfold SliSnapshot.saturationLines strays
  split
  · next hempty => simp [SliSnapshot.floatLines, List.isEmpty_iff.mp hempty]
  · rw [samplesOf_append,
      samplesOf_metricHeader (unbroken_ofList rfl) (unbroken_ofList rfl)
      (unbroken_ofList rfl),
      List.nil_append]

/-- What the text of a snapshot says. -/
theorem samplesOf_lines (hV : PyFloat.Lawful V) (hids : ReadableIds snapshot)
    {lines : List (List Char)} (h : snapshot.lines = .ok lines) :
    samplesOf lines = .p95LatencyMs (PyFloat.repr snapshot.p95LatencyMs) :: strays snapshot ++
      .queueDepth (PyFloat.digits snapshot.queueDepth) ::
        (hostCompletionMetrics ++ [HostMetric.int .tokenUsageTotal]).flatMap
          (familySamples snapshot) := by
  rcases Json.except_bind_ok h with ⟨depth, hdepth, h⟩
  rcases Json.except_bind_ok h with ⟨stats, hstats, h⟩
  rcases Json.except_bind_ok h with ⟨tokens, htokens, h⟩
  cases h
  rw [strInt_ok hdepth, samplesOf_append, samplesOf_append, samplesOf_append, samplesOf_append,
    samplesOf_append, samplesOf_ratioLines hV, samplesOf_saturationLines,
    samplesOf_metricHeader (unbroken_ofList rfl) (unbroken_ofList rfl)
      (unbroken_ofList rfl),
    samplesOf_valueLine (unbroken_ofList rfl) (head_ofList rfl) (visible_digits _),
    matchPatterns_queueDepth (visible_digits _), samplesOf_statsLines hV hids hstats,
    samplesOf_tokenLines hids htokens, List.flatMap_append]
  simp

end

end LlmHomeLab
