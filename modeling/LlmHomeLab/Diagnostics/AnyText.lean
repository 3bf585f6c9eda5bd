import LlmHomeLab.Diagnostics.RoundTrip

/-! # Any text

`parse_metrics_text` on a text that need not come from the gateway. What a line says is stated
without the patterns, and the result is read off the last lines that say something. A value goes
through `float`, which knows infinity, and `int` raises on that.
-/

namespace LlmHomeLab

/-! ## Statement -/

namespace Sample

/-- The value, as it stands in the line. -/
def text : Sample → List Char
  | .queueDepth text => text
  | .p95LatencyMs text => text
  | .host _ _ text => text

/-- The name the line begins with. -/
def name : Sample → String
  | .queueDepth _ => "llm_home_lab_queue_depth"
  | .p95LatencyMs _ => "llm_home_lab_request_latency_p95_ms"
  | .host metric _ _ => metric.metricName

/-- The label of a host. -/
def hostLabel (hostId : String) : List Char :=
  "\x7bhost_id=\"".toList ++ (hostId.toList ++ "\"\x7d".toList)

/-- The label after the name. -/
def label : Sample → List Char
  | .host _ hostId _ => hostLabel hostId
  | _ => []

/-- The label, if there is one, is not empty and has no quote in it. -/
def Labelled : Sample → Prop
  | .host _ hostId _ => hostId ≠ "" ∧ '"' ∉ hostId.toList
  | _ => True

end Sample

/-- The line is a name, with its label, and a value, with white space between them. -/
structure Says (line : List Char) (sample : Sample) : Prop where
  written : ∃ gap, gap ≠ [] ∧ (∀ c ∈ gap, Json.isSpace c = true) ∧
    line = sample.name.toList ++ (sample.label ++ (gap ++ sample.text))
  visible : Visible sample.text
  labelled : sample.Labelled

section

variable (V : Type) [PyFloat V]

/-- `int(float(text))` is this number. -/
def DenotesInt (text : List Char) (n : Int) : Prop :=
  ∃ x : V, PyFloat.ofText text = some x ∧ PyFloat.toInt x = .ok n

/-- `float(text)` is infinite: `int` of it raises, and not the `ValueError` of a NaN. -/
def DenotesInfinity (text : List Char) : Prop :=
  ∃ x : V, PyFloat.ofText text = some x ∧ ∃ e, PyFloat.toInt x = .error e ∧ e ≠ .valueError

variable {V}

/-- `float(text)` is this number. -/
def DenotesFloat (text : List Char) (v : V) : Prop :=
  PyFloat.ofText text = some v ∧ PyFloat.isNan v = false

/-- `a` is what the last line says for which `P` holds of something. -/
def LastLine {α : Type} (lines : List (List Char)) (P : List Char → α → Prop) (a : α) : Prop :=
  ∃ before line later, lines = before ++ line :: later ∧ P line a ∧
    ∀ line' ∈ later, ∀ b, ¬ P line' b

/-- Every value is the number of the last line that counts for it, and there are no others. -/
structure ParsedMetrics.ReadOff (parsed : ParsedMetrics V) (lines : List (List Char)) : Prop where
  hostInts : ∀ k hostId n, (parsed.hostInts k).get? hostId = some n ↔
    LastLine lines (fun line n => ∃ text, Says line (.host (.int k) hostId text) ∧
      DenotesInt V text n) n
  hostFloats : ∀ k hostId v, (parsed.hostFloats k).get? hostId = some v ↔
    LastLine lines (fun line v => ∃ text, Says line (.host (.float k) hostId text) ∧
      DenotesFloat text v) v
  queueDepth : ∀ n, parsed.queueDepth = some n ↔
    ∃ text, LastLine lines (fun line text => Says line (.queueDepth text)) text ∧
      DenotesInt V text n
  p95LatencyMs : ∀ v, parsed.p95LatencyMs = some v ↔
    ∃ text, LastLine lines (fun line text => Says line (.p95LatencyMs text)) text ∧
      DenotesFloat text v

end

/-- The line gives the value of an integer metric. -/
def SaysInteger (line text : List Char) : Prop :=
  Says line (.queueDepth text) ∨ ∃ k hostId, Says line (.host (.int k) hostId text)

/-! ## The patterns -/

theorem matchToken_iff {line token : List Char} :
    matchToken line = some token ↔
      (∃ gap, gap ≠ [] ∧ (∀ c ∈ gap, Json.isSpace c = true) ∧ line = gap ++ token) ∧
        Visible token := by
  constructor
  · intro h
    simp only [matchToken, Option.ite_none_left_eq_some, Bool.or_eq_true, not_or] at h
    obtain ⟨⟨⟨hgap, htoken⟩, hspace⟩, heq⟩ := h
    cases heq
    refine ⟨⟨line.takeWhile Json.isSpace, by simpa using hgap, ?_, ?_⟩, by simpa using htoken, ?_⟩
    · intro c hc
      exact List.mem_takeWhile_imp hc
    · rw [List.takeWhile_append_dropWhile]
    · intro c hc
      exact Bool.eq_false_of_not_eq_true (List.any_eq_false.mp
        (Bool.eq_false_of_not_eq_true hspace) c hc)
  · rintro ⟨⟨gap, hgap, hspaces, rfl⟩, hne, hvisible⟩
    have hsplit := Text.takeWhile_append_of_all (p := Json.isSpace) (l := gap) (r := token) hspaces
      fun c hc => hvisible c (List.mem_of_mem_head? hc)
    have hany : token.any Json.isSpace = false := by
      rw [List.any_eq_false]
      intro c hc
      simp [hvisible c hc]
    simp [matchToken, hsplit, hgap, hne, hany]

theorem matchValue_iff {name : String} {line token : List Char} :
    matchValue name line = some token ↔
      (∃ gap, gap ≠ [] ∧ (∀ c ∈ gap, Json.isSpace c = true) ∧ line = name.toList ++ (gap ++ token)) ∧
        Visible token := by
  simp only [matchValue, Option.bind_eq_bind, Option.bind_eq_some_iff, afterText_eq_some,
    matchToken_iff]
  constructor
  · rintro ⟨rest, rfl, ⟨gap, hgap, hspaces, rfl⟩, hvisible⟩
    exact ⟨⟨gap, hgap, hspaces, rfl⟩, hvisible⟩
  · rintro ⟨⟨gap, hgap, hspaces, rfl⟩, hvisible⟩
    exact ⟨_, rfl, ⟨gap, hgap, hspaces, rfl⟩, hvisible⟩

theorem matchHost_iff {name : String} {line hostId token : List Char} :
    matchHost name line = some (hostId, token) ↔
      (∃ gap, gap ≠ [] ∧ (∀ c ∈ gap, Json.isSpace c = true) ∧
        line = name.toList ++ ("\x7bhost_id=\"".toList ++ (hostId ++ ("\"\x7d".toList ++
          (gap ++ token))))) ∧ Visible token ∧ hostId ≠ [] ∧ '"' ∉ hostId := by
  have hquote : "\"\x7d".toList = '"' :: ['\x7d'] := by decide
  unfold matchHost
  simp only [Option.bind_eq_bind, Option.bind_eq_some_iff, afterText_eq_some]
  constructor
  · rintro ⟨rest, rfl, label, rfl, h⟩
    rw [Option.ite_none_left_eq_some] at h
    obtain ⟨hne, h⟩ := h
    simp only [Option.bind_eq_some_iff, afterText_eq_some] at h
    obtain ⟨rest, hrest, token', htoken, hpure⟩ := h
    cases hpure
    obtain ⟨⟨gap, hgap, hspaces, rfl⟩, hvisible⟩ := matchToken_iff.mp htoken
    refine ⟨⟨gap, hgap, hspaces, ?_⟩, hvisible, by simpa using hne, ?_⟩
    · rw [← hrest, List.takeWhile_append_dropWhile]
    · intro hmem
      have himp := List.mem_takeWhile_imp hmem
      simp at himp
  · rintro ⟨⟨gap, hgap, hspaces, rfl⟩, hvisible, hne, hclean⟩
    have hsplit := Text.takeWhile_append_of_all (p := fun c => decide (c ≠ '"')) (l := hostId)
      (r := "\"\x7d".toList ++ (gap ++ token))
      (fun c hc => decide_eq_true fun heq => hclean (heq ▸ hc))
      (fun c hc => by
        rw [hquote] at hc
        cases hc
        decide)
    refine ⟨_, rfl, _, rfl, ?_⟩
    rw [Option.ite_none_left_eq_some]
    refine ⟨by rwa [hsplit.1, List.isEmpty_iff], ?_⟩
    simp only [Option.bind_eq_some_iff, afterText_eq_some]
    refine ⟨gap ++ token, hsplit.2, token,
      matchToken_iff.mpr ⟨⟨gap, hgap, hspaces, rfl⟩, hvisible⟩, ?_⟩
    rw [hsplit.1]
    rfl

variable (sample : Sample) in
theorem says_iff_value {line : List Char} (hlabel : sample.label = [])
    (hlabelled : sample.Labelled) :
    Says line sample ↔ matchValue sample.name line = some sample.text := by
  rw [matchValue_iff]
  constructor
  · intro h
    have hwritten := h.written
    rw [hlabel] at hwritten
    exact ⟨hwritten, h.visible⟩
  · intro ⟨hwritten, hvisible⟩
    refine ⟨?_, hvisible, hlabelled⟩
    rwa [hlabel]

theorem says_iff_queueDepth {line text : List Char} :
    Says line (.queueDepth text) ↔ matchValue "llm_home_lab_queue_depth" line = some text :=
  says_iff_value (.queueDepth text) rfl trivial

theorem says_iff_p95LatencyMs {line text : List Char} :
    Says line (.p95LatencyMs text) ↔
      matchValue "llm_home_lab_request_latency_p95_ms" line = some text :=
  says_iff_value (.p95LatencyMs text) rfl trivial

theorem says_iff_host {line text : List Char} {metric : HostMetric} {hostId : String} :
    Says line (.host metric hostId text) ↔
      matchHost metric.metricName line = some (hostId.toList, text) := by
  have hlabel : ∀ rest, (Sample.host metric hostId text).label ++ rest =
      "\x7bhost_id=\"".toList ++ (hostId.toList ++ ("\"\x7d".toList ++ rest)) := by
    intro rest
    change Sample.hostLabel hostId ++ rest = _
    unfold Sample.hostLabel
    rw [List.append_assoc, List.append_assoc]
  rw [matchHost_iff, Ne, String.toList_eq_nil_iff]
  constructor
  · intro h
    obtain ⟨gap, hgap, hspaces, hline⟩ := h.written
    rw [hlabel] at hline
    exact ⟨⟨gap, hgap, hspaces, hline⟩, h.visible, h.labelled⟩
  · intro ⟨⟨gap, hgap, hspaces, hline⟩, hvisible, hlabelled⟩
    rw [← hlabel] at hline
    exact ⟨⟨gap, hgap, hspaces, hline⟩, hvisible, hlabelled⟩

/-- All the names begin with the same letter. -/
theorem Says.head {line : List Char} {sample : Sample} (h : Says line sample) :
    line.head? = some 'l' := by
  have hname : sample.name.toList.head? = some 'l' := by
    rcases sample with text | text | ⟨k | k, hostId, text⟩
    · exact head_ofList rfl
    · exact head_ofList rfl
    · cases k <;> exact head_ofList rfl
    · cases k <;> exact head_ofList rfl
  obtain ⟨gap, -, -, hline⟩ := h.written
  rw [hline, List.head?_append, hname, Option.some_or]

theorem says_of_matchPatterns {line : List Char} {sample : Sample}
    (h : matchPatterns line = some sample) : Says line sample := by
  have hmetric : ∀ metric, matchMetric line metric = some sample → Says line sample := by
    intro metric hmatch
    simp only [matchMetric, Option.bind_eq_bind, Option.bind_eq_some_iff] at hmatch
    obtain ⟨⟨hostId, token⟩, hhost, hpure⟩ := hmatch
    cases hpure
    rw [says_iff_host, String.toList_ofList]
    exact hhost
  unfold matchPatterns at h
  split at h
  · next hmatch =>
    cases h
    exact says_iff_queueDepth.mpr hmatch
  · split at h
    · next hmatch =>
      cases h
      exact says_iff_p95LatencyMs.mpr hmatch
    · split at h
      · next hmatch =>
        cases h
        exact hmetric _ hmatch
      · obtain ⟨metric, -, hmatch⟩ := List.exists_of_findSome?_eq_some h
        exact hmetric metric hmatch

/-- The patterns find what the line says. -/
theorem sampleOf_iff {line : List Char} {sample : Sample} :
    sampleOf line = some sample ↔ Says line sample := by
  constructor
  · intro h
    unfold sampleOf at h
    rw [Option.ite_none_left_eq_some] at h
    exact says_of_matchPatterns h.2
  · intro h
    rw [sampleOf_letter h.head]
    obtain ⟨gap, -, -, hline⟩ := h.written
    cases sample with
    | queueDepth text =>
      have hmatch := says_iff_queueDepth.mp h
      unfold matchPatterns
      rw [hmatch]
    | p95LatencyMs text =>
      have hmatch := says_iff_p95LatencyMs.mp h
      rw [hline] at hmatch ⊢
      exact matchPatterns_of_p95 hmatch
    | host metric hostId text =>
      have hmatch := says_iff_host.mp h
      rw [hline] at hmatch ⊢
      exact (matchPatterns_of_host hmatch).trans (by rw [String.ofList_toList])

/-! ## The values -/

section

variable {V : Type} [PyFloat V]

theorem asInt_eq_some {text : List Char} {n : Int} :
    asInt V text = .ok (some n) ↔ DenotesInt V text n := by
  unfold asInt DenotesInt
  cases (PyFloat.ofText text : Option V) with
  | none => simp
  | some x =>
    simp only [Option.some.injEq, exists_eq_left']
    cases PyFloat.toInt x with
    | ok m => simp
    | error e => cases e <;> simp

/-- `int` raises what is not caught. -/
theorem asInt_eq_error {text : List Char} :
    (∃ e, asInt V text = .error e) ↔ DenotesInfinity V text := by
  unfold asInt DenotesInfinity
  cases (PyFloat.ofText text : Option V) with
  | none => simp
  | some x =>
    simp only [Option.some.injEq, exists_eq_left']
    cases PyFloat.toInt x with
    | ok m => simp
    | error e => cases e <;> simp

theorem asFloat_eq_some {text : List Char} {v : V} :
    asFloat text = some v ↔ DenotesFloat text v := by
  unfold asFloat DenotesFloat
  cases (PyFloat.ofText text : Option V) with
  | none => simp
  | some x =>
    simp only [Option.some.injEq]
    split
    · next hnan =>
      refine iff_of_false (fun h => by cases h) ?_
      rintro ⟨rfl, hfalse⟩
      rw [hnan] at hfalse
      cases hfalse
    · next hnan =>
      rw [Option.some.injEq]
      refine ⟨?_, And.left⟩
      rintro rfl
      exact ⟨rfl, Bool.eq_false_of_not_eq_true hnan⟩

/-- What is read of a sample, if that does not raise. -/
def Sample.reading : Sample → Option (Reading V)
  | .queueDepth text => (asInt V text).toOption.map .queueDepth
  | .p95LatencyMs text => some (.p95LatencyMs (asFloat text))
  | .host (.int k) hostId text => (asInt V text).toOption.join.map (.int k hostId)
  | .host (.float k) hostId text => (asFloat text).map (.float k hostId)

theorem reading_of_read {sample : Sample} {reading : Option (Reading V)}
    (h : sample.read = .ok reading) : sample.reading = reading := by
  rcases sample with text | text | ⟨k | k, hostId, text⟩
  · obtain ⟨value, hvalue, h⟩ := Json.except_bind_ok h
    cases h
    rw [Sample.reading, hvalue]
    rfl
  · cases h
    rfl
  · obtain ⟨value, hvalue, h⟩ := Json.except_bind_ok h
    cases h
    rw [Sample.reading, hvalue]
    rfl
  · cases h
    rfl

/-- The text is that of an integer. -/
def Sample.isInteger : Sample → Prop
  | .queueDepth _ | .host (.int _) _ _ => True
  | _ => False

theorem read_ok_iff {sample : Sample} :
    (∃ reading, sample.read (V := V) = .ok reading) ↔
      (sample.isInteger → ¬ DenotesInfinity V sample.text) := by
  have hint : ∀ {text : List Char} {f : Option Int → Option (Reading V)},
      (∃ reading, (asInt V text >>= fun value => pure (f value)) = .ok reading) ↔
        ¬ DenotesInfinity V text := by
    intro text f
    rw [PyFloat.except_last_iff, ← asInt_eq_error]
    cases asInt V text <;> simp
  rcases sample with text | text | ⟨k | k, hostId, text⟩
  · exact hint.trans ⟨fun h _ => h, fun h => h trivial⟩
  · exact iff_of_true ⟨_, rfl⟩ False.elim
  · exact hint.trans ⟨fun h _ => h, fun h => h trivial⟩
  · exact iff_of_true ⟨_, rfl⟩ False.elim

/-- The readings of samples that do not raise. -/
theorem readAll_eq {samples : List Sample} :
    (∃ readings, readAll (V := V) samples = .ok readings) ↔
      readAll (V := V) samples = .ok (samples.filterMap Sample.reading) := by
  refine ⟨fun h => ?_, fun h => ⟨_, h⟩⟩
  induction samples with
  | nil => rfl
  | cons sample rest ih =>
    obtain ⟨readings, h⟩ := h
    obtain ⟨reading, hread, h⟩ := Json.except_bind_ok h
    obtain ⟨more, hmore, h⟩ := Json.except_bind_ok h
    have hreading := reading_of_read hread
    rw [readAll, hread, ih ⟨more, hmore⟩]
    cases reading with
    | none => rw [List.filterMap_cons_none hreading]; rfl
    | some reading => rw [List.filterMap_cons_some hreading]; rfl

theorem readAll_ok_iff {samples : List Sample} :
    (∃ readings, readAll (V := V) samples = .ok readings) ↔
      ∀ sample ∈ samples, ∃ reading, sample.read (V := V) = .ok reading := by
  induction samples with
  | nil => simp [readAll]
  | cons sample rest ih =>
    rw [List.forall_mem_cons, ← ih, readAll]
    exact PyFloat.except_seq_iff fun reading _ => PyFloat.except_last_iff

theorem toOption_asInt {text : List Char} {value : Option Int} :
    (asInt V text).toOption = some value ↔ asInt V text = .ok value := by
  cases asInt V text <;> simp [Except.toOption]

theorem reading_int {sample : Sample} {k : HostInt} {hostId : String} {n : Int} :
    sample.reading (V := V) = some (.int k hostId n) ↔
      ∃ text, sample = .host (.int k) hostId text ∧ DenotesInt V text n := by
  rcases sample with text | text | ⟨k' | k', hostId', text⟩
  case host.int =>
    simp only [Sample.reading, Option.map_eq_some_iff, Option.join_eq_some_iff, toOption_asInt,
      asInt_eq_some, Reading.int.injEq, Sample.host.injEq, HostMetric.int.injEq]
    constructor
    · rintro ⟨m, hm, rfl, rfl, rfl⟩
      exact ⟨text, ⟨rfl, rfl, rfl⟩, hm⟩
    · rintro ⟨text', ⟨rfl, rfl, rfl⟩, hm⟩
      exact ⟨n, hm, rfl, rfl, rfl⟩
  all_goals simp [Sample.reading]

theorem reading_float {sample : Sample} {k : HostFloat} {hostId : String} {v : V} :
    sample.reading = some (.float k hostId v) ↔
      ∃ text, sample = .host (.float k) hostId text ∧ DenotesFloat text v := by
  rcases sample with text | text | ⟨k' | k', hostId', text⟩
  case host.float =>
    simp only [Sample.reading, Option.map_eq_some_iff, asFloat_eq_some, Reading.float.injEq,
      Sample.host.injEq, HostMetric.float.injEq]
    constructor
    · rintro ⟨w, hw, rfl, rfl, rfl⟩
      exact ⟨text, ⟨rfl, rfl, rfl⟩, hw⟩
    · rintro ⟨text', ⟨rfl, rfl, rfl⟩, hw⟩
      exact ⟨v, hw, rfl, rfl, rfl⟩
  all_goals simp [Sample.reading]

theorem reading_queueDepth {sample : Sample} {value : Option Int} :
    sample.reading (V := V) = some (.queueDepth value) ↔
      ∃ text, sample = .queueDepth text ∧ asInt V text = .ok value := by
  rcases sample with text | text | ⟨k' | k', hostId', text⟩ <;>
    simp [Sample.reading, toOption_asInt]

theorem reading_p95LatencyMs {sample : Sample} {value : Option V} :
    sample.reading = some (.p95LatencyMs value) ↔
      ∃ text, sample = .p95LatencyMs text ∧ asFloat text = value := by
  rcases sample with text | text | ⟨k' | k', hostId', text⟩ <;> simp [Sample.reading]

omit [PyFloat V] in
theorem intAt_eq_some {reading : Reading V} {k : HostInt} {hostId : String} {n : Int} :
    reading.intAt k hostId = some n ↔ reading = .int k hostId n := by
  cases reading <;> simp [Reading.intAt, and_assoc]

omit [PyFloat V] in
theorem floatAt_eq_some {reading : Reading V} {k : HostFloat} {hostId : String} {v : V} :
    reading.floatAt k hostId = some v ↔ reading = .float k hostId v := by
  cases reading <;> simp [Reading.floatAt, and_assoc]

omit [PyFloat V] in
theorem depthOf_eq_some {reading : Reading V} {value : Option Int} :
    reading.depthOf = some value ↔ reading = .queueDepth value := by
  cases reading <;> simp [Reading.depthOf]

omit [PyFloat V] in
theorem p95Of_eq_some {reading : Reading V} {value : Option V} :
    reading.p95Of = some value ↔ reading = .p95LatencyMs value := by
  cases reading <;> simp [Reading.p95Of]

end

/-! ## The last line -/

/-- The last of what is found is found in the last line that has something. -/
theorem lastLine_of_iff {α : Type} {f : List Char → Option α} {P : List Char → α → Prop}
    (hP : ∀ line b, f line = some b ↔ P line b) {lines : List (List Char)} {a : α} :
    (lines.filterMap f).getLast? = some a ↔ LastLine lines P a := by
  rw [List.getLast?_filterMap, List.findSome?_eq_some_iff]
  constructor
  · rintro ⟨later, line, before, hlines, hf, hnone⟩
    refine ⟨before.reverse, line, later.reverse, ?_, (hP _ _).mp hf, ?_⟩
    · have hsplit := congrArg List.reverse hlines
      rwa [List.reverse_reverse, List.reverse_append, List.reverse_cons, List.append_assoc] at hsplit
    · intro line' hline' b hb
      have hsome := (hP _ _).mpr hb
      rw [hnone line' (List.mem_reverse.mp hline')] at hsome
      cases hsome
  · rintro ⟨before, line, later, rfl, hline, hlater⟩
    refine ⟨later.reverse, line, before.reverse, ?_, (hP _ _).mpr hline, ?_⟩
    · rw [List.reverse_append, List.reverse_cons, List.append_assoc]
      rfl
    · intro line' hline'
      rw [Option.eq_none_iff_forall_ne_some]
      intro b hb
      exact hlater line' (List.mem_reverse.mp hline') b ((hP _ _).mp hb)

section

variable {V : Type} [PyFloat V]

/-- What is read of a line. -/
def lineReading (line : List Char) : Option (Reading V) :=
  (sampleOf line).bind Sample.reading

theorem lineReading_eq_some {line : List Char} {reading : Reading V} :
    lineReading line = some reading ↔
      ∃ sample : Sample, Says line sample ∧ sample.reading = some reading := by
  simp only [lineReading, Option.bind_eq_some_iff, sampleOf_iff]

/-- What is read of the lines, as far as `pick` takes it. -/
theorem filterMap_lineReading {α : Type} {lines : List (List Char)} {pick : Reading V → Option α} :
    ((lines.filterMap sampleOf).filterMap Sample.reading).filterMap pick =
      lines.filterMap fun line => (lineReading line).bind pick := by
  rw [List.filterMap_filterMap, List.filterMap_filterMap]
  simp only [lineReading, Option.bind_assoc]

variable {lines : List (List Char)}

theorem lastLine_hostInt {k : HostInt} {hostId : String} {n : Int} :
    (lines.filterMap fun line => (lineReading (V := V) line).bind
        (Reading.intAt k hostId)).getLast? = some n ↔
      LastLine lines (fun line n => ∃ text, Says line (.host (.int k) hostId text) ∧
        DenotesInt V text n) n := by
  refine lastLine_of_iff fun line m => ?_
  simp only [Option.bind_eq_some_iff, intAt_eq_some, exists_eq_right, lineReading_eq_some,
    reading_int]
  constructor
  · rintro ⟨sample, hsaid, text, rfl, hm⟩
    exact ⟨text, hsaid, hm⟩
  · rintro ⟨text, hsaid, hm⟩
    exact ⟨_, hsaid, text, rfl, hm⟩

theorem lastLine_hostFloat {k : HostFloat} {hostId : String} {v : V} :
    (lines.filterMap fun line => (lineReading line).bind
        (Reading.floatAt k hostId)).getLast? = some v ↔
      LastLine lines (fun line v => ∃ text, Says line (.host (.float k) hostId text) ∧
        DenotesFloat text v) v := by
  refine lastLine_of_iff fun line w => ?_
  simp only [Option.bind_eq_some_iff, floatAt_eq_some, exists_eq_right, lineReading_eq_some,
    reading_float]
  constructor
  · rintro ⟨sample, hsaid, text, rfl, hw⟩
    exact ⟨text, hsaid, hw⟩
  · rintro ⟨text, hsaid, hw⟩
    exact ⟨_, hsaid, text, rfl, hw⟩

omit [PyFloat V] in
/-- Every text in the lines converts to a value or to none: the value is that of the last text. -/
theorem lastLine_value {α : Type} {P : List Char → List Char → Prop}
    {converts : List Char → Option α → Prop}
    (htotal : ∀ line ∈ lines, ∀ text, P line text → ∃ value, converts text value)
    {value : Option α} :
    LastLine lines (fun line value => ∃ text, P line text ∧ converts text value) value ↔
      ∃ text, LastLine lines P text ∧ converts text value := by
  constructor
  · rintro ⟨before, line, later, rfl, ⟨text, htext, hvalue⟩, hlater⟩
    refine ⟨text, ⟨before, line, later, rfl, htext, ?_⟩, hvalue⟩
    intro line' hline' text' htext'
    obtain ⟨value', hvalue'⟩ := htotal line' (by simp [hline']) text' htext'
    exact hlater line' hline' value' ⟨text', htext', hvalue'⟩
  · rintro ⟨text, ⟨before, line, later, rfl, htext, hlater⟩, hvalue⟩
    refine ⟨before, line, later, rfl, ⟨text, htext, hvalue⟩, ?_⟩
    rintro line' hline' value' ⟨text', htext', _⟩
    exact hlater line' hline' text' htext'

theorem lastLine_queueDepth {value : Option Int} :
    (lines.filterMap fun line => (lineReading (V := V) line).bind
        Reading.depthOf).getLast? = some value ↔
      LastLine lines (fun line value => ∃ text, Says line (.queueDepth text) ∧
        asInt V text = .ok value) value := by
  refine lastLine_of_iff fun line value => ?_
  simp only [Option.bind_eq_some_iff, depthOf_eq_some, exists_eq_right, lineReading_eq_some,
    reading_queueDepth]
  constructor
  · rintro ⟨sample, hsaid, text, rfl, hvalue⟩
    exact ⟨text, hsaid, hvalue⟩
  · rintro ⟨text, hsaid, hvalue⟩
    exact ⟨_, hsaid, text, rfl, hvalue⟩

theorem lastLine_p95LatencyMs {value : Option V} :
    (lines.filterMap fun line => (lineReading line).bind Reading.p95Of).getLast? = some value ↔
      LastLine lines (fun line value => ∃ text, Says line (.p95LatencyMs text) ∧
        asFloat text = value) value := by
  refine lastLine_of_iff fun line value => ?_
  simp only [Option.bind_eq_some_iff, p95Of_eq_some, exists_eq_right, lineReading_eq_some,
    reading_p95LatencyMs]
  constructor
  · rintro ⟨sample, hsaid, text, rfl, hvalue⟩
    exact ⟨text, hsaid, hvalue⟩
  · rintro ⟨text, hsaid, hvalue⟩
    exact ⟨_, hsaid, text, rfl, hvalue⟩

/-! ## What is parsed -/

theorem getD_none_eq_some {α : Type} {o : Option (Option α)} {a : α} :
    o.getD none = some a ↔ o = some (some a) := by
  cases o <;> simp

/-- No line has an infinite value for an integer. -/
def NoInfinity (V : Type) [PyFloat V] (lines : List (List Char)) : Prop :=
  ∀ line ∈ lines, ∀ text, SaysInteger line text → ¬ DenotesInfinity V text

theorem readAll_lines_iff :
    (∃ readings, readAll (V := V) (lines.filterMap sampleOf) = .ok readings) ↔
      NoInfinity V lines := by
  rw [readAll_ok_iff]
  simp only [List.mem_filterMap, sampleOf_iff, read_ok_iff]
  constructor
  · rintro h line hline text (hsaid | ⟨k, hostId, hsaid⟩)
    · exact h _ ⟨line, hline, hsaid⟩ trivial
    · exact h _ ⟨line, hline, hsaid⟩ trivial
  · rintro h sample ⟨line, hline, hsaid⟩ hinteger
    rcases sample with text | text | ⟨k | k, hostId, text⟩
    · exact h line hline text (Or.inl hsaid)
    · exact hinteger.elim
    · exact h line hline text (Or.inr ⟨k, hostId, hsaid⟩)
    · exact hinteger.elim

theorem foldl_set_readOff (h : NoInfinity V lines) :
    (((lines.filterMap sampleOf).filterMap Sample.reading).foldl ParsedMetrics.set
      ({} : ParsedMetrics V)).ReadOff lines := by
  obtain ⟨hdepth, hp95, hints, hfloats⟩ :=
    foldl_set ((lines.filterMap sampleOf).filterMap (Sample.reading (V := V)))
  refine ⟨?_, ?_, ?_, ?_⟩
  · intro k hostId n
    rw [hints, filterMap_lineReading]
    exact lastLine_hostInt
  · intro k hostId v
    rw [hfloats, filterMap_lineReading]
    exact lastLine_hostFloat
  · intro n
    have htotal : ∀ line ∈ lines, ∀ text, Says line (.queueDepth text) →
        ∃ value, asInt V text = .ok value := by
      intro line hline text hsaid
      have hfinite := mt asInt_eq_error.mp (h line hline text (Or.inl hsaid))
      cases hvalue : asInt V text with
      | ok value => exact ⟨value, rfl⟩
      | error e => exact absurd ⟨e, hvalue⟩ hfinite
    rw [hdepth, filterMap_lineReading, getD_none_eq_some, lastLine_queueDepth,
      lastLine_value htotal]
    simp only [asInt_eq_some]
  · intro v
    rw [hp95, filterMap_lineReading, getD_none_eq_some, lastLine_p95LatencyMs,
      lastLine_value fun line _ text _ => ⟨asFloat text, rfl⟩]
    simp only [asFloat_eq_some]

/-- Any text is parsed, and the result is read off its last lines, exactly when no line gives an
infinite number as the value of an integer. -/
theorem parse_any_iff (body : List Char) :
    (∃ parsed : ParsedMetrics V, parseMetricsText body = .ok parsed ∧
        parsed.ReadOff (Lines.splitlines body)) ↔
      ∀ line ∈ Lines.splitlines body, ∀ text, SaysInteger line text → ¬ DenotesInfinity V text := by
  unfold parseMetricsText
  rw [parseLines_eq]
  constructor
  · rintro ⟨parsed, hparsed, -⟩
    refine readAll_lines_iff.mp ?_
    cases hreadings : readAll (V := V) ((Lines.splitlines body).filterMap sampleOf) with
    | ok readings => exact ⟨readings, rfl⟩
    | error e =>
      rw [hreadings] at hparsed
      cases hparsed
  · intro h
    rw [readAll_eq.mp (readAll_lines_iff.mpr h)]
    exact ⟨_, rfl, foldl_set_readOff h⟩

end

/-- `inf` is a text of an infinite float. -/
theorem queue_depth_inf : parseMetricsText (V := WholeFloat)
    "llm_home_lab_queue_depth inf".toList = .error .overflowError := by
  rfl

/-- The parser raises on a text. -/
theorem not_every_text_parsed : ¬ ∀ body : List Char, ∃ parsed : ParsedMetrics WholeFloat,
    parseMetricsText body = .ok parsed ∧ parsed.ReadOff (Lines.splitlines body) := by
  intro h
  obtain ⟨parsed, hparsed, -⟩ := h "llm_home_lab_queue_depth inf".toList
  rw [queue_depth_inf] at hparsed
  cases hparsed

end LlmHomeLab
