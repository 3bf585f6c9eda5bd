import LlmHomeLab.Backends.Retry
import LlmHomeLab.Lib.JsonText
import LlmHomeLab.Lib.Lines

/-! # Decoding a stream of server-sent events

A backend writes each chunk object as one line `data: ` with a JSON text of it and ends the line as
server-sent events allow; `aiter_lines()` gives the adapters the lines of `str.splitlines`. The two
agree on what a line is except for three characters that JSON leaves as they are in a string.
-/

namespace LlmHomeLab

/-! ## What is sent -/

/-- What ends a line of an event stream. -/
inductive LineEnd where
  | lf
  | cr
  | crlf
deriving DecidableEq, Repr

def LineEnd.chars : LineEnd → List Char
  | .lf => ['\n']
  | .cr => ['\r']
  | .crlf => ['\r', '\n']

/-- The object has a choice whose delta has a text, or only a usage. -/
inductive ChunkObject (parsed : Json) : Prop where
  | choice (choice : Json) (content : String) (first : firstChoice parsed = some choice)
      (delta : deltaContent choice = some (.str content))
  | usageOnly (choices : ((parsed.field? "choices").getD .null).truthy = false)
      (usage : (usageOf parsed).isNull = false)

/-- The chunk an object describes. -/
def chunkOf (parsed : Json) : BackendChunk :=
  ⟨((firstChoice parsed).bind deltaContent).getD (.str ""), finishReasonOf parsed, usageOf parsed⟩

/-- A chunk object and the text of it that is sent, with what ends its line and the blank line
after it. -/
structure SentEvent (hooks : JsonText.Hooks) where
  object : Json
  text : String
  lineEnd : LineEnd
  blankEnd : LineEnd
  loads : JsonText.loads hooks text = some object
  noNewline : '\n' ∉ text.toList
  noReturn : '\r' ∉ text.toList
  chunk : ChunkObject object

def dataPrefix : List Char := "data: ".toList

def SentEvent.wire {hooks : JsonText.Hooks} (event : SentEvent hooks) : List Char :=
  dataPrefix ++ event.text.toList ++ (event.lineEnd.chars ++ event.blankEnd.chars)

/-- The events of a response, and the line ends of `[DONE]`. -/
structure SentStream (hooks : JsonText.Hooks) where
  events : List (SentEvent hooks)
  doneEnd : LineEnd
  lastEnd : LineEnd

namespace SentStream

variable {hooks : JsonText.Hooks}

def wire (stream : SentStream hooks) : List Char :=
  stream.events.flatMap SentEvent.wire ++
    (dataPrefix ++ "[DONE]".toList ++ (stream.doneEnd.chars ++ stream.lastEnd.chars))

/-- The response as the client library gives it to an adapter. -/
def response (stream : SentStream hooks) : HttpResponse where
  statusCode := 200
  lines := (Lines.splitlines stream.wire).map String.ofList

/-- Every POST is answered by it. -/
def script (stream : SentStream hooks) : ℕ → Attempt := fun _ => .ok stream.response

/-- The generator yields what was sent, and nothing else. -/
structure DecodedBy (stream : SentStream hooks) (generation : Generation) : Prop where
  yielded : generation.yielded = stream.events.map fun event => chunkOf event.object
  result : generation.result = .ok ()

end SentStream

/-- `str.splitlines` splits here, and a line of an event stream does not end. -/
def isHiddenBreak (c : Char) : Bool :=
  let n := c.toNat
  n = 0x85 ∨ n = 0x2028 ∨ n = 0x2029

/-- The text has none of them. -/
def SentEvent.unbroken {hooks : JsonText.Hooks} (event : SentEvent hooks) : Bool :=
  event.text.toList.all fun c => !isHiddenBreak c

/-! ## The objects -/

/-- The adapters make the chunk of an object that it describes. -/
theorem parseChunk_of_chunk {parsed : Json} (h : ChunkObject parsed) :
    parseChunk parsed = .ok (some (chunkOf parsed)) := by
  cases h with
  | choice choice content first delta =>
    obtain ⟨rest, hchoices⟩ : ∃ rest, parsed.field? "choices" = some (.arr (choice :: rest)) := by
      unfold firstChoice at first
      split at first
      · next c rest hfield =>
        cases first
        exact ⟨rest, hfield⟩
      · cases first
    obtain ⟨d, hdelta, hcontent⟩ := Option.bind_eq_some_iff.mp delta
    have hparsed : parseChunk parsed =
        .ok (some ⟨.str content, (choice.field? "finish_reason").getD .null, usageOf parsed⟩) := by
      simp only [parseChunk, Json.get_of_field hchoices, hchoices, Option.getD_some,
        Json.except_ok_bind, Json.truthy, List.isEmpty_cons, Bool.not_false, if_true, Json.first,
        Json.item_of_field hdelta, Json.get_of_field hcontent, hcontent, Json.get_of_field hdelta]
      rfl
    rw [hparsed, chunkOf, finishReasonOf, first]
    simp [delta]
  | usageOnly choices usage =>
    obtain ⟨u, husage⟩ : ∃ u, parsed.field? "usage" = some u := by
      cases hfield : parsed.field? "usage" with
      | some u => exact ⟨u, rfl⟩
      | none =>
        rw [usageOf, hfield] at usage
        cases usage
    have hfirst : firstChoice parsed = none := by
      unfold firstChoice
      split
      · next hfield =>
        rw [hfield] at choices
        cases choices
      · rfl
    have hparsed : parseChunk parsed = .ok (some ⟨.str "", .null, usageOf parsed⟩) := by
      rw [usageOf] at usage ⊢
      simp only [parseChunk, Json.get_of_field husage]
      show (if _ then _ else if _ then _ else _) = _
      rw [choices, usage]
      rfl
    rw [hparsed, chunkOf, finishReasonOf, hfirst]
    rfl

/-! ## One line -/

section

variable {hooks : JsonText.Hooks} {event : SentEvent hooks}

/-- In a text that stands on one line `str.splitlines` splits at the hidden separators only. -/
theorem SentEvent.isBreak_eq {c : Char} (hc : c ∈ event.text.toList) :
    Lines.isBreak c = isHiddenBreak c := by
  have hnewline : c ≠ '\n' := fun h => event.noNewline (h ▸ hc)
  have hreturn : c ≠ '\r' := fun h => event.noReturn (h ▸ hc)
  rcases JsonText.char_of_loads event.loads c hc with hspace | hle
  · simp only [JsonText.isSpace, Bool.or_eq_true, decide_eq_true_eq] at hspace
    rcases hspace with ((rfl | rfl) | rfl) | rfl
    · decide
    · decide
    · exact absurd rfl hnewline
    · exact absurd rfl hreturn
  · rw [Bool.eq_iff_iff]
    simp only [Lines.isBreak, isHiddenBreak, Bool.decide_or, Bool.decide_and, Bool.or_eq_true,
      Bool.and_eq_true, decide_eq_true_eq]
    omega

theorem dataPrefix_ne_nil : dataPrefix ≠ [] := by decide

theorem isBreak_dataPrefix : ∀ c ∈ dataPrefix, Lines.isBreak c = false := by
  have hall : dataPrefix.all (fun c => !Lines.isBreak c) = true := by decide
  intro c hc
  simpa using List.all_eq_true.mp hall c hc

theorem SentEvent.isBreak_of_unbroken (h : event.unbroken = true) :
    ∀ c ∈ event.text.toList, Lines.isBreak c = false := by
  intro c hc
  rw [event.isBreak_eq hc]
  simpa using List.all_eq_true.mp h c hc

theorem LineEnd.newlines (e : LineEnd) : ∀ c ∈ e.chars, c = '\n' ∨ c = '\r' := by
  cases e <;> simp [LineEnd.chars]

/-- What a line ends with, as the separator and what may follow it. -/
theorem lineEnds_eq (e e' : LineEnd) : ∃ d ends, e.chars ++ e'.chars = d :: ends ∧
    Lines.isBreak d = true ∧ ∀ c ∈ ends, c = '\n' ∨ c = '\r' := by
  have hall : ∀ c ∈ e.chars ++ e'.chars, c = '\n' ∨ c = '\r' := by
    intro c hc
    exact (List.mem_append.mp hc).elim (e.newlines c) (e'.newlines c)
  cases heq : e.chars ++ e'.chars with
  | nil => cases e <;> cases heq
  | cons d ends =>
    rw [heq] at hall
    refine ⟨d, ends, rfl, ?_, fun c hc => hall c (List.mem_cons_of_mem _ hc)⟩
    rcases hall d (List.mem_cons_self ..) with rfl | rfl <;> decide

variable {loads : String → Option Json} {broken : Option HttpError}

/-- Empty lines are passed over. -/
theorem readLines_empty (receivedAny : Bool) (k : ℕ) (rest : List String) :
    readLines loads broken receivedAny (List.replicate k "" ++ rest) =
      readLines loads broken receivedAny rest := by
  induction k with
  | zero => rfl
  | succ k ih =>
    have hempty : Text.startsWith "" "data: " = false := by decide
    rw [List.replicate_succ, List.cons_append, readLines, hempty, ← ih]
    rfl

/-- The loop over the lines of a text, of which the beginning may be the second half of a pair. -/
def readText (loads : String → Option Json) (broken : Option HttpError) (receivedAny afterCr : Bool)
    (text : List Char) : AttemptRun :=
  readLines loads broken receivedAny ((Lines.splitFrom [] afterCr text).map String.ofList)

/-- The line of a datum, up to the separator that ends it. -/
theorem readText_line {data : List Char} (hdata : ∀ c ∈ data, Lines.isBreak c = false) {d : Char}
    (hd : Lines.isBreak d = true) (receivedAny afterCr : Bool) (rest : List Char) :
    readText loads broken receivedAny afterCr (dataPrefix ++ data ++ d :: rest) =
      readLines loads broken receivedAny
        (("data: " ++ String.ofList data) ::
          (Lines.splitFrom [] (d = '\r') rest).map String.ofList) := by
  have hline : ∀ c ∈ dataPrefix ++ data, Lines.isBreak c = false := by
    intro c hc
    exact (List.mem_append.mp hc).elim (isBreak_dataPrefix c) (hdata c)
  rw [readText, Lines.splitFrom_line (by simp [dataPrefix_ne_nil]) hline hd, List.map_cons,
    String.ofList_append]
  rfl

variable (loads broken) in
/-- What the ends of lines add in front of a text. -/
theorem readText_ends {ends : List Char} (hends : ∀ c ∈ ends, c = '\n' ∨ c = '\r')
    (afterCr : Bool) (rest : List Char) : ∃ afterCr', ∀ receivedAny,
      readText loads broken receivedAny afterCr (ends ++ rest) =
        readText loads broken receivedAny afterCr' rest := by
  obtain ⟨k, afterCr', hsplit⟩ := Lines.splitFrom_ends hends afterCr rest
  refine ⟨afterCr', fun receivedAny => ?_⟩
  rw [readText, hsplit, List.map_append, List.map_replicate]
  exact readLines_empty receivedAny k _

/-! ## One datum -/

theorem readLines_done (receivedAny : Bool) (rest : List String) :
    readLines loads broken receivedAny (("data: " ++ "[DONE]") :: rest) =
      ⟨[], receivedAny, .ok ()⟩ := by
  unfold readLines
  rw [Text.startsWith_append, Text.removeLeading_append]
  rfl

theorem readLines_undecoded {data : String} (hdone : data ≠ "[DONE]") (hloads : loads data = none)
    (receivedAny : Bool) (rest : List String) :
    readLines loads broken receivedAny (("data: " ++ data) :: rest) =
      ⟨[], receivedAny, .error .jsonDecode⟩ := by
  simp [readLines, Text.startsWith_append, Text.removeLeading_append, hdone, hloads]

theorem readLines_chunk {data : String} {parsed : Json} {chunk : BackendChunk}
    (hdone : data ≠ "[DONE]") (hloads : loads data = some parsed)
    (hparse : parseChunk parsed = .ok (some chunk)) (receivedAny : Bool) (rest : List String) :
    readLines loads broken receivedAny (("data: " ++ data) :: rest) =
      { readLines loads broken true rest with
        yielded := chunk :: (readLines loads broken true rest).yielded } := by
  simp [readLines, Text.startsWith_append, Text.removeLeading_append, hdone, hloads, hparse]

/-- `[DONE]` is no JSON text, and no text can begin with it and go on inside a string. -/
theorem run_done : JsonText.run hooks "[DONE]".toList = none := rfl

theorem ne_done_of_run {data : List Char} {s : JsonText.State}
    (h : JsonText.run hooks data = some s) : String.ofList data ≠ "[DONE]" := by
  intro heq
  have hdata : data = "[DONE]".toList := by rw [← heq, String.toList_ofList]
  rw [hdata, run_done] at h
  cases h

/-! ## One event -/

/-- An event without hidden separators is read as the chunk it describes. -/
theorem readText_event (h : event.unbroken = true) (afterCr : Bool) (rest : List Char) :
    ∃ afterCr', ∀ receivedAny,
      readText (JsonText.loads hooks) broken receivedAny afterCr (event.wire ++ rest) =
        { readText (JsonText.loads hooks) broken true afterCr' rest with
          yielded := chunkOf event.object ::
            (readText (JsonText.loads hooks) broken true afterCr' rest).yielded } := by
  obtain ⟨d, ends, heq, hd, hends⟩ := lineEnds_eq event.lineEnd event.blankEnd
  obtain ⟨afterCr', hrest⟩ :=
    readText_ends (JsonText.loads hooks) broken hends (d = '\r') rest
  refine ⟨afterCr', fun receivedAny => ?_⟩
  have hwire : event.wire ++ rest = dataPrefix ++ event.text.toList ++ d :: (ends ++ rest) := by
    rw [SentEvent.wire, heq, List.append_assoc, List.cons_append]
  obtain ⟨s, hrun, -⟩ := Option.bind_eq_some_iff.mp event.loads
  have hdone : event.text ≠ "[DONE]" := by
    have hne := ne_done_of_run hrun
    rwa [String.ofList_toList] at hne
  rw [hwire, readText_line (event.isBreak_of_unbroken h) hd, String.ofList_toList,
    readLines_chunk hdone event.loads (parseChunk_of_chunk event.chunk), ← hrest true]
  rfl

theorem exists_first_hidden {l : List Char} (h : ∃ c ∈ l, isHiddenBreak c = true) :
    ∃ front c behind, l = front ++ c :: behind ∧ isHiddenBreak c = true ∧
      ∀ x ∈ front, isHiddenBreak x = false := by
  cases hfind : l.find? isHiddenBreak with
  | none =>
    obtain ⟨c, hc, hhidden⟩ := h
    exact absurd hhidden (List.find?_eq_none.mp hfind c hc)
  | some c =>
    obtain ⟨hhidden, front, behind, hsplit, hfront⟩ := List.find?_eq_some_iff_append.mp hfind
    exact ⟨front, c, behind, hsplit, hhidden, fun x hx => by simpa using hfront x hx⟩

/-- An event with one is cut short, and what is left of its text is no JSON. -/
theorem readText_cut (h : event.unbroken = false) (receivedAny afterCr : Bool) (rest : List Char) :
    readText (JsonText.loads hooks) broken receivedAny afterCr (event.wire ++ rest) =
      ⟨[], receivedAny, .error .jsonDecode⟩ := by
  -- the first hidden separator of the text
  have hexists : ∃ c ∈ event.text.toList, isHiddenBreak c = true := by
    simpa [SentEvent.unbroken] using h
  obtain ⟨front, c, behind, hsplit, hc, hfront⟩ := exists_first_hidden hexists
  have hhigh : 0x80 ≤ c.toNat := by
    simp only [isHiddenBreak, Bool.decide_or, Bool.or_eq_true, decide_eq_true_eq] at hc
    omega
  have hmem : c ∈ event.text.toList := hsplit ▸ List.mem_append_right _ (List.mem_cons_self ..)
  have hbreak : Lines.isBreak c = true := by rw [event.isBreak_eq hmem, hc]
  have hclean : ∀ x ∈ front, Lines.isBreak x = false := by
    intro x hx
    rw [event.isBreak_eq (hsplit ▸ List.mem_append_left _ hx), hfront x hx]
  obtain ⟨s, hrun, -⟩ := JsonText.run_front event.loads hsplit hhigh
  have hwire : event.wire ++ rest = dataPrefix ++ front ++
      c :: (behind ++ (event.lineEnd.chars ++ event.blankEnd.chars) ++ rest) := by
    simp [SentEvent.wire, hsplit]
  rw [hwire, readText_line hclean hbreak, readLines_undecoded (ne_done_of_run hrun)
    (JsonText.loads_front event.loads hsplit hhigh)]

theorem readText_done (e e' : LineEnd) (receivedAny afterCr : Bool) :
    readText loads broken receivedAny afterCr
        (dataPrefix ++ "[DONE]".toList ++ (e.chars ++ e'.chars)) = ⟨[], receivedAny, .ok ()⟩ := by
  obtain ⟨d, ends, heq, hd, -⟩ := lineEnds_eq e e'
  have hdone : ∀ c ∈ "[DONE]".toList, Lines.isBreak c = false := by
    have hall : "[DONE]".toList.all (fun c => !Lines.isBreak c) = true := by decide
    intro c hc
    simpa using List.all_eq_true.mp hall c hc
  rw [heq, readText_line hdone hd, String.ofList_toList, readLines_done]

end

/-! ## The stream -/

section

variable {hooks : JsonText.Hooks} {broken : Option HttpError}

/-- No event has a hidden separator. -/
def SentStream.Unbroken (stream : SentStream hooks) : Prop :=
  ∀ event ∈ stream.events, event.unbroken = true

variable (broken) in
theorem readText_events (events : List (SentEvent hooks)) (e e' : LineEnd)
    (receivedAny afterCr : Bool) :
    let run := readText (JsonText.loads hooks) broken receivedAny afterCr
      (events.flatMap SentEvent.wire ++
        (dataPrefix ++ "[DONE]".toList ++ (e.chars ++ e'.chars)))
    ((∀ event ∈ events, event.unbroken = true) →
      run.yielded = events.map (fun event => chunkOf event.object) ∧ run.result = .ok ()) ∧
    ((∃ event ∈ events, event.unbroken = false) → run.result = .error .jsonDecode) := by
  induction events generalizing receivedAny afterCr with
  | nil =>
    simp only [List.flatMap_nil, List.nil_append, readText_done]
    simp
  | cons event events ih =>
    simp only [List.flatMap_cons, List.append_assoc]
    cases hevent : event.unbroken with
    | false =>
      rw [readText_cut hevent]
      refine ⟨fun hall => ?_, fun _ => rfl⟩
      rw [hall event (List.mem_cons_self ..)] at hevent
      cases hevent
    | true =>
      obtain ⟨afterCr', hread⟩ := readText_event hevent afterCr _
      have hrest := ih true afterCr'
      simp only [List.append_assoc] at hrest
      rw [hread]
      refine ⟨fun hall => ?_, ?_⟩
      · obtain ⟨hyielded, hresult⟩ := hrest.1 fun x hx => hall x (List.mem_cons_of_mem _ hx)
        exact ⟨congrArg _ hyielded, hresult⟩
      · rintro ⟨x, hx, hbroken⟩
        refine hrest.2 ⟨x, ?_, hbroken⟩
        rcases List.mem_cons.mp hx with rfl | hx
        · rw [hevent] at hbroken
          cases hbroken
        · exact hx

/-- An attempt that is answered by the stream, and the loop that makes it. -/
theorem attemptLoop_decoded_iff (stream : SentStream hooks) (payload : Dict String Json)
    (retries : ℕ) :
    stream.DecodedBy (attemptLoop (JsonText.loads hooks) stream.script payload (retries + 1) 0
      none) ↔ stream.Unbroken := by
  have hread := readText_events none stream.events stream.doneEnd stream.lastEnd false
    false
  have hrun : runAttempt (JsonText.loads hooks) (stream.script 0) =
      readText (JsonText.loads hooks) none false false stream.wire := by
    simp only [SentStream.script, runAttempt, SentStream.response, readResponse]
    rfl
  have hread' := hrun ▸ hread
  by_cases h : stream.Unbroken
  · obtain ⟨hyielded, hresult⟩ := hread'.1 h
    refine iff_of_true ?_ h
    constructor
    · simp only [attemptLoop, hresult, hyielded]
    · simp only [attemptLoop, hresult]
  · have hresult := hread'.2 (by simpa [SentStream.Unbroken] using h)
    refine iff_of_false (fun hdecoded => ?_) h
    have hok := hdecoded.result
    simp only [attemptLoop, hresult] at hok
    cases hok

/-- Both adapters yield what was sent exactly if no text of an event has a separator of
`str.splitlines` in it that does not end a line of an event stream. -/
theorem stream_decoded_iff (stream : SentStream hooks) (lmstudio : LMStudio)
    (llamaserver : LlamaCPPServer) (request : InferenceRequest) :
    (stream.DecodedBy (lmstudio.streamChunks (JsonText.loads hooks) stream.script request).1 ↔
      stream.Unbroken) ∧
    (stream.DecodedBy (llamaserver.streamChunks (JsonText.loads hooks) stream.script request) ↔
      stream.Unbroken) :=
  ⟨attemptLoop_decoded_iff stream _ _, attemptLoop_decoded_iff stream _ _⟩

end

/-! ## A separator in a token -/

/-- A token with a line separator in it, as a backend may send it. -/
def separatedEvent : SentEvent ⟨fun _ => none, fun _ => none, fun _ => none⟩ where
  object := .obj [("choices", .arr [.obj [("delta", .obj [("content", .str "a\u2028b")])]])]
  text := "\x7b\"choices\":[\x7b\"delta\":\x7b\"content\":\"a\u2028b\"\x7d\x7d]\x7d"
  lineEnd := .lf
  blankEnd := .lf
  loads := rfl
  noNewline := by decide
  noReturn := by decide
  chunk := .choice (.obj [("delta", .obj [("content", .str "a\u2028b")])]) "a\u2028b" rfl rfl

def separatedStream : SentStream ⟨fun _ => none, fun _ => none, fun _ => none⟩ :=
  ⟨[separatedEvent], .lf, .lf⟩

/-- The line ends inside the text, and what is left of it raises. -/
theorem separator_undecoded :
    ¬ separatedStream.DecodedBy
      (LMStudio.streamChunks (JsonText.loads ⟨fun _ => none, fun _ => none, fun _ => none⟩)
        separatedStream.script ⟨0, .empty, .empty⟩
        ⟨⟨"m", [⟨"user", "hi"⟩], true, none, none⟩, .null, .null, .null, .null⟩).1 := by
  intro h
  have hok := h.result
  have hends : (runAttempt (JsonText.loads ⟨fun _ => none, fun _ => none, fun _ => none⟩)
      (separatedStream.script 0)).result = .error .jsonDecode := rfl
  simp only [LMStudio.streamChunks, attemptLoop, hends] at hok
  cases hok

end LlmHomeLab
