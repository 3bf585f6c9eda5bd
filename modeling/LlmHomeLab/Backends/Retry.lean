import LlmHomeLab.Backends.Adapters
import LlmHomeLab.Lib.Text
import LlmHomeLab.Routing.Engine

/-! # The retry loop of the adapters

`_stream_chunks` of `backends/lmstudio.py` and `backends/llamaserver.py`: POST the payload, yield
the chunks of the response, and start over if the connection fails before any of them.
`inference_response` of `backends/http_stream.py` is the POST and the closing of its response.
What the client library answers is a script, one `Attempt` for each POST.
-/

namespace LlmHomeLab

/-! ## The payload -/

/-- A request with its generation parameters, `null` where the client did not set them. -/
structure InferenceRequest where
  body : ChatCompletionRequest
  temperature : Json := .null
  maxTokens : Json := .null
  chatTemplateKwargs : Json := .null
  responseFormat : Json := .null

namespace InferenceRequest

/-- The values of `GENERATION_FIELDS`. -/
def generationFields (request : InferenceRequest) : List (String × Json) :=
  [("temperature", request.temperature), ("max_tokens", request.maxTokens),
    ("chat_template_kwargs", request.chatTemplateKwargs),
    ("response_format", request.responseFormat)]

def unsetGenerationFields (request : InferenceRequest) : List String :=
  (request.generationFields.filter fun field => field.2.isNull).map Prod.fst

/-- `dict | fields`. -/
def union (d : Dict String Json) (fields : List (String × Json)) : Dict String Json :=
  fields.foldl (fun d field => d.set field.1 field.2) d

def modelDump (request : InferenceRequest) (exclude : List String) : Dict String Json :=
  let text (value : Option String) : Json := value.elim .null .str
  let message (m : Message) : Json := .obj [("role", .str m.role), ("content", .str m.content)]
  let fields : List (String × Json) :=
    [("model", .str request.body.model), ("messages", .arr (request.body.messages.map message)),
      ("stream", .bool request.body.stream), ("session_id", text request.body.sessionId),
      ("task_type", text request.body.taskType)]
  (union .empty (fields ++ request.generationFields)).filter fun key _ => !exclude.contains key

end InferenceRequest

/-- The fields both payloads end with. -/
def streamFields : List (String × Json) :=
  [("stream", .bool true), ("stream_options", .obj [("include_usage", .bool true)])]

def toLmstudioPayload (request : InferenceRequest) (model : String) : Dict String Json :=
  InferenceRequest.union
    (request.modelDump (["stream", "chat_template_kwargs"] ++ request.unsetGenerationFields))
    (("model", .str model) :: streamFields)

def toLlamaserverPayload (request : InferenceRequest) : Dict String Json :=
  InferenceRequest.union (request.modelDump ("stream" :: request.unsetGenerationFields))
    streamFields

/-! ## One attempt -/

/-- What the client library raises: a `TimeoutException`, another `TransportError`, or anything
else. -/
inductive HttpError where
  | timeout (message : String)
  | transport (message : String)
  | other
deriving DecidableEq, Repr

/-- A response: what `aread()` gives, the lines of `aiter_lines()` and what it raises after
them, and what `aclose()` raises. -/
structure HttpResponse where
  statusCode : Nat
  body : Except HttpError String := .ok ""
  lines : List String := []
  broken : Option HttpError := none
  closing : Option HttpError := none

/-- What comes of one POST. -/
abbrev Attempt := Except HttpError HttpResponse

/-- What is in flight when the `try` of an attempt is left. -/
inductive Raised where
  | http (e : HttpError)
  | backendResponse (statusCode : Nat) (body : String)
  | jsonDecode
  | builtin (e : PyError)
deriving DecidableEq, Repr

/-- An attempt as the adapter sees it. -/
structure AttemptRun where
  yielded : List BackendChunk
  receivedAny : Bool
  result : Except Raised Unit

/-- `received_any` is set before the chunk is built, so an object that raises in between has
set it too. -/
def marksReceived (parsed : Json) : Bool :=
  match parsed.get "choices" .null with
  | .error _ => false
  | .ok choices => choices.truthy && choices.first.toBool

section

-- `json.loads`, where it does not raise
variable (loads : String → Option Json)

/-- The loop over the lines of a response. -/
def readLines (broken : Option HttpError) (receivedAny : Bool) : List String → AttemptRun
  | [] => ⟨[], receivedAny, broken.elim (.ok ()) fun e => .error (.http e)⟩
  | line :: rest =>
    if !Text.startsWith line "data: " then readLines broken receivedAny rest
    else
      let data := Text.removeLeading line "data: "
      if data = "[DONE]" then ⟨[], receivedAny, .ok ()⟩
      else
        match loads data with
        | none => ⟨[], receivedAny, .error .jsonDecode⟩
        | some parsed =>
          match parseChunk parsed with
          | .error e => ⟨[], receivedAny || marksReceived parsed, .error (.builtin e)⟩
          | .ok none => readLines broken receivedAny rest
          | .ok (some chunk) =>
            let run := readLines broken true rest
            { run with yielded := chunk :: run.yielded }

/-- The body of the `async with`. -/
def readResponse (response : HttpResponse) : AttemptRun :=
  if response.statusCode / 100 ≠ 2 then
    match response.body with
    | .error e => ⟨[], false, .error (.http e)⟩
    | .ok body => ⟨[], false, .error (.backendResponse response.statusCode body)⟩
  else readLines loads response.broken false response.lines

/-- The `try` of an attempt. An exception of the closing takes the place of what came before
it. -/
def runAttempt : Attempt → AttemptRun
  | .error e => ⟨[], false, .error (.http e)⟩
  | .ok response =>
    let run := readResponse loads response
    match response.closing with
    | none => run
    | some e => { run with result := .error (.http e) }

/-! ## The loop -/

inductive AdapterError where
  | backendTimeout (message : String)
  | backendConnection (message : String)
  | backendResponse (statusCode : Nat) (body : String)
  | jsonDecode
  | builtin (e : PyError)
  | other
deriving DecidableEq, Repr

/-- What the generator has done at its end: the payloads it has posted, the chunks it has
yielded, and how it ended. -/
structure Generation where
  posts : List (Dict String Json)
  yielded : List BackendChunk
  result : Except AdapterError Unit

variable (script : Nat → Attempt)

/-- `for _ in range(attempts)`, with `remaining` turns to go and the POSTs counted from `i`. -/
def attemptLoop (payload : Dict String Json) :
    (remaining : Nat) → (i : Nat) → (lastError : Option String) → Generation
  | 0, _, lastError => ⟨[], [], .error (.backendConnection (lastError.getD "None"))⟩
  | remaining + 1, i, _ =>
    let run := runAttempt loads (script i)
    let ends (result : Except AdapterError Unit) : Generation := ⟨[payload], run.yielded, result⟩
    match run.result with
    | .ok () => ends (.ok ())
    | .error (.http (.timeout message)) =>
      ends (.error (.backendTimeout
        (if message = "" then "backend request timed out" else message)))
    | .error (.http (.transport message)) =>
      if run.receivedAny then ends (.error (.backendConnection message))
      else
        let rest := attemptLoop payload remaining (i + 1) (some message)
        ⟨payload :: rest.posts, run.yielded ++ rest.yielded, rest.result⟩
    | .error (.http .other) => ends (.error .other)
    | .error (.backendResponse statusCode body) =>
      ends (.error (.backendResponse statusCode body))
    | .error .jsonDecode => ends (.error .jsonDecode)
    | .error (.builtin e) => ends (.error (.builtin e))

/-- An `LMStudioBackend`. -/
structure LMStudio where
  maxRetries : Nat
  modelAliases : Dict String (List String)
  aliasCursor : Dict String Nat

/-- The identifier a model name stands for this time, and the cursors moved on. -/
def LMStudio.resolveModel (backend : LMStudio) (model : String) : String × LMStudio :=
  match backend.modelAliases.get? model with
  | none => (model, backend)
  | some [] => (model, backend)
  | some (first :: rest) =>
    let aliases := first :: rest
    let index := (backend.aliasCursor.get? model).getD 0 % aliases.length
    (aliases.getD index model,
      { backend with aliasCursor := backend.aliasCursor.set model (index + 1) })

/-- `_stream_chunks`. The alias is resolved once, before the loop. -/
def LMStudio.streamChunks (backend : LMStudio) (request : InferenceRequest) :
    Generation × LMStudio :=
  let (model, backend) := backend.resolveModel request.body.model
  (attemptLoop loads script (toLmstudioPayload request model) (backend.maxRetries + 1) 0 none,
    backend)

/-- A `LlamaCPPServerBackend`. -/
structure LlamaCPPServer where
  maxRetries : Nat

def LlamaCPPServer.streamChunks (backend : LlamaCPPServer) (request : InferenceRequest) :
    Generation :=
  attemptLoop loads script (toLlamaserverPayload request) (backend.maxRetries + 1) 0 none

/-! ## What an attempt is

The attempt read off the response as a whole, not line by line. -/

/-- The data lines of a response, without their marker. -/
def dataLines (lines : List String) : List String :=
  (lines.filter fun line => Text.startsWith line "data: ").map fun line =>
    Text.removeLeading line "data: "

/-- The data up to `[DONE]`. -/
def heard (lines : List String) : List String := (dataLines lines).takeWhile (· ≠ "[DONE]")

/-- The objects up to the first datum that is none. -/
def heardObjects (lines : List String) : List Json :=
  (((heard lines).map loads).takeWhile Option.isSome).filterMap id

/-- How an attempt ended. -/
inductive AttemptEnd where
  | completed
  | malformed
  | refused (statusCode : Nat) (body : String)
  | failed (e : HttpError)
deriving DecidableEq, Repr

/-- Something heard is not JSON, or not the JSON of a chunk. -/
def malformedStream (lines : List String) : Bool :=
  (heard lines).any (fun data => (loads data).isNone) ||
    (yieldChunks (heardObjects loads lines)).2.isSome

def HttpResponse.ended (response : HttpResponse) : AttemptEnd :=
  if response.statusCode / 100 ≠ 2 then
    match response.body with
    | .error e => .failed e
    | .ok body => .refused response.statusCode body
  else if malformedStream loads response.lines then .malformed
  else if "[DONE]" ∈ dataLines response.lines then .completed
  else response.broken.elim .completed .failed

def Attempt.ended : Attempt → AttemptEnd
  | .error e => .failed e
  | .ok response => response.closing.elim (response.ended loads) .failed

/-- The chunks of an attempt. -/
def Attempt.chunks : Attempt → List BackendChunk
  | .error _ => []
  | .ok response =>
    if response.statusCode / 100 ≠ 2 then []
    else (yieldChunks (heardObjects loads response.lines)).1

/-- The generator ends as its last attempt did. -/
structure EndsAs (result : Except AdapterError Unit) (ended : AttemptEnd) : Prop where
  timeout : (∃ message, result = .error (.backendTimeout message)) ↔
    ∃ message, ended = .failed (.timeout message)
  connection : (∃ message, result = .error (.backendConnection message)) ↔
    ∃ message, ended = .failed (.transport message)
  response : (∃ statusCode body, result = .error (.backendResponse statusCode body)) ↔
    ∃ statusCode body, ended = .refused statusCode body
  normal : result = .ok () ↔ ended = .completed

/-- `generation` is the output of the attempt `last` and of no other: the attempts before it
failed without output, and it decides how the generation ends. -/
structure OfAttempt (maxRetries : Nat) (payload : Dict String Json) (generation : Generation)
    (last : Nat) : Prop where
  bounded : last ≤ maxRetries
  posts : generation.posts = List.replicate (last + 1) payload
  yielded : generation.yielded = (script last).chunks loads
  earlier : ∀ i < last, (∃ message, (script i).ended loads = .failed (.transport message)) ∧
    (script i).chunks loads = []
  ends : EndsAs generation.result ((script last).ended loads)

/-! ## An attempt, line by line -/

variable {loads} {script}

/-- The end an attempt comes to with a result of its `try`. -/
def endOf : Except Raised Unit → AttemptEnd
  | .ok () => .completed
  | .error (.http e) => .failed e
  | .error (.backendResponse statusCode body) => .refused statusCode body
  | .error .jsonDecode => .malformed
  | .error (.builtin _) => .malformed

theorem dataLines_skip {line : String} (rest : List String)
    (h : Text.startsWith line "data: " = false) : dataLines (line :: rest) = dataLines rest := by
  simp [dataLines, h]

theorem dataLines_data {line : String} (rest : List String)
    (h : Text.startsWith line "data: " = true) :
    dataLines (line :: rest) = Text.removeLeading line "data: " :: dataLines rest := by
  simp [dataLines, h]

/-- What has been heard, one line at a time. -/
theorem heard_cons (line : String) (rest : List String) :
    heard (line :: rest) =
      if Text.startsWith line "data: " then
        if Text.removeLeading line "data: " = "[DONE]" then []
        else Text.removeLeading line "data: " :: heard rest
      else heard rest := by
  cases hdata : Text.startsWith line "data: " with
  | false => simp [heard, dataLines_skip rest hdata]
  | true =>
    by_cases hdone : Text.removeLeading line "data: " = "[DONE]"
    · simp [heard, dataLines_data rest hdata, hdone]
    · simp [heard, dataLines_data rest hdata, hdone]

variable (loads) in
/-- The loop over the lines, started with `receivedAny`, has yielded the chunks heard and ended
as they do. -/
structure ReadAs (lines : List String) (broken : Option HttpError) (receivedAny : Bool)
    (run : AttemptRun) : Prop where
  yielded : run.yielded = (yieldChunks (heardObjects loads lines)).1
  result : endOf run.result =
    if malformedStream loads lines then .malformed
    else if "[DONE]" ∈ dataLines lines then .completed
    else broken.elim .completed .failed
  silent : run.receivedAny = false → receivedAny = false ∧ run.yielded = []

variable {line : String} {rest : List String} {broken : Option HttpError} {receivedAny : Bool}
  {parsed : Json}

theorem heardObjects_cons (hdata : Text.startsWith line "data: " = true)
    (hdone : Text.removeLeading line "data: " ≠ "[DONE]")
    (hloads : loads (Text.removeLeading line "data: ") = some parsed) :
    heardObjects loads (line :: rest) = parsed :: heardObjects loads rest := by
  simp [heardObjects, heard_cons, hdata, hdone, hloads]

theorem malformedStream_cons (hdata : Text.startsWith line "data: " = true)
    (hdone : Text.removeLeading line "data: " ≠ "[DONE]")
    (hloads : loads (Text.removeLeading line "data: ") = some parsed) :
    malformedStream loads (line :: rest) =
      ((heard rest).any (fun data => (loads data).isNone) ||
        (yieldChunks (parsed :: heardObjects loads rest)).2.isSome) := by
  rw [malformedStream, heardObjects_cons hdata hdone hloads]
  simp [heard_cons, hdata, hdone, hloads]

theorem done_mem_cons (hdata : Text.startsWith line "data: " = true)
    (hdone : Text.removeLeading line "data: " ≠ "[DONE]") :
    "[DONE]" ∈ dataLines (line :: rest) ↔ "[DONE]" ∈ dataLines rest := by
  rw [dataLines_data rest hdata, List.mem_cons]
  constructor
  · rintro (h | h)
    · exact absurd h.symm hdone
    · exact h
  · exact Or.inr

theorem readLines_spec (broken : Option HttpError) (receivedAny : Bool) (lines : List String) :
    ReadAs loads lines broken receivedAny (readLines loads broken receivedAny lines) := by
  induction lines generalizing receivedAny with
  | nil =>
    refine ⟨rfl, ?_, fun h => ⟨h, rfl⟩⟩
    cases broken <;> rfl
  | cons line rest ih =>
    by_cases hdata : Text.startsWith line "data: " = true
    swap
    · -- not a data line
      have hno : Text.startsWith line "data: " = false := by simpa using hdata
      have hheard : heard (line :: rest) = heard rest := by simp [heard_cons, hno]
      have hread : readLines loads broken receivedAny (line :: rest) =
          readLines loads broken receivedAny rest := by
        simp [readLines, hno]
      rw [hread]
      rcases ih receivedAny with ⟨hyielded, hresult, hsilent⟩
      refine ⟨?_, ?_, hsilent⟩
      · rw [hyielded, heardObjects, heardObjects, hheard]
      · rw [hresult, malformedStream, malformedStream, heardObjects, heardObjects, hheard,
          dataLines_skip rest hno]
    by_cases hdone : Text.removeLeading line "data: " = "[DONE]"
    · -- the end of the stream, whatever would follow
      have hheard : heard (line :: rest) = [] := by simp [heard_cons, hdata, hdone]
      have hread : readLines loads broken receivedAny (line :: rest) =
          ⟨[], receivedAny, .ok ()⟩ := by
        simp [readLines, hdata, hdone]
      have hmem : "[DONE]" ∈ dataLines (line :: rest) := by
        simp [dataLines_data rest hdata, hdone]
      rw [hread]
      refine ⟨?_, ?_, fun h => ⟨h, rfl⟩⟩
      · rw [heardObjects, hheard]
        rfl
      · rw [malformedStream, heardObjects, hheard, if_pos hmem]
        rfl
    cases hloads : loads (Text.removeLeading line "data: ") with
    | none =>
      have hread : readLines loads broken receivedAny (line :: rest) =
          ⟨[], receivedAny, .error .jsonDecode⟩ := by
        simp [readLines, hdata, hdone, hloads]
      rw [hread]
      refine ⟨?_, ?_, fun h => ⟨h, rfl⟩⟩
      · simp [heardObjects, heard_cons, hdata, hdone, hloads, yieldChunks]
      · simp [malformedStream, heard_cons, hdata, hdone, hloads, endOf]
    | some parsed =>
      cases hparse : parseChunk parsed with
      | error e =>
        have hread : readLines loads broken receivedAny (line :: rest) =
            ⟨[], receivedAny || marksReceived parsed, .error (.builtin e)⟩ := by
          simp [readLines, hdata, hdone, hloads, hparse]
        rw [hread]
        refine ⟨?_, ?_, ?_⟩
        · simp [heardObjects_cons hdata hdone hloads, yieldChunks, hparse]
        · simp [malformedStream_cons hdata hdone hloads, yieldChunks, hparse, endOf]
        · intro h
          exact ⟨(Bool.or_eq_false_iff.mp h).1, rfl⟩
      | ok res =>
        cases res with
        | none =>
          -- an object without choices and usage
          have hread : readLines loads broken receivedAny (line :: rest) =
              readLines loads broken receivedAny rest := by
            simp [readLines, hdata, hdone, hloads, hparse]
          rw [hread]
          rcases ih receivedAny with ⟨hyielded, hresult, hsilent⟩
          refine ⟨?_, ?_, hsilent⟩
          · rw [hyielded, heardObjects_cons hdata hdone hloads]
            simp [yieldChunks, hparse]
          · rw [hresult, malformedStream_cons hdata hdone hloads]
            simp only [done_mem_cons hdata hdone, yieldChunks, hparse]
            rfl
        | some chunk =>
          have hread : readLines loads broken receivedAny (line :: rest) =
              { readLines loads broken true rest with
                yielded := chunk :: (readLines loads broken true rest).yielded } := by
            simp [readLines, hdata, hdone, hloads, hparse]
          rw [hread]
          rcases ih true with ⟨hyielded, hresult, hsilent⟩
          refine ⟨?_, ?_, ?_⟩
          · rw [heardObjects_cons hdata hdone hloads]
            simp [yieldChunks, hparse, hyielded]
          · rw [malformedStream_cons hdata hdone hloads]
            simp only [done_mem_cons hdata hdone, yieldChunks, hparse, hresult]
            rfl
          · intro h
            exact absurd (hsilent h).1 (by simp)

variable (loads) in
theorem readResponse_spec (response : HttpResponse) :
    (readResponse loads response).yielded = Attempt.chunks loads (.ok response) ∧
      endOf (readResponse loads response).result = response.ended loads ∧
      ((readResponse loads response).receivedAny = false →
        (readResponse loads response).yielded = []) := by
  by_cases hstatus : response.statusCode / 100 ≠ 2
  · simp only [readResponse, Attempt.chunks, HttpResponse.ended, if_pos hstatus]
    cases response.body with
    | error e => exact ⟨rfl, rfl, fun _ => rfl⟩
    | ok body => exact ⟨rfl, rfl, fun _ => rfl⟩
  · simp only [readResponse, Attempt.chunks, HttpResponse.ended, if_neg hstatus]
    have hread : ReadAs loads response.lines response.broken false _ :=
      readLines_spec response.broken false response.lines
    exact ⟨hread.yielded, hread.result, fun h => (hread.silent h).2⟩

variable (loads) in
/-- An attempt yields its chunks and comes to its end. -/
theorem runAttempt_spec (attempt : Attempt) :
    (runAttempt loads attempt).yielded = attempt.chunks loads ∧
      endOf (runAttempt loads attempt).result = attempt.ended loads ∧
      ((runAttempt loads attempt).receivedAny = false →
        (runAttempt loads attempt).yielded = []) := by
  cases attempt with
  | error e => exact ⟨rfl, rfl, fun _ => rfl⟩
  | ok response =>
    rcases readResponse_spec loads response with ⟨hyielded, hresult, hsilent⟩
    simp only [runAttempt, Attempt.ended]
    cases response.closing with
    | none => exact ⟨hyielded, hresult, hsilent⟩
    | some e => exact ⟨hyielded, rfl, hsilent⟩

/-! ## The loop, attempt by attempt -/

/-- How the generator ends with the result of an attempt it does not repeat. -/
def adapterResult : Except Raised Unit → Except AdapterError Unit
  | .ok () => .ok ()
  | .error (.http (.timeout message)) =>
    .error (.backendTimeout (if message = "" then "backend request timed out" else message))
  | .error (.http (.transport message)) => .error (.backendConnection message)
  | .error (.http .other) => .error .other
  | .error (.backendResponse statusCode body) => .error (.backendResponse statusCode body)
  | .error .jsonDecode => .error .jsonDecode
  | .error (.builtin e) => .error (.builtin e)

theorem endsAs_adapterResult (result : Except Raised Unit) :
    EndsAs (adapterResult result) (endOf result) := by
  rcases result with (e | _ | _ | _) | _
  · cases e <;> constructor <;> simp [adapterResult, endOf]
  all_goals constructor <;> simp [adapterResult, endOf]

theorem endsAs_exhausted (message message' : String) :
    EndsAs (.error (.backendConnection message)) (.failed (.transport message')) := by
  constructor <;> simp

/-- One turn of the loop: another one follows only after a transport failure without output. -/
theorem attemptLoop_succ (payload : Dict String Json) (remaining i : Nat)
    (lastError : Option String) :
    (∃ message, (runAttempt loads (script i)).result = .error (.http (.transport message)) ∧
      (runAttempt loads (script i)).receivedAny = false ∧
      attemptLoop loads script payload (remaining + 1) i lastError =
        let rest := attemptLoop loads script payload remaining (i + 1) (some message)
        ⟨payload :: rest.posts, (runAttempt loads (script i)).yielded ++ rest.yielded,
          rest.result⟩) ∨
    attemptLoop loads script payload (remaining + 1) i lastError =
      ⟨[payload], (runAttempt loads (script i)).yielded,
        adapterResult (runAttempt loads (script i)).result⟩ := by
  simp only [attemptLoop]
  generalize runAttempt loads (script i) = run
  rcases run with ⟨yielded, receivedAny, result⟩
  rcases result with (e | _ | _ | _) | _
  · cases e with
    | timeout message =>
      -- a timeout is reported at once
      exact Or.inr rfl
    | transport message =>
      cases receivedAny with
      | true =>
        -- after the first chunk a lost connection is not retried
        exact Or.inr rfl
      | false => exact Or.inl ⟨message, rfl, rfl, rfl⟩
    | other => exact Or.inr rfl
  all_goals exact Or.inr rfl

/-- A turn that ends the generator. -/
theorem OfAttempt.first (payload : Dict String Json) (maxRetries : Nat) (i : Nat) :
    OfAttempt loads (fun j => script (i + j)) maxRetries payload
      ⟨[payload], (runAttempt loads (script i)).yielded,
        adapterResult (runAttempt loads (script i)).result⟩ 0 := by
  rcases runAttempt_spec loads (script i) with ⟨hyielded, hended, _⟩
  refine ⟨Nat.zero_le _, rfl, hyielded, fun j hj => absurd hj (Nat.not_lt_zero j), ?_⟩
  show EndsAs _ ((script i).ended loads)
  rw [← hended]
  exact endsAs_adapterResult _

/-- A turn that failed without output, and those after it. -/
theorem OfAttempt.later {payload : Dict String Json} {maxRetries i last : Nat}
    {rest : Generation} (message : String)
    (hended : (script i).ended loads = .failed (.transport message))
    (hchunks : (script i).chunks loads = [])
    (h : OfAttempt loads (fun j => script (i + 1 + j)) maxRetries payload rest last) :
    OfAttempt loads (fun j => script (i + j)) (maxRetries + 1) payload
      ⟨payload :: rest.posts, rest.yielded, rest.result⟩ (last + 1) := by
  have hlast : i + (last + 1) = i + 1 + last := by omega
  refine ⟨Nat.succ_le_succ h.bounded, ?_, ?_, ?_, ?_⟩
  · show payload :: rest.posts = _
    rw [h.posts]
    rfl
  · show rest.yielded = (script (i + (last + 1))).chunks loads
    rw [hlast]
    exact h.yielded
  · -- the attempts before the last: this one, and those of the rest
    intro j hj
    cases j with
    | zero => exact ⟨⟨message, hended⟩, hchunks⟩
    | succ j =>
      have hnext : i + (j + 1) = i + 1 + j := by omega
      show (∃ message, (script (i + (j + 1))).ended loads = _) ∧ _
      rw [hnext]
      exact h.earlier j (Nat.lt_of_succ_lt_succ hj)
  · show EndsAs rest.result ((script (i + (last + 1))).ended loads)
    rw [hlast]
    exact h.ends

variable (loads script) in
/-- The loop from its turn `i` on, by induction on the turns that are left. -/
theorem attemptLoop_spec (payload : Dict String Json) (remaining i : Nat)
    (lastError : Option String) :
    ∃ last, OfAttempt loads (fun j => script (i + j)) remaining payload
      (attemptLoop loads script payload (remaining + 1) i lastError) last := by
  induction remaining generalizing i lastError with
  | zero =>
    rcases attemptLoop_succ payload 0 i lastError with ⟨message, hresult, hsilent, hloop⟩ | hloop
    · -- no turn is left: the failure of this one is reported
      rcases runAttempt_spec loads (script i) with ⟨hyielded, hended, hempty⟩
      rw [hloop]
      refine ⟨0, Nat.le_refl 0, rfl, ?_, fun j hj => absurd hj (Nat.not_lt_zero j), ?_⟩
      · show (runAttempt loads (script i)).yielded ++ [] = _
        rw [List.append_nil]
        exact hyielded
      · rw [hresult] at hended
        show EndsAs (.error (.backendConnection message)) ((script i).ended loads)
        rw [← hended]
        exact endsAs_exhausted message message
    · rw [hloop]
      exact ⟨0, .first payload 0 i⟩
  | succ remaining ih =>
    rcases attemptLoop_succ payload (remaining + 1) i lastError with
      ⟨message, hresult, hsilent, hloop⟩ | hloop
    · -- a silent failure: the rest of the loop decides, and nothing has been yielded yet
      rcases runAttempt_spec loads (script i) with ⟨hyielded, hended, hempty⟩
      rw [hresult] at hended
      rcases ih (i + 1) (some message) with ⟨last, hlast⟩
      rw [hloop]
      simp only [hempty hsilent, List.nil_append]
      refine ⟨last + 1, .later message hended.symm ?_ hlast⟩
      rw [← hyielded, hempty hsilent]
    · rw [hloop]
      exact ⟨0, .first payload _ i⟩

theorem toLmstudioPayload_model (request : InferenceRequest) (model : String) :
    (toLmstudioPayload request model).get? "model" = some (.str model) := by
  simp [toLmstudioPayload, streamFields, InferenceRequest.union, Dict.get?_set]

@[simp] theorem LMStudio.resolveModel_maxRetries (backend : LMStudio) (model : String) :
    (backend.resolveModel model).2.maxRetries = backend.maxRetries := by
  unfold LMStudio.resolveModel
  split <;> rfl

/-- What either adapter yields is the output of one attempt, the last of at most `maxRetries + 1`
with the same payload; the attempts before it failed in transport without output, and the
generator ends as the last one did. -/
theorem retries_keep_output (loads : String → Option Json) (script : Nat → Attempt)
    (lmstudio : LMStudio) (llamaserver : LlamaCPPServer) (request : InferenceRequest) :
    (let identifier := (lmstudio.resolveModel request.body.model).1
      let payload := toLmstudioPayload request identifier
      payload.get? "model" = some (.str identifier) ∧
        ∃ last, OfAttempt loads script lmstudio.maxRetries payload
          (lmstudio.streamChunks loads script request).1 last) ∧
    ∃ last, OfAttempt loads script llamaserver.maxRetries (toLlamaserverPayload request)
      (llamaserver.streamChunks loads script request) last := by
  have hscript : (fun j => script (0 + j)) = script := by
    funext j
    rw [Nat.zero_add]
  refine ⟨⟨toLmstudioPayload_model request _, ?_⟩, ?_⟩
  · have hloop := attemptLoop_spec loads script
      (toLmstudioPayload request (lmstudio.resolveModel request.body.model).1)
      (lmstudio.resolveModel request.body.model).2.maxRetries 0 none
    rw [hscript] at hloop
    rw [← LMStudio.resolveModel_maxRetries lmstudio request.body.model]
    exact hloop
  · have hloop := attemptLoop_spec loads script (toLlamaserverPayload request)
      llamaserver.maxRetries 0 none
    rwa [hscript] at hloop

-- a refused connection, then a stream: two POSTs
example :
    let script : Nat → Attempt := fun i =>
      if i = 0 then .error (.transport "refused")
      else .ok { statusCode := 200, lines := ["data: [DONE]"] }
    let generation := LlamaCPPServer.streamChunks (fun _ => none) script ⟨2⟩
      { body := { model := "llama", messages := [] } }
    generation.posts.length = 2 ∧ generation.result = .ok () := by
  exact ⟨rfl, rfl⟩

end

end LlmHomeLab
