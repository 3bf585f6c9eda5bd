import LlmHomeLab.Lib.Json

/-! # The streaming adapters

`backends/llamaserver.py` and `backends/lmstudio.py` turn the chunk objects of a
chat-completion stream into `BackendChunk`s, and `complete()` folds those into one answer.
The two adapters differ in the request they send; what they do with a chunk object is the
same code, `parseChunk` here.
-/

namespace LlmHomeLab

/-- `backends/base.py`. The fields hold what the chunk object held: `content` is a string
only if the backend sent one. -/
structure BackendChunk where
  content : Json
  finishReason : Json
  usage : Json

structure BackendResponse where
  model : String
  content : String
  finishReason : Json
  promptTokens : Json
  completionTokens : Json

/-- The body of the adapters' loop for one parsed `data:` line: the chunk it yields, if any. -/
def parseChunk (parsed : Json) : Except PyError (Option BackendChunk) := do
  let choices ← parsed.get "choices" .null
  let chunkUsage ← parsed.get "usage" .null
  if choices.truthy then
    let choice ← choices.first
    let delta ← choice.item "delta"
    let content ← delta.get "content" (.str "")
    let finishReason ← choice.get "finish_reason" .null
    return some ⟨content, finishReason, chunkUsage⟩
  else if chunkUsage.isNull then
    return none
  else
    return some ⟨.str "", .null, chunkUsage⟩

/-- The chunks yielded for a sequence of objects, and the exception that ended them, if one
did. -/
def yieldChunks : List Json → List BackendChunk × Option PyError
  | [] => ([], none)
  | parsed :: rest =>
    match parseChunk parsed with
    | .error e => ([], some e)
    | .ok none => yieldChunks rest
    | .ok (some chunk) => (chunk :: (yieldChunks rest).1, (yieldChunks rest).2)

/-- What `complete()` has gathered so far. -/
structure Collected where
  contentParts : List Json := []
  finishReason : Json := .str "stop"
  usage : Json := .null

def Collected.add (acc : Collected) (chunk : BackendChunk) : Collected where
  contentParts :=
    if chunk.content.truthy then acc.contentParts ++ [chunk.content] else acc.contentParts
  finishReason := if chunk.finishReason.isNull then acc.finishReason else chunk.finishReason
  usage := if chunk.usage.isNull then acc.usage else chunk.usage

/-- Reported when the backend never sent a usage object. -/
def zeroUsage : Json := .obj [("prompt_tokens", .num 0), ("completion_tokens", .num 0)]

def collectChunks (model : String) (objects : List Json) : Except PyError BackendResponse :=
  match yieldChunks objects with
  | (_, some e) => .error e
  | (chunks, none) => do
    let acc := chunks.foldl Collected.add {}
    let usage := if acc.usage.isNull then zeroUsage else acc.usage
    let content ← Json.join acc.contentParts
    let promptTokens ← usage.item "prompt_tokens"
    let completionTokens ← usage.item "completion_tokens"
    return ⟨model, content, acc.finishReason, promptTokens, completionTokens⟩

/-- The two adapter classes. -/
inductive Adapter where
  | llamaserver
  | lmstudio
deriving DecidableEq, Repr

namespace LlamaCPPServerBackend

def streamChunks (objects : List Json) : List BackendChunk × Option PyError := yieldChunks objects

def complete (model : String) (objects : List Json) : Except PyError BackendResponse :=
  collectChunks model objects

end LlamaCPPServerBackend

namespace LMStudioBackend

def streamChunks (objects : List Json) : List BackendChunk × Option PyError := yieldChunks objects

def complete (model : String) (objects : List Json) : Except PyError BackendResponse :=
  collectChunks model objects

end LMStudioBackend

def Adapter.streamChunks : Adapter → List Json → List BackendChunk × Option PyError
  | .llamaserver => LlamaCPPServerBackend.streamChunks
  | .lmstudio => LMStudioBackend.streamChunks

def Adapter.complete : Adapter → String → List Json → Except PyError BackendResponse
  | .llamaserver => LlamaCPPServerBackend.complete
  | .lmstudio => LMStudioBackend.complete

@[simp] theorem Adapter.streamChunks_eq (a : Adapter) : a.streamChunks = yieldChunks := by
  cases a <;> rfl

@[simp] theorem Adapter.complete_eq (a : Adapter) : a.complete = collectChunks := by
  cases a <;> rfl

/-! ## Chunk objects -/

/-- The choice an adapter looks at. -/
def firstChoice (parsed : Json) : Option Json :=
  match parsed.field? "choices" with
  | some (.arr (choice :: _)) => some choice
  | _ => none

/-- `delta.content` of that choice, if it is there. -/
def deltaContent (choice : Json) : Option Json := (choice.field? "delta").bind (·.field? "content")

/-- `finish_reason` of the choice looked at; `null` where there is none. -/
def finishReasonOf (parsed : Json) : Json :=
  ((firstChoice parsed).bind (·.field? "finish_reason")).getD .null

def usageOf (parsed : Json) : Json := (parsed.field? "usage").getD .null

/-- The content is a string, absent or JSON null. -/
def ContentShape (parsed : Json) : Prop :=
  ∀ choice content, firstChoice parsed = some choice → deltaContent choice = some content →
    content = .null ∨ content.isStr = true

def NullContent (parsed : Json) : Prop :=
  ∃ choice, firstChoice parsed = some choice ∧ deltaContent choice = some .null

/-- What an object that parses turns into. -/
theorem parseChunk_ok {parsed : Json} {res : Option BackendChunk}
    (h : parseChunk parsed = .ok res) :
    (∃ choice, firstChoice parsed = some choice ∧
      res = some ⟨(deltaContent choice).getD (.str ""), finishReasonOf parsed, usageOf parsed⟩) ∨
    (firstChoice parsed = none ∧ (usageOf parsed).isNull = false ∧
      res = some ⟨.str "", .null, usageOf parsed⟩) ∨
    (firstChoice parsed = none ∧ (usageOf parsed).isNull = true ∧ res = none) := by
  obtain ⟨choices, hchoices, h⟩ := Json.except_bind_ok h
  obtain ⟨usage, husage, h⟩ := Json.except_bind_ok h
  have hch : choices = (parsed.field? "choices").getD .null := Json.get_ok hchoices
  have hus : usage = usageOf parsed := Json.get_ok husage
  split at h
  · next htruthy =>
    obtain ⟨choice, hchoice, h⟩ := Json.except_bind_ok h
    obtain ⟨delta, hdelta, h⟩ := Json.except_bind_ok h
    obtain ⟨content, hcontent, h⟩ := Json.except_bind_ok h
    obtain ⟨finishReason, hfinish, h⟩ := Json.except_bind_ok h
    have hdelta' := Json.item_ok hdelta
    -- only a list of choices has a first element that is an object
    obtain ⟨rest, harr⟩ : ∃ rest, choices = .arr (choice :: rest) := by
      rcases Json.first_ok hchoice with harr | hstr
      · exact harr
      · cases choice <;> simp_all [Json.isStr, Json.field?]
    have hfirst : firstChoice parsed = some choice := by
      cases hf : parsed.field? "choices" with
      | none => simp [hf, harr] at hch
      | some v =>
        rw [hf, Option.getD_some, harr] at hch
        simp [firstChoice, hf, ← hch]
    left
    refine ⟨choice, hfirst, ?_⟩
    have hc : content = (deltaContent choice).getD (.str "") := by
      rw [Json.get_ok hcontent, deltaContent, hdelta', Option.bind_some]
    have hf : finishReason = finishReasonOf parsed := by
      rw [Json.get_ok hfinish, finishReasonOf, hfirst, Option.bind_some]
    rw [hc, hf, hus] at h
    exact (Except.ok.inj h).symm
  · next htruthy =>
    have hfirst : firstChoice parsed = none := by
      cases hf : firstChoice parsed with
      | none => rfl
      | some choice =>
        unfold firstChoice at hf
        split at hf
        · next hfield => simp [hch, hfield, Json.truthy] at htruthy
        · cases hf
    right
    subst hus
    split at h
    · next hnull => exact Or.inr ⟨hfirst, hnull, (Except.ok.inj h).symm⟩
    · next hnull => exact Or.inl ⟨hfirst, by simpa using hnull, (Except.ok.inj h).symm⟩

end LlmHomeLab
