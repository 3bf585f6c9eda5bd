import LlmHomeLab.Backends.Adapters

/-! # Streamed and collected answers

`_stream_chunks` of `api/app.py` forwards the chunks of an adapter to the client as they
come, keeping track of usage, content and finish reason for the accounting that follows the
last chunk. `complete()` folds the same chunks into one answer. `stream_agrees_iff` compares
the two on every sequence of chunk objects that `complete()` accepts.
-/

namespace LlmHomeLab

/-! ## Model -/

/-- The payload of one forwarded `data:` event; `object`, the choice's `index` and the
delta's `role` are constants. -/
structure ChunkPayload where
  id : String
  created : Int
  model : String
  content : Json
  finishReason : Json

/-- The variables of `_stream_chunks` between two chunks. -/
structure StreamState where
  usage : Json := .null
  sawContent : Bool := false
  lastFinishReason : Json := .null
  forwarded : List ChunkPayload := []

/-- What identifies the answer in every payload. -/
structure StreamHead where
  completionId : String
  created : Int
  model : String

/-- The body of `async for chunk in chunks`. -/
def StreamState.take (head : StreamHead) (st : StreamState) (chunk : BackendChunk) :
    Except PyError StreamState := do
  let usage := if chunk.usage.isNull then st.usage else chunk.usage
  let hasText ← chunk.content.stripped
  let lastFinishReason :=
    if chunk.finishReason.isNull then st.lastFinishReason else chunk.finishReason
  -- a usage-only chunk is consumed for the accounting and not forwarded
  let forwarded :=
    if !chunk.content.truthy && chunk.finishReason.isNull then st.forwarded
    else st.forwarded ++
      [⟨head.completionId, head.created, head.model, chunk.content, chunk.finishReason⟩]
  return ⟨usage, st.sawContent || hasText, lastFinishReason, forwarded⟩

def StreamState.takeAll (head : StreamHead) (st : StreamState) :
    List BackendChunk → StreamState × Option PyError
  | [] => (st, none)
  | chunk :: rest =>
    match st.take head chunk with
    | .error e => (st, some e)
    | .ok st' => st'.takeAll head rest

/-- `_token_usage_total[host_id] += prompt_tokens + completion_tokens`, as far as it can
raise. -/
def recordTokenUsage (promptTokens completionTokens : Json) : Except PyError Unit :=
  if promptTokens.numeric && completionTokens.numeric then .ok () else .error .typeError

/-- What the accounting after the last chunk records. -/
structure Accounting where
  tokenUsage : Option (Json × Json)
  hostCompletion : Bool
  completionLogged : Bool
  healthy : Bool

def StreamState.isHealthyCompletion (st : StreamState) : Bool :=
  st.sawContent &&
    match st.lastFinishReason with
    | .str s => s = "stop"
    | _ => false

def StreamState.account (st : StreamState) : Except PyError Accounting :=
  let healthy := st.isHealthyCompletion
  if st.usage.isNull then .ok ⟨none, false, healthy, healthy⟩
  else do
    let promptTokens ← st.usage.item "prompt_tokens"
    let completionTokens ← st.usage.item "completion_tokens"
    recordTokenUsage promptTokens completionTokens
    return ⟨some (promptTokens, completionTokens), healthy, healthy, healthy⟩

/-- The payloads forwarded, and how the stream ended: `.ok` is the final `[DONE]`. -/
structure StreamRun where
  forwarded : List ChunkPayload
  outcome : Except PyError Accounting

def streamChunks (adapter : Adapter) (head : StreamHead) (objects : List Json) : StreamRun :=
  let (chunks, failure) := adapter.streamChunks objects
  match StreamState.takeAll head {} chunks with
  | (st, some e) => ⟨st.forwarded, .error e⟩
  | (st, none) =>
    match failure with
    | some e => ⟨st.forwarded, .error e⟩
    | none => ⟨st.forwarded, st.account⟩

/-! ## The chunks of an accepted sequence -/

/-- Every object of a sequence without failure parses, and yields its chunk or nothing. -/
theorem mem_yieldChunks {objects : List Json} (h : (yieldChunks objects).2 = none)
    {chunk : BackendChunk} :
    chunk ∈ (yieldChunks objects).1 ↔ ∃ o ∈ objects, parseChunk o = .ok (some chunk) := by
  induction objects with
  | nil => simp [yieldChunks]
  | cons o rest ih =>
    cases hp : parseChunk o with
    | error e => simp [yieldChunks, hp] at h
    | ok res =>
      cases res with
      | none =>
        simp only [yieldChunks, hp] at h ⊢
        simp [ih h, hp]
      | some c =>
        simp only [yieldChunks, hp] at h ⊢
        simp [ih h, hp, eq_comm]

theorem parses_of_yieldChunks {objects : List Json} (h : (yieldChunks objects).2 = none) :
    ∀ o ∈ objects, ∃ res, parseChunk o = .ok res := by
  induction objects with
  | nil => simp
  | cons o rest ih =>
    cases hp : parseChunk o with
    | error e => simp [yieldChunks, hp] at h
    | ok res =>
      have hrest : (yieldChunks rest).2 = none := by
        cases res <;> simpa [yieldChunks, hp] using h
      intro x hx
      rcases List.mem_cons.mp hx with rfl | hx
      · exact ⟨res, hp⟩
      · exact ih hrest x hx

/-- The usages of the chunks are those of the objects, up to `null`s. -/
theorem lastUsage_yieldChunks {objects : List Json} (h : (yieldChunks objects).2 = none)
    (init : Json) :
    Json.lastNonNull init ((yieldChunks objects).1.map (·.usage)) =
      Json.lastNonNull init (objects.map usageOf) := by
  induction objects generalizing init with
  | nil => rfl
  | cons o rest ih =>
    cases hp : parseChunk o with
    | error e => simp [yieldChunks, hp] at h
    | ok res =>
      rcases parseChunk_ok hp with ⟨choice, _, rfl⟩ | ⟨_, _, rfl⟩ | ⟨_, hnull, rfl⟩
      · simp only [yieldChunks, hp] at h ⊢
        simp only [List.map_cons, Json.lastNonNull_cons]
        exact ih h _
      · simp only [yieldChunks, hp] at h ⊢
        simp only [List.map_cons, Json.lastNonNull_cons]
        exact ih h _
      · simp only [yieldChunks, hp] at h ⊢
        simp only [List.map_cons, Json.lastNonNull_cons, hnull, if_true]
        exact ih h _

/-! ## The two folds in closed form -/

theorem foldl_add (chunks : List BackendChunk) (acc : Collected) :
    chunks.foldl Collected.add acc =
      ⟨acc.contentParts ++ (chunks.filter (·.content.truthy)).map (·.content),
        Json.lastNonNull acc.finishReason (chunks.map (·.finishReason)),
        Json.lastNonNull acc.usage (chunks.map (·.usage))⟩ := by
  induction chunks generalizing acc with
  | nil => simp
  | cons chunk rest ih =>
    rw [List.foldl_cons, ih]
    cases ht : chunk.content.truthy <;> simp [Collected.add, Json.lastNonNull_cons, ht]

/-- A chunk is forwarded unless it has neither content nor a finish reason. -/
def BackendChunk.isForwarded (chunk : BackendChunk) : Bool :=
  chunk.content.truthy || !chunk.finishReason.isNull

def BackendChunk.payload (head : StreamHead) (chunk : BackendChunk) : ChunkPayload :=
  ⟨head.completionId, head.created, head.model, chunk.content, chunk.finishReason⟩

@[simp] theorem BackendChunk.payload_finishReason (head : StreamHead) (chunk : BackendChunk) :
    (chunk.payload head).finishReason = chunk.finishReason := rfl

theorem take_ok {head : StreamHead} {st st' : StreamState} {chunk : BackendChunk}
    (h : st.take head chunk = .ok st') :
    chunk.content.isStr = true ∧
      st'.usage = (if chunk.usage.isNull then st.usage else chunk.usage) ∧
      st'.lastFinishReason =
        (if chunk.finishReason.isNull then st.lastFinishReason else chunk.finishReason) ∧
      st'.forwarded =
        st.forwarded ++ (if chunk.isForwarded then [chunk.payload head] else []) := by
  obtain ⟨b, hb, h⟩ := Json.except_bind_ok h
  cases h
  refine ⟨Json.stripped_ok hb, rfl, rfl, ?_⟩
  cases ht : chunk.content.truthy <;> cases hn : chunk.finishReason.isNull <;>
    simp [BackendChunk.isForwarded, BackendChunk.payload, ht, hn]

theorem take_of_isStr (head : StreamHead) (st : StreamState) {chunk : BackendChunk}
    (h : chunk.content.isStr = true) : ∃ st', st.take head chunk = .ok st' := by
  cases hc : chunk.content with
  | str s => exact ⟨_, by simp only [StreamState.take, hc, Json.stripped]; rfl⟩
  | _ => simp [hc, Json.isStr] at h

/-- A stream that is consumed to its end has string contents only, and leaves these values. -/
theorem takeAll_ok {head : StreamHead} {st st' : StreamState} {chunks : List BackendChunk}
    (h : st.takeAll head chunks = (st', none)) :
    (∀ chunk ∈ chunks, chunk.content.isStr = true) ∧
      st'.usage = Json.lastNonNull st.usage (chunks.map (·.usage)) ∧
      st'.lastFinishReason =
        Json.lastNonNull st.lastFinishReason (chunks.map (·.finishReason)) ∧
      st'.forwarded =
        st.forwarded ++ (chunks.filter (·.isForwarded)).map (·.payload head) := by
  induction chunks generalizing st with
  | nil =>
    cases h
    simp
  | cons chunk rest ih =>
    cases ht : st.take head chunk with
    | error e => simp [StreamState.takeAll, ht] at h
    | ok st₁ =>
      simp only [StreamState.takeAll, ht] at h
      obtain ⟨hstr, hu, hf, hfw⟩ := take_ok ht
      obtain ⟨hall, hu', hf', hfw'⟩ := ih h
      refine ⟨?_, ?_, ?_, ?_⟩
      · simpa [hstr] using hall
      · simp only [List.map_cons, Json.lastNonNull_cons, hu', hu]
      · simp only [List.map_cons, Json.lastNonNull_cons, hf', hf]
      · cases hp : chunk.isForwarded <;> simp [hfw', hfw, hp]

theorem takeAll_of_isStr (head : StreamHead) (st : StreamState) {chunks : List BackendChunk}
    (h : ∀ chunk ∈ chunks, chunk.content.isStr = true) :
    ∃ st', st.takeAll head chunks = (st', none) := by
  induction chunks generalizing st with
  | nil => exact ⟨st, rfl⟩
  | cons chunk rest ih =>
    obtain ⟨st₁, h₁⟩ := take_of_isStr head st (h chunk List.mem_cons_self)
    obtain ⟨st', h'⟩ := ih st₁ fun c hc => h c (List.mem_cons_of_mem _ hc)
    exact ⟨st', by simp only [StreamState.takeAll, h₁, h']⟩

/-! ## Agreement -/

/-- The stream reaches `[DONE]`, the forwarded contents join to the collected content, and
the last non-null finish reason forwarded is the collected one. -/
structure Agrees (run : StreamRun) (response : BackendResponse) : Prop where
  done : ∃ accounting, run.outcome = .ok accounting
  content : String.join (run.forwarded.map fun p => p.content.text) = response.content
  finishReason :
    ((run.forwarded.map (·.finishReason)).filter fun v => !v.isNull).getLast? =
      some response.finishReason

/-- The last usage object that is not null, if there is one, counts tokens in numbers. -/
def UsageCounts (objects : List Json) : Prop :=
  let usage := Json.lastNonNull .null (objects.map usageOf)
  usage.isNull = true ∨ ∃ p c, usage.field? "prompt_tokens" = some p ∧
    usage.field? "completion_tokens" = some c ∧ p.numeric = true ∧ c.numeric = true

/-- What `complete()` returns when it accepts a sequence. -/
theorem collectChunks_ok {model : String} {objects : List Json} {response : BackendResponse}
    (h : collectChunks model objects = .ok response) :
    ∃ chunks, yieldChunks objects = (chunks, none) ∧
      response.content = String.join (chunks.map fun c => c.content.text) ∧
      response.finishReason =
        Json.lastNonNull (.str "stop") (chunks.map (·.finishReason)) := by
  unfold collectChunks at h
  split at h
  · cases h
  · next chunks hy =>
    refine ⟨chunks, hy, ?_⟩
    -- the parts of the response are read one after the other
    obtain ⟨content, hcontent, h⟩ := Json.except_bind_ok h
    obtain ⟨p, _, h⟩ := Json.except_bind_ok h
    obtain ⟨c, _, h⟩ := Json.except_bind_ok h
    cases h
    rw [foldl_add] at hcontent
    constructor
    · have hjoin := Json.join_ok hcontent
      rw [hjoin, List.nil_append, List.map_map]
      refine Json.join_filter (fun c : BackendChunk => c.content) (·.content.truthy) chunks ?_
      intro c _ hc
      exact Json.text_of_not_truthy hc
    · rw [foldl_add]

theorem account_ok_iff (st : StreamState) :
    (∃ accounting, st.account = .ok accounting) ↔
      (st.usage.isNull = true ∨ ∃ p c, st.usage.field? "prompt_tokens" = some p ∧
        st.usage.field? "completion_tokens" = some c ∧ p.numeric = true ∧ c.numeric = true) := by
  constructor
  · rintro ⟨accounting, h⟩
    unfold StreamState.account at h
    split at h
    · next hnull =>
      -- without a usage nothing is recorded
      exact Or.inl hnull
    · right
      obtain ⟨p, hp, h⟩ := Json.except_bind_ok h
      obtain ⟨c, hc, h⟩ := Json.except_bind_ok h
      obtain ⟨_, hrec, _⟩ := Json.except_bind_ok h
      refine ⟨p, c, Json.item_ok hp, Json.item_ok hc, ?_⟩
      unfold recordTokenUsage at hrec
      split at hrec
      · next hnum => simpa using hnum
      · cases hrec
  · -- with both counters numeric every read goes through
    rintro (hnull | ⟨p, c, hp, hc, hnp, hnc⟩)
    · exact ⟨_, if_pos hnull⟩
    · cases hu : st.usage with
      | obj fields =>
        rw [hu] at hp hc
        have hp' : st.usage.item "prompt_tokens" = .ok p := by simp [hu, Json.item, hp]
        have hc' : st.usage.item "completion_tokens" = .ok c := by simp [hu, Json.item, hc]
        have hrec : recordTokenUsage p c = .ok () := by simp [recordTokenUsage, hnp, hnc]
        let healthy := st.isHealthyCompletion
        refine ⟨⟨some (p, c), healthy, healthy, healthy⟩, ?_⟩
        rw [StreamState.account, if_neg (by simp [hu, Json.isNull]), hp', hc']
        simp only [bind, Except.bind, hrec]
        rfl
      | _ => simp [hu, Json.field?] at hp

/-- Content of the right shape is a string unless it is null. -/
theorem content_isStr_iff {o : Json} {chunk : BackendChunk} (hshape : ContentShape o)
    (h : parseChunk o = .ok (some chunk)) : chunk.content.isStr = true ↔ ¬ NullContent o := by
  rcases parseChunk_ok h with ⟨choice, hfirst, hc⟩ | ⟨hfirst, _, hc⟩ | ⟨_, _, hc⟩ <;> cases hc
  · -- a chunk with a choice: the content is the one of its delta
    cases hd : deltaContent choice with
    | none =>
      refine ⟨fun _ => ?_, fun _ => rfl⟩
      rintro ⟨c, hc, hnull⟩
      rw [hfirst] at hc
      cases hc
      simp [hd] at hnull
    | some content =>
      rcases hshape choice content hfirst hd with rfl | hstr
      · exact ⟨fun h => by simp [Json.isStr] at h, fun h => absurd ⟨choice, hfirst, hd⟩ h⟩
      · refine ⟨fun _ => ?_, fun _ => hstr⟩
        rintro ⟨c, hc, hnull⟩
        rw [hfirst] at hc
        cases hc
        rw [hd] at hnull
        cases hnull
        simp [Json.isStr] at hstr
  · -- a chunk without a choice has the content `""`
    refine ⟨fun _ => ?_, fun _ => rfl⟩
    rintro ⟨c, hc, _⟩
    simp [hfirst] at hc

/-- A stream ends in `[DONE]` exactly if every content is a string and the usage, if any,
counts tokens; what it has forwarded is then known. -/
theorem streamChunks_done_iff (adapter : Adapter) (head : StreamHead) {objects : List Json}
    {chunks : List BackendChunk} (hy : yieldChunks objects = (chunks, none)) :
    (∃ accounting, (streamChunks adapter head objects).outcome = .ok accounting) ↔
      (∀ chunk ∈ chunks, chunk.content.isStr = true) ∧ UsageCounts objects := by
  -- only objects that were parsed count, and the others have no usage
  have husage : Json.lastNonNull .null (chunks.map (·.usage)) =
      Json.lastNonNull .null (objects.map usageOf) := by
    have hnone : (yieldChunks objects).2 = none := by rw [hy]
    have hlast := lastUsage_yieldChunks hnone .null
    rwa [hy] at hlast
  simp only [streamChunks, Adapter.streamChunks_eq, hy]
  constructor
  · rintro ⟨accounting, h⟩
    cases ht : StreamState.takeAll head {} chunks with
    | mk st failure =>
      rw [ht] at h
      cases failure with
      | some e => cases h
      | none =>
        obtain ⟨hall, hu, _, _⟩ := takeAll_ok ht
        refine ⟨hall, ?_⟩
        have := (account_ok_iff st).mp ⟨accounting, h⟩
        rwa [hu, husage] at this
  · rintro ⟨hall, hcounts⟩
    obtain ⟨st, ht⟩ := takeAll_of_isStr head {} hall
    obtain ⟨_, hu, _, _⟩ := takeAll_ok ht
    rw [ht]
    refine (account_ok_iff st).mpr ?_
    rw [hu, husage]
    exact hcounts

theorem streamChunks_forwarded (adapter : Adapter) (head : StreamHead) {objects : List Json}
    {chunks : List BackendChunk} (hy : yieldChunks objects = (chunks, none))
    (hall : ∀ chunk ∈ chunks, chunk.content.isStr = true) :
    (streamChunks adapter head objects).forwarded =
      (chunks.filter (·.isForwarded)).map (·.payload head) := by
  obtain ⟨st, ht⟩ := takeAll_of_isStr head {} hall
  obtain ⟨_, _, _, hfw⟩ := takeAll_ok ht
  simp only [streamChunks, Adapter.streamChunks_eq, hy, ht]
  simpa using hfw

/-- Chunks that are not forwarded have no finish reason. -/
theorem forwarded_finishReasons (head : StreamHead) (chunks : List BackendChunk) :
    (((chunks.filter (·.isForwarded)).map (·.payload head)).map (·.finishReason)).filter
        (fun v => !v.isNull) =
      (chunks.map (·.finishReason)).filter fun v => !v.isNull := by
  induction chunks with
  | nil => rfl
  | cons chunk rest ih =>
    cases hf : chunk.isForwarded with
    | true =>
      simp only [List.filter_cons, hf, if_true, List.map_cons, ih,
        BackendChunk.payload_finishReason]
    | false =>
      have hnull : chunk.finishReason.isNull = true := by
        simp only [BackendChunk.isForwarded, Bool.or_eq_false_iff] at hf
        simpa using hf.2
      rw [List.filter_cons_of_neg (by simp [hf]), ih, List.map_cons,
        List.filter_cons_of_neg (by simp [hnull])]

/-- The forwarded contents join to the text of all chunks. -/
theorem forwarded_text (head : StreamHead) (chunks : List BackendChunk) :
    String.join (((chunks.filter (·.isForwarded)).map (·.payload head)).map
        fun p => p.content.text) =
      String.join (chunks.map fun c => c.content.text) := by
  rw [List.map_map]
  refine Json.join_filter (fun c : BackendChunk => c.content) (·.isForwarded) chunks ?_
  intro c _ hc
  simp only [BackendChunk.isForwarded, Bool.or_eq_false_iff] at hc
  exact Json.text_of_not_truthy hc.1

theorem mem_chunks_iff {objects : List Json} {chunks : List BackendChunk} {chunk : BackendChunk}
    (hy : yieldChunks objects = (chunks, none)) :
    chunk ∈ chunks ↔ ∃ o ∈ objects, parseChunk o = .ok (some chunk) := by
  have hnone : (yieldChunks objects).2 = none := by rw [hy]
  have hmem : chunk ∈ (yieldChunks objects).1 ↔ _ := mem_yieldChunks hnone
  rwa [hy] at hmem

theorem finishReasons_iff {objects : List Json} {chunks : List BackendChunk}
    (hy : yieldChunks objects = (chunks, none)) :
    (∃ chunk ∈ chunks, chunk.finishReason.isNull = false) ↔
      ∃ o ∈ objects, (finishReasonOf o).isNull = false := by
  have hnone : (yieldChunks objects).2 = none := by rw [hy]
  constructor
  · rintro ⟨chunk, hc, hfr⟩
    obtain ⟨o, ho, hp⟩ := (mem_chunks_iff hy).mp hc
    refine ⟨o, ho, ?_⟩
    rcases parseChunk_ok hp with ⟨choice, _, heq⟩ | ⟨_, _, heq⟩ | ⟨_, _, heq⟩
    · cases heq
      exact hfr
    · cases heq
      simp [Json.isNull] at hfr
    · cases heq
  · rintro ⟨o, ho, hfr⟩
    obtain ⟨res, hp⟩ := parses_of_yieldChunks hnone o ho
    -- a finish reason is read off a choice, so the object yields a chunk
    rcases parseChunk_ok hp with ⟨choice, _, rfl⟩ | ⟨hfirst, _, _⟩ | ⟨hfirst, _, _⟩
    · exact ⟨_, (mem_chunks_iff hy).mpr ⟨o, ho, hp⟩, hfr⟩
    · simp [finishReasonOf, hfirst, Json.isNull] at hfr
    · simp [finishReasonOf, hfirst, Json.isNull] at hfr

theorem contents_isStr_iff {objects : List Json} {chunks : List BackendChunk}
    (hy : yieldChunks objects = (chunks, none)) (hshape : ∀ o ∈ objects, ContentShape o) :
    (∀ chunk ∈ chunks, chunk.content.isStr = true) ↔ ∀ o ∈ objects, ¬ NullContent o := by
  have hnone : (yieldChunks objects).2 = none := by rw [hy]
  constructor
  · intro hall o ho
    obtain ⟨res, hp⟩ := parses_of_yieldChunks hnone o ho
    cases res with
    | some chunk =>
      exact (content_isStr_iff (hshape o ho) hp).mp (hall chunk ((mem_chunks_iff hy).mpr ⟨o, ho, hp⟩))
    | none =>
      -- an object that yields no chunk has no choice
      rcases parseChunk_ok hp with ⟨_, _, heq⟩ | ⟨_, _, heq⟩ | ⟨hfirst, _, _⟩
      · cases heq
      · cases heq
      · rintro ⟨choice, hchoice, _⟩
        simp [hfirst] at hchoice
  · intro hnull chunk hc
    obtain ⟨o, ho, hp⟩ := (mem_chunks_iff hy).mp hc
    exact (content_isStr_iff (hshape o ho) hp).mpr (hnull o ho)

/-- A chunk object with one choice. -/
def chunkObject (delta : List (String × Json)) (finishReason : Json) : Json :=
  .obj [("choices", .arr [.obj [("delta", .obj delta), ("finish_reason", finishReason)]])]

/-- A first chunk that names the role, with the given content field, then text and the
end. -/
def roleFirst (content : List (String × Json)) : List Json :=
  [chunkObject (("role", .str "assistant") :: content) .null,
    chunkObject [("content", .str "hi")] (.str "stop")]

def chatHead : StreamHead := ⟨"chatcmpl-1", 0, "llama"⟩

def hiResponse : BackendResponse := ⟨"llama", "hi", .str "stop", .num 0, .num 0⟩

theorem roleFirst_shape {content : List (String × Json)}
    (h : content = [] ∨ content = [("content", .null)]) :
    ∀ o ∈ roleFirst content, ContentShape o := by
  intro o ho choice value hchoice hvalue
  rcases h with rfl | rfl <;>
    simp only [roleFirst, List.mem_cons, List.not_mem_nil, or_false] at ho <;>
    rcases ho with rfl | rfl <;> cases hchoice <;> cases hvalue
  · exact Or.inr rfl
  · exact Or.inl rfl
  · exact Or.inr rfl

end LlmHomeLab
