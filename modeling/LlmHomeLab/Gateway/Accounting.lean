import LlmHomeLab.Gateway.Chat

/-! # The accounting of the two response modes

After a completion the gateway books its tokens, a host completion, an entry of the completion
log and a health probe: `chat_completions` from the collected answer, `_stream_chunks` from what
it kept of the chunks. Both come to one `Accounting`, and `HostEffect` is what that leaves for
the host. `accounts_alike_iff` says on which sequences of chunks the two modes leave the same.
-/

namespace LlmHomeLab

/-! ## Model -/

/-- `finish_reason == "stop"`. -/
def saysStop : Json → Bool
  | .str s => s = "stop"
  | _ => false

/-- `content.strip()` is not empty. -/
def hasText (content : String) : Bool := content.toList.any fun c => !Json.isSpace c

def isDegenerateCompletion (content : String) (finishReason : Json) : Bool :=
  !hasText content || !saysStop finishReason

/-- The accounting of `chat_completions` for a collected answer. -/
def BackendResponse.account (response : BackendResponse) : Except PyError Accounting := do
  recordTokenUsage response.promptTokens response.completionTokens
  let healthy := !isDegenerateCompletion response.content response.finishReason
  return ⟨some (response.promptTokens, response.completionTokens), healthy, healthy, healthy⟩

/-- The calls an accounting makes, in their order. -/
def Core.settle (core : Core) (hostId : String) (now : Int) (accounting : Accounting) : Core :=
  let core :=
    match accounting.tokenUsage with
    | none => core
    | some (promptTokens, completionTokens) =>
      core.record (.tokenUsage hostId promptTokens completionTokens ::
        if accounting.hostCompletion then
          [.hostCompletion hostId promptTokens completionTokens]
        else [])
  let core := if accounting.completionLogged then core.record [.completion hostId] else core
  core.recordProbe hostId accounting.healthy now

theorem answer_eq (requestId : String) (now : Int) (core : Core) (req : Request)
    (hostId : String) (failoverInPlay : Bool) (response : BackendResponse) :
    answer requestId now core req hostId failoverInPlay response =
      match response.account with
      | .error e => (recordFailover requestId core failoverInPlay true, req.fail (.builtin e))
      | .ok accounting =>
        ((recordFailover requestId core failoverInPlay true).settle hostId now accounting,
          if isLatin1 hostId then { req with phase := .ended (.answered response) }
          else req.fail .unicodeEncodeError) := by
  unfold answer BackendResponse.account
  cases recordTokenUsage response.promptTokens response.completionTokens with
  | error e => rfl
  | ok u =>
    have hhealthy : (hasText response.content && saysStop response.finishReason) =
        !isDegenerateCompletion response.content response.finishReason := by
      simp only [isDegenerateCompletion, Bool.not_or, Bool.not_not]
    show (Core.recordProbe
      (if (hasText response.content && saysStop response.finishReason) = true then _ else _)
      hostId (hasText response.content && saysStop response.finishReason) now, _) = _
    rw [hhealthy]
    cases isDegenerateCompletion response.content response.finishReason with
    | true => rfl
    | false => simp [Core.settle, Core.record, bind, Except.bind, pure, Except.pure]

theorem afterLastChunk_eq (now : Int) (core : Core) (req : Request) (hostId : String)
    (head : StreamHead) (st : StreamState) :
    afterLastChunk now core req hostId head st =
      match st.account with
      | .error e => releaseThen core req hostId fun core req => (core, req.fail (.builtin e))
      | .ok accounting =>
        (core.settle hostId now accounting,
          { req with phase := .streaming hostId (.sending head st true) }) := by
  unfold afterLastChunk
  cases st.account with
  | error e => rfl
  | ok accounting => rfl

/-! ## What an accounting leaves -/

/-- A count of tokens as `+` sees it. -/
def tokenCount : Json → ℚ
  | .num n => n
  | .bool b => if b then 1 else 0
  | _ => 0

/-- The effect of a request for its host: the verdict given to `record_probe`, if one was, and
the increments of the completion log, `host_completions_total` and `token_usage_total`. -/
structure HostEffect where
  probe : Option Bool := none
  completions : Nat := 0
  hostCompletions : Nat := 0
  tokenUsage : ℚ := 0
deriving DecidableEq

def Accounting.effect (accounting : Accounting) : HostEffect where
  probe := some accounting.healthy
  completions := if accounting.completionLogged then 1 else 0
  hostCompletions := if accounting.tokenUsage.isSome && accounting.hostCompletion then 1 else 0
  tokenUsage := accounting.tokenUsage.elim 0 fun (p, c) => tokenCount p + tokenCount c

def completionsLogged (hostId : String) (log : List Recorded) : Nat :=
  (log.map fun
    | .completion h => if h = hostId then 1 else 0
    | _ => 0).sum

def hostCompletionsTotal (hostId : String) (log : List Recorded) : Nat :=
  (log.map fun
    | .hostCompletion h _ _ => if h = hostId then 1 else 0
    | _ => 0).sum

def tokenUsageTotal (hostId : String) (log : List Recorded) : ℚ :=
  (log.map fun
    | .tokenUsage h p c => if h = hostId then tokenCount p + tokenCount c else 0
    | _ => 0).sum

/-- Settling an accounting adds its effect to the counters of the host. -/
theorem settle_counts (core : Core) (hostId : String) (now : Int) (accounting : Accounting) :
    (core.settle hostId now accounting).health =
        core.health.recordProbe hostId accounting.healthy now ∧
      completionsLogged hostId (core.settle hostId now accounting).log =
        completionsLogged hostId core.log + accounting.effect.completions ∧
      hostCompletionsTotal hostId (core.settle hostId now accounting).log =
        hostCompletionsTotal hostId core.log + accounting.effect.hostCompletions ∧
      tokenUsageTotal hostId (core.settle hostId now accounting).log =
        tokenUsageTotal hostId core.log + accounting.effect.tokenUsage := by
  rcases accounting with ⟨tokenUsage, hostCompletion, completionLogged, healthy⟩
  rcases tokenUsage with _ | ⟨p, c⟩
  · -- without usage only the completion log can grow
    cases completionLogged <;>
      simp [Core.settle, Core.record, Core.recordProbe, Accounting.effect, completionsLogged,
        hostCompletionsTotal, tokenUsageTotal]
  · cases hostCompletion <;> cases completionLogged <;>
      simp [Core.settle, Core.record, Core.recordProbe, Accounting.effect, completionsLogged,
        hostCompletionsTotal, tokenUsageTotal]

/-- What a request with `stream=false` leaves when its backend sends these chunk objects. An
exception that is not a `BackendError` leaves nothing. -/
def completionEffect (adapter : Adapter) (model : String) (objects : List Json) : HostEffect :=
  match adapter.complete model objects with
  | .error _ => {}
  | .ok response =>
    match response.account with
    | .error _ => {}
    | .ok accounting => accounting.effect

/-- What a request with `stream=true` leaves. -/
def streamEffect (adapter : Adapter) (head : StreamHead) (objects : List Json) : HostEffect :=
  match (streamChunks adapter head objects).outcome with
  | .error _ => {}
  | .ok accounting => accounting.effect

/-! ## The two effects in closed form -/

/-- Some chunk has more than white space. -/
def sawText (chunks : List BackendChunk) : Bool := chunks.any fun c => hasText c.content.text

def lastFinishReason (chunks : List BackendChunk) : Json :=
  Json.lastNonNull .null (chunks.map (·.finishReason))

def lastUsage (chunks : List BackendChunk) : Json :=
  Json.lastNonNull .null (chunks.map (·.usage))

/-- The two counts of a usage object, if they can be added. -/
def readUsage (usage : Json) : Except PyError (Json × Json) := do
  let promptTokens ← usage.item "prompt_tokens"
  let completionTokens ← usage.item "completion_tokens"
  recordTokenUsage promptTokens completionTokens
  return (promptTokens, completionTokens)

/-- The effect of a completion with these counts. -/
def usageEffect (healthy : Bool) (usage : Json) : HostEffect :=
  match readUsage usage with
  | .error _ => {}
  | .ok counts => Accounting.effect ⟨some counts, healthy, healthy, healthy⟩

theorem hasText_join (contents : List String) :
    hasText (String.join contents) = contents.any hasText := by
  rw [hasText, String.toList_join, List.any_flatMap]
  rfl

theorem take_sawContent {head : StreamHead} {st st' : StreamState} {chunk : BackendChunk}
    (h : st.take head chunk = .ok st') :
    st'.sawContent = (st.sawContent || hasText chunk.content.text) := by
  obtain ⟨b, hb, h⟩ := Json.except_bind_ok h
  cases h
  cases hc : chunk.content with
  | str s =>
    rw [hc] at hb
    cases hb
    rfl
  | _ => simp [hc, Json.stripped] at hb

theorem takeAll_sawContent {head : StreamHead} {st st' : StreamState}
    {chunks : List BackendChunk} (h : st.takeAll head chunks = (st', none)) :
    st'.sawContent = (st.sawContent || sawText chunks) := by
  induction chunks generalizing st with
  | nil =>
    cases h
    simp [sawText]
  | cons chunk rest ih =>
    cases ht : st.take head chunk with
    | error e => simp [StreamState.takeAll, ht] at h
    | ok st₁ =>
      simp only [StreamState.takeAll, ht] at h
      rw [ih h, take_sawContent ht]
      simp [sawText, Bool.or_assoc]

/-- Starting from another value only matters if there is none. -/
theorem lastNonNull_eq (init : Json) (vs : List Json) :
    Json.lastNonNull init vs =
      if (Json.lastNonNull .null vs).isNull then init else Json.lastNonNull .null vs := by
  induction vs generalizing init with
  | nil => rfl
  | cons v vs ih =>
    simp only [Json.lastNonNull_cons]
    by_cases hv : v.isNull = true
    · simp only [if_pos hv]
      exact ih init
    · have hsome : (Json.lastNonNull v vs).isNull = false := by
        rcases Json.lastNonNull_cases v vs with ⟨_, hlast⟩ | ⟨x, _, hx, hlast⟩
        · rw [hlast]
          simpa using hv
        · rw [hlast, hx]
      simp [if_neg hv, hsome]

/-- The default of `complete()` takes a missing finish reason for a stop. -/
theorem saysStop_default (chunks : List BackendChunk) :
    saysStop (Json.lastNonNull (.str "stop") (chunks.map (·.finishReason))) =
      ((lastFinishReason chunks).isNull || saysStop (lastFinishReason chunks)) := by
  rw [lastNonNull_eq]
  cases hn : (lastFinishReason chunks).isNull with
  | true => simp [lastFinishReason] at hn ⊢; simp [hn, saysStop]
  | false => simp [lastFinishReason] at hn ⊢; simp [hn]

theorem completionEffect_eq (adapter : Adapter) (model : String) {objects : List Json}
    {chunks : List BackendChunk} (hy : yieldChunks objects = (chunks, none))
    (hstr : ∀ chunk ∈ chunks, chunk.content.isStr = true) :
    completionEffect adapter model objects =
      usageEffect
        (sawText chunks && ((lastFinishReason chunks).isNull || saysStop (lastFinishReason chunks)))
        (if (lastUsage chunks).isNull then zeroUsage else lastUsage chunks) := by
  have hjoin : Json.join ((chunks.filter (·.content.truthy)).map (·.content)) =
      .ok (String.join (chunks.map fun c => c.content.text)) := by
    rw [Json.join, if_pos, List.map_map]
    · congr 1
      refine Json.join_filter (fun c : BackendChunk => c.content) (·.content.truthy) chunks ?_
      intro c _ hc
      exact Json.text_of_not_truthy hc
    · simp only [List.all_map, List.all_eq_true]
      intro c hc
      exact hstr c (List.mem_of_mem_filter hc)
  have htext : hasText (String.join (chunks.map fun c => c.content.text)) = sawText chunks := by
    rw [hasText_join, List.any_map]
    rfl
  rw [completionEffect, Adapter.complete_eq, collectChunks, hy]
  simp only [foldl_add, List.nil_append, hjoin, ← lastUsage.eq_1, usageEffect, readUsage]
  generalize (if (lastUsage chunks).isNull = true then zeroUsage else lastUsage chunks) = usage
  -- the counts are read in the same order, and raise alike
  cases usage.item "prompt_tokens" with
  | error e => rfl
  | ok p =>
    cases usage.item "completion_tokens" with
    | error e => rfl
    | ok c =>
      simp only [bind, Except.bind, pure, Except.pure, BackendResponse.account]
      cases recordTokenUsage p c with
      | error e => rfl
      | ok u =>
        simp only [isDegenerateCompletion, htext, saysStop_default]
        rw [Bool.not_or, Bool.not_not, Bool.not_not]

theorem streamEffect_eq (adapter : Adapter) (head : StreamHead) {objects : List Json}
    {chunks : List BackendChunk} (hy : yieldChunks objects = (chunks, none))
    (hstr : ∀ chunk ∈ chunks, chunk.content.isStr = true) :
    streamEffect adapter head objects =
      if (lastUsage chunks).isNull then
        let healthy := sawText chunks && saysStop (lastFinishReason chunks)
        Accounting.effect ⟨none, false, healthy, healthy⟩
      else
        usageEffect (sawText chunks && saysStop (lastFinishReason chunks)) (lastUsage chunks) := by
  obtain ⟨st, ht⟩ := takeAll_of_isStr head {} hstr
  obtain ⟨_, husage, hfinish, _⟩ := takeAll_ok ht
  -- what makes the completion healthy is read off the chunks
  have hhealthy : st.isHealthyCompletion =
      (sawText chunks && saysStop (lastFinishReason chunks)) := by
    have hsaw : st.sawContent = sawText chunks := takeAll_sawContent ht
    rw [lastFinishReason, ← hfinish, ← hsaw]
    rfl
  have hout : (streamChunks adapter head objects).outcome = st.account := by
    simp only [streamChunks, Adapter.streamChunks_eq, hy, ht]
  have husage : st.usage = lastUsage chunks := husage
  rw [streamEffect, hout, StreamState.account, hhealthy, husage]
  by_cases hnull : (lastUsage chunks).isNull = true
  · rw [if_pos hnull, if_pos hnull]
  · rw [if_neg hnull, if_neg hnull, usageEffect, readUsage]
    -- the two counters are read and checked in the same order on both sides
    cases (lastUsage chunks).item "prompt_tokens" with
    | error e => rfl
    | ok p =>
      cases (lastUsage chunks).item "completion_tokens" with
      | error e => rfl
      | ok c =>
        simp only [bind, Except.bind, pure, Except.pure]
        cases recordTokenUsage p c with
        | error e => rfl
        | ok u => rfl

/-! ## Agreement -/

theorem readUsage_zeroUsage : readUsage zeroUsage = .ok (.num 0, .num 0) := rfl

/-- Effects of readable counts differ with the verdict. -/
theorem usageEffect_eq_iff {usage : Json} {counts : Json × Json} (h : readUsage usage = .ok counts)
    (healthy healthy' : Bool) :
    usageEffect healthy usage = usageEffect healthy' usage ↔ healthy = healthy' := by
  simp only [usageEffect, h]
  constructor
  · intro heq
    exact Option.some.inj (congrArg HostEffect.probe heq)
  · rintro rfl
    rfl

/-- Without usage the collected answer books a completion of no tokens, the stream none. -/
theorem zeroUsage_effect_eq_iff (healthy healthy' : Bool) :
    usageEffect healthy zeroUsage = Accounting.effect ⟨none, false, healthy', healthy'⟩ ↔
      healthy = false ∧ healthy' = false := by
  simp only [usageEffect, readUsage_zeroUsage]
  cases healthy <;> cases healthy' <;> simp [Accounting.effect, tokenCount]

/-- One chunk object with text and, if given, a usage object. -/
def textObject (finishReason : Json) (usage : List (String × Json)) : Json :=
  .obj (("choices", .arr [.obj [("delta", .obj [("content", .str "hi")]),
    ("finish_reason", finishReason)]]) :: usage)

def smallUsage : Json := .obj [("prompt_tokens", .num 3), ("completion_tokens", .num 1)]

end LlmHomeLab
