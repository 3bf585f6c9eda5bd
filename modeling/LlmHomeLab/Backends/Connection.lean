import LlmHomeLab.Backends.Retry
import LlmHomeLab.Errors

/-! # The connections of an adapter

`_stream_chunks` of the two adapters again, from one `await` to the next: whoever iterates it may
stop at any chunk, close it, or be cancelled. `inference_response` closes each response before
the generator goes on. What was posted and what is closed is counted.
-/

namespace LlmHomeLab

/-! ## Model -/

/-- What leaves the `async with` of a response. -/
inductive Leaving where
  | returns
  /-- `GeneratorExit`, at the `yield`. -/
  | exits
  | raises (r : Raised)
deriving DecidableEq, Repr

/-- Where the generator is, with the number of attempts left after the one it is in. -/
inductive GeneratorPc where
  | created
  /-- In the POST. -/
  | opening (left : Nat)
  /-- In `aread()` of a response that is no 2xx. -/
  | refused (left statusCode : Nat)
  | reading (left : Nat) (receivedAny : Bool)
  /-- At its `yield`. -/
  | suspended (left : Nat) (chunk : BackendChunk)
  /-- In `aclose()` of the response. -/
  | closing (left : Nat) (receivedAny : Bool) (leaving : Leaving)
  | finished (result : Except AdapterError Unit)
  /-- Closed at its `yield`; the result is that of its `aclose()`. -/
  | exited (result : Except AdapterError Unit)

/-- A response is open, or on its way. -/
def GeneratorPc.connected : GeneratorPc → Bool
  | .opening _ => true
  | .refused _ _ => true
  | .reading _ _ => true
  | .suspended _ _ => true
  | .closing _ _ _ => true
  | _ => false

/-- The generator. The last three fields record what it has done: its chunks, the POSTs it has
sent, and those that have failed or whose response has been closed. -/
structure ChunkGenerator where
  pc : GeneratorPc := .created
  yielded : List BackendChunk := []
  opened : Nat := 0
  closed : Nat := 0

/-- What the client library answers. -/
inductive HttpAnswer where
  | posted (result : Except HttpError Nat)
  | body (result : Except HttpError String)
  /-- The next line, or the end. -/
  | line (result : Except HttpError (Option String))
  | closed (result : Except HttpError Unit)

namespace ChunkGenerator

variable (loads : String → Option Json)

/-- The next turn of `for _ in range(attempts)`. -/
def attempt (g : ChunkGenerator) (left : Nat) : ChunkGenerator :=
  { g with pc := .opening left, opened := g.opened + 1 }

/-- The `except` clauses, for what has left the `async with`. -/
def raise (g : ChunkGenerator) (left : Nat) (receivedAny : Bool) (r : Raised) : ChunkGenerator :=
  let ends (e : AdapterError) : ChunkGenerator := { g with pc := .finished (.error e) }
  match r with
  | .http (.timeout message) =>
    ends (.backendTimeout (if message = "" then "backend request timed out" else message))
  | .http (.transport message) =>
    if receivedAny then ends (.backendConnection message)
    else
      match left with
      | 0 => ends (.backendConnection message)
      | left + 1 => g.attempt left
  | .http .other => ends .other
  | .backendResponse statusCode body => ends (.backendResponse statusCode body)
  | .jsonDecode => ends .jsonDecode
  | .builtin e => ends (.builtin e)

/-- After the response: `return`, the end of `aclose()`, or an exception. -/
def leave (g : ChunkGenerator) (left : Nat) (receivedAny : Bool) : Leaving → ChunkGenerator
  | .returns => { g with pc := .finished (.ok ()) }
  | .exits => { g with pc := .exited (.ok ()) }
  | .raises r => g.raise left receivedAny r

/-- An exception of `aclose()` of a generator comes out of this `aclose()`. -/
def exiting (leaving : Leaving) (g : ChunkGenerator) : ChunkGenerator :=
  match leaving, g.pc with
  | .exits, .finished result => { g with pc := .exited result }
  | _, _ => g

/-- The body of the loop over the lines. -/
def readLine (g : ChunkGenerator) (left : Nat) (receivedAny : Bool) (line : String) :
    ChunkGenerator :=
  if !Text.startsWith line "data: " then g
  else
    let data := Text.removeLeading line "data: "
    if data = "[DONE]" then { g with pc := .closing left receivedAny .returns }
    else
      match loads data with
      | none => { g with pc := .closing left receivedAny (.raises .jsonDecode) }
      | some parsed =>
        match parseChunk parsed with
        | .error e =>
          { g with pc := .closing left (receivedAny || marksReceived parsed) (.raises (.builtin e)) }
        | .ok none => g
        | .ok (some chunk) =>
          { g with pc := .suspended left chunk, yielded := g.yielded ++ [chunk] }

/-- The end of an `await`. -/
def answer (g : ChunkGenerator) : HttpAnswer → Option ChunkGenerator
  | .posted result =>
    match g.pc with
    | .opening left =>
      match result with
      | .error e => some ({ g with closed := g.closed + 1 }.raise left false (.http e))
      | .ok statusCode =>
        if statusCode / 100 ≠ 2 then some { g with pc := .refused left statusCode }
        else some { g with pc := .reading left false }
    | _ => none
  | .body result =>
    match g.pc with
    | .refused left statusCode =>
      match result with
      | .error e => some { g with pc := .closing left false (.raises (.http e)) }
      | .ok body => some { g with pc := .closing left false (.raises (.backendResponse statusCode body)) }
    | _ => none
  | .line result =>
    match g.pc with
    | .reading left receivedAny =>
      match result with
      | .error e => some { g with pc := .closing left receivedAny (.raises (.http e)) }
      | .ok none => some { g with pc := .closing left receivedAny .returns }
      | .ok (some line) => some (g.readLine loads left receivedAny line)
    | _ => none
  | .closed result =>
    match g.pc with
    | .closing left receivedAny leaving =>
      let g := { g with closed := g.closed + 1 }
      match result with
      | .ok () => some (g.leave left receivedAny leaving)
      | .error e => some (exiting leaving (g.raise left receivedAny (.http e)))
    | _ => none

/-- `anext()`, of a generator that is not running. -/
def anext (maxRetries : Nat) (g : ChunkGenerator) : ChunkGenerator :=
  match g.pc with
  | .created => g.attempt maxRetries
  | .suspended left _ => { g with pc := .reading left true }
  | _ => g

/-- `aclose()`, of a generator that is not running. -/
def aclose (g : ChunkGenerator) : ChunkGenerator :=
  match g.pc with
  | .created => { g with pc := .exited (.ok ()) }
  | .suspended left _ => { g with pc := .closing left true .exits }
  | _ => g

end ChunkGenerator

def AdapterError.toExn : AdapterError → Exn
  | .backendTimeout _ => .backendError
  | .backendConnection _ => .backendError
  | .backendResponse _ _ => .backendError
  | .jsonDecode => .raised
  | .builtin e => .builtin e
  | .other => .raised

/-- The end of `complete()`, after the chunks. -/
def collectYielded (model : String) (chunks : List BackendChunk) : Except PyError BackendResponse := do
  let acc := chunks.foldl Collected.add {}
  let usage := if acc.usage.isNull then zeroUsage else acc.usage
  let content ← Json.join acc.contentParts
  let promptTokens ← usage.item "prompt_tokens"
  let completionTokens ← usage.item "completion_tokens"
  return ⟨model, content, acc.finishReason, promptTokens, completionTokens⟩

theorem collectChunks_eq {model : String} {objects : List Json} {chunks : List BackendChunk}
    (h : yieldChunks objects = (chunks, none)) :
    collectChunks model objects = collectYielded model chunks := by
  simp only [collectChunks, h]
  rfl

/-! ## What an answer can do -/

namespace ChunkGenerator

/-- The answers, each where the generator awaits it, and what comes of them. -/
inductive Answers (loads : String → Option Json) (g : ChunkGenerator) :
    HttpAnswer → ChunkGenerator → Prop
  | failed {left : Nat} {e : HttpError} (here : g.pc = .opening left) :
      Answers loads g (.posted (.error e))
        ({ g with closed := g.closed + 1 }.raise left false (.http e))
  | refused {left statusCode : Nat} (here : g.pc = .opening left) :
      Answers loads g (.posted (.ok statusCode)) { g with pc := .refused left statusCode }
  | accepted {left statusCode : Nat} (here : g.pc = .opening left) :
      Answers loads g (.posted (.ok statusCode)) { g with pc := .reading left false }
  | body {left statusCode : Nat} {result : Except HttpError String} {r : Raised}
      (here : g.pc = .refused left statusCode) :
      Answers loads g (.body result) { g with pc := .closing left false (.raises r) }
  | broken {left : Nat} {receivedAny : Bool} {e : HttpError}
      (here : g.pc = .reading left receivedAny) :
      Answers loads g (.line (.error e)) { g with pc := .closing left receivedAny (.raises (.http e)) }
  | ended {left : Nat} {receivedAny : Bool} (here : g.pc = .reading left receivedAny) :
      Answers loads g (.line (.ok none)) { g with pc := .closing left receivedAny .returns }
  | line {left : Nat} {receivedAny : Bool} {line : String} (here : g.pc = .reading left receivedAny) :
      Answers loads g (.line (.ok (some line))) (g.readLine loads left receivedAny line)
  | closed {left : Nat} {receivedAny : Bool} {leaving : Leaving}
      (here : g.pc = .closing left receivedAny leaving) :
      Answers loads g (.closed (.ok ()))
        ({ g with closed := g.closed + 1 }.leave left receivedAny leaving)
  | closeFails {left : Nat} {receivedAny : Bool} {leaving : Leaving} {e : HttpError}
      (here : g.pc = .closing left receivedAny leaving) :
      Answers loads g (.closed (.error e))
        (exiting leaving ({ g with closed := g.closed + 1 }.raise left receivedAny (.http e)))

section

variable {loads} {g g' : ChunkGenerator} {a : HttpAnswer}

theorem answer_cases (h : g.answer loads a = some g') : Answers loads g a g' := by
  cases a with
  | posted result =>
    cases hpc : g.pc with
    | opening left =>
      cases result with
      | error e =>
        simp only [answer, hpc, Option.some.injEq] at h
        exact h ▸ .failed hpc
      | ok statusCode =>
        simp only [answer, hpc] at h
        split at h
        · exact Option.some.inj h ▸ .refused hpc
        · exact Option.some.inj h ▸ .accepted hpc
    | _ => simp [answer, hpc] at h
  | body result =>
    cases hpc : g.pc with
    | refused left statusCode =>
      cases result with
      | error e =>
        simp only [answer, hpc, Option.some.injEq] at h
        exact h ▸ .body hpc
      | ok body =>
        simp only [answer, hpc, Option.some.injEq] at h
        exact h ▸ .body hpc
    | _ => simp [answer, hpc] at h
  | line result =>
    cases hpc : g.pc with
    | reading left receivedAny =>
      cases result with
      | error e =>
        simp only [answer, hpc, Option.some.injEq] at h
        exact h ▸ .broken hpc
      | ok line =>
        cases line with
        | none =>
          simp only [answer, hpc, Option.some.injEq] at h
          exact h ▸ .ended hpc
        | some line =>
          simp only [answer, hpc, Option.some.injEq] at h
          exact h ▸ .line hpc
    | _ => simp [answer, hpc] at h
  | closed result =>
    cases hpc : g.pc with
    | closing left receivedAny leaving =>
      cases result with
      | ok =>
        simp only [answer, hpc, Option.some.injEq] at h
        exact h ▸ .closed hpc
      | error e =>
        simp only [answer, hpc, Option.some.injEq] at h
        exact h ▸ .closeFails hpc
    | _ => simp [answer, hpc] at h

/-- An exception ends the generator, or an attempt follows that has yielded nothing before. -/
theorem raise_cases (g : ChunkGenerator) (left : Nat) (receivedAny : Bool) (r : Raised) :
    (∃ e, g.raise left receivedAny r = { g with pc := .finished (.error e) }) ∨
      receivedAny = false ∧ ∃ n, g.raise left receivedAny r = g.attempt n := by
  unfold raise
  simp only
  split
  · exact Or.inl ⟨_, rfl⟩
  · split
    · exact Or.inl ⟨_, rfl⟩
    · next hnone =>
      split
      · exact Or.inl ⟨_, rfl⟩
      · exact Or.inr ⟨by simpa using hnone, _, rfl⟩
  all_goals exact Or.inl ⟨_, rfl⟩

/-- A line is passed over, ends the response, or is the next chunk. -/
theorem readLine_cases (loads : String → Option Json) (g : ChunkGenerator) (left : Nat)
    (receivedAny : Bool) (line : String) :
    g.readLine loads left receivedAny line = g ∨
      (∃ receivedAny' leaving, leaving ≠ .exits ∧ g.readLine loads left receivedAny line =
        { g with pc := .closing left receivedAny' leaving }) ∨
      ∃ chunk, g.readLine loads left receivedAny line =
        { g with pc := .suspended left chunk, yielded := g.yielded ++ [chunk] } := by
  unfold readLine
  simp only
  split
  · exact Or.inl rfl
  · split
    · exact Or.inr (Or.inl ⟨_, _, (fun h => by cases h), rfl⟩)
    · split
      · exact Or.inr (Or.inl ⟨_, _, (fun h => by cases h), rfl⟩)
      · split
        · exact Or.inr (Or.inl ⟨_, _, (fun h => by cases h), rfl⟩)
        · exact Or.inl rfl
        · exact Or.inr (Or.inr ⟨_, rfl⟩)

/-- After `exiting` the generator is where it was, or has exited with this result. -/
theorem exiting_cases (leaving : Leaving) (g : ChunkGenerator) :
    exiting leaving g = g ∨
      ∃ result, g.pc = .finished result ∧ exiting leaving g = { g with pc := .exited result } := by
  unfold exiting
  split
  · next hpc => exact Or.inr ⟨_, hpc, rfl⟩
  · exact Or.inl rfl

end

end ChunkGenerator

/-! ## One response at a time -/

namespace ChunkGenerator

/-- What has been posted is closed, but for the response the generator is at. -/
def Balanced (g : ChunkGenerator) : Prop := g.opened = g.closed + g.pc.connected.toNat

/-- Where the generator is not at a response. -/
def Settled (g : ChunkGenerator) : Prop := g.opened = g.closed

variable {loads} {g g' : ChunkGenerator} {left maxRetries : Nat} {receivedAny : Bool}

theorem Balanced.settled (h : g.Balanced) (hpc : g.pc.connected = false) : g.Settled := by
  rw [Balanced, hpc] at h
  exact h

theorem balanced_attempt (h : g.Settled) (left : Nat) : (g.attempt left).Balanced :=
  congrArg (· + 1) h

theorem balanced_raise (h : g.Settled) (left : Nat) (receivedAny : Bool) (r : Raised) :
    (g.raise left receivedAny r).Balanced := by
  rcases raise_cases g left receivedAny r with ⟨e, hraise⟩ | ⟨-, n, hraise⟩
  · rw [hraise]
    exact h
  · rw [hraise]
    exact balanced_attempt h n

theorem balanced_exiting (h : g.Balanced) (leaving : Leaving) : (exiting leaving g).Balanced := by
  rcases exiting_cases leaving g with hsame | ⟨result, hpc, hexited⟩
  · rwa [hsame]
  · rw [Balanced, hpc] at h
    rw [hexited]
    exact h

theorem balanced_leave (h : g.Settled) (left : Nat) (receivedAny : Bool) (leaving : Leaving) :
    (g.leave left receivedAny leaving).Balanced := by
  cases leaving with
  | returns => exact h
  | exits => exact h
  | raises r => exact balanced_raise h left receivedAny r

theorem balanced_readLine (h : g.Balanced) (hpc : g.pc = .reading left receivedAny)
    (line : String) : (g.readLine loads left receivedAny line).Balanced := by
  have hopen : g.opened = g.closed + 1 := by simpa [Balanced, hpc, GeneratorPc.connected] using h
  rcases readLine_cases loads g left receivedAny line with hread | ⟨_, _, _, hread⟩ | ⟨_, hread⟩
  · rwa [hread]
  · rw [hread]
    exact hopen
  · rw [hread]
    exact hopen

theorem balanced_answer {a : HttpAnswer} (h : g.Balanced) (hanswer : g.answer loads a = some g') :
    g'.Balanced := by
  have hopen : g.pc.connected = true → g.opened = g.closed + 1 := by
    intro hconnected
    simpa [Balanced, hconnected] using h
  cases answer_cases hanswer with
  | failed here =>
    exact balanced_raise (g := { g with closed := g.closed + 1 }) (hopen (by rw [here]; rfl)) _ _ _
  | refused here => exact hopen (by rw [here]; rfl)
  | accepted here => exact hopen (by rw [here]; rfl)
  | body here => exact hopen (by rw [here]; rfl)
  | broken here => exact hopen (by rw [here]; rfl)
  | ended here => exact hopen (by rw [here]; rfl)
  | line here => exact balanced_readLine h here _
  | closed here =>
    exact balanced_leave (g := { g with closed := g.closed + 1 }) (hopen (by rw [here]; rfl)) _ _ _
  | closeFails here =>
    exact balanced_exiting
      (balanced_raise (g := { g with closed := g.closed + 1 }) (hopen (by rw [here]; rfl)) _ _ _) _

theorem balanced_anext (h : g.Balanced) (maxRetries : Nat) : (g.anext maxRetries).Balanced := by
  unfold anext
  split
  · next hpc => exact balanced_attempt (h.settled (by rw [hpc]; rfl)) _
  · next hpc =>
    rw [Balanced, hpc] at h
    exact h
  · exact h

theorem balanced_aclose (h : g.Balanced) : g.aclose.Balanced := by
  unfold aclose
  split
  · next hpc =>
    rw [Balanced, hpc] at h
    exact h
  · next hpc =>
    rw [Balanced, hpc] at h
    exact h
  · exact h

/-! ## Against a script

Iterated to its end, the generator does what the loop over a script of attempts says. -/

/-- The rest of a response, whose lines are still to come, with `anext()` after every chunk. -/
def playLines (loads : String → Option Json) (maxRetries : Nat) (broken closing : Option HttpError)
    (g : ChunkGenerator) : List String → Option ChunkGenerator
  | [] => do
    let g ← g.answer loads (.line (broken.elim (.ok none) .error))
    g.answer loads (.closed (closing.elim (.ok ()) .error))
  | line :: rest => do
    let g ← g.answer loads (.line (.ok (some line)))
    match g.pc with
    | .closing _ _ _ => g.answer loads (.closed (closing.elim (.ok ()) .error))
    | _ => playLines loads maxRetries broken closing (g.anext maxRetries) rest

/-- One attempt. -/
def playAttempt (loads : String → Option Json) (maxRetries : Nat) (g : ChunkGenerator) :
    Attempt → Option ChunkGenerator
  | .error e => g.answer loads (.posted (.error e))
  | .ok response => do
    let g ← g.answer loads (.posted (.ok response.statusCode))
    match g.pc with
    | .refused _ _ =>
      let g ← g.answer loads (.body response.body)
      g.answer loads (.closed (response.closing.elim (.ok ()) .error))
    | _ => playLines loads maxRetries response.broken response.closing g response.lines

/-- The attempts of a script from the `i`th on, for at most this many turns. -/
def play (loads : String → Option Json) (maxRetries : Nat) (script : Nat → Attempt) :
    Nat → Nat → ChunkGenerator → Option ChunkGenerator
  | 0, _, g => some g
  | turns + 1, i, g =>
    match g.pc with
    | .opening _ => do
      let g ← g.playAttempt loads maxRetries (script i)
      play loads maxRetries script turns (i + 1) g
    | _ => some g

/-- The generator after an attempt that ran like this. -/
def afterRun (g : ChunkGenerator) (left : Nat) (run : AttemptRun) : ChunkGenerator :=
  let g := { g with yielded := g.yielded ++ run.yielded, closed := g.closed + 1 }
  match run.result with
  | .ok () => { g with pc := .finished (.ok ()) }
  | .error r => g.raise left run.receivedAny r

/-- `closing` decides how a run ends. -/
def closedWith (closing : Option HttpError) (run : AttemptRun) : AttemptRun :=
  match closing with
  | none => run
  | some e => { run with result := .error (.http e) }

/-- How the body of the `async with` is left. -/
def leavingOf : Except Raised Unit → Leaving
  | .ok () => .returns
  | .error r => .raises r

/-- The `except` clauses do not look where the generator was. -/
theorem raise_pc (g : ChunkGenerator) (pc : GeneratorPc) (left : Nat) (receivedAny : Bool)
    (r : Raised) : { g with pc }.raise left receivedAny r = g.raise left receivedAny r := by
  unfold raise
  split
  · rfl
  · split
    · rfl
    · split
      · rfl
      · rfl
  all_goals rfl

theorem answer_closed (g : ChunkGenerator) (left : Nat) (receivedAny : Bool)
    (result : Except Raised Unit) (closing : Option HttpError) :
    { g with pc := .closing left receivedAny (leavingOf result) }.answer loads
        (.closed (closing.elim (.ok ()) .error)) =
      some (g.afterRun left (closedWith closing ⟨[], receivedAny, result⟩)) := by
  have hraise : ∀ pc r, (ChunkGenerator.mk pc g.yielded g.opened (g.closed + 1)).raise left
      receivedAny r = { g with closed := g.closed + 1 }.raise left receivedAny r :=
    fun pc r => raise_pc { g with closed := g.closed + 1 } pc left receivedAny r
  unfold answer
  cases closing with
  | none =>
    cases result with
    | ok => simp [leavingOf, leave, afterRun, closedWith]
    | error r => simpa [leavingOf, leave, afterRun, closedWith] using hraise _ r
  | some e =>
    cases result with
    | ok => simpa [leavingOf, exiting, afterRun, closedWith] using hraise _ _
    | error r => simpa [leavingOf, exiting, afterRun, closedWith] using hraise _ _

theorem afterRun_pc (g : ChunkGenerator) (pc : GeneratorPc) (left : Nat) (run : AttemptRun) :
    { g with pc }.afterRun left run = g.afterRun left run := by
  unfold afterRun
  cases run.result with
  | ok => rfl
  | error r => exact raise_pc ⟨g.pc, _, _, _⟩ pc left run.receivedAny r

/-- A chunk that has been yielded is one of the run of the lines from it on. -/
theorem afterRun_cons (g : ChunkGenerator) (pc : GeneratorPc) (left : Nat) (chunk : BackendChunk)
    (closing : Option HttpError) (run : AttemptRun) :
    { g with pc, yielded := g.yielded ++ [chunk] }.afterRun left (closedWith closing run) =
      g.afterRun left (closedWith closing { run with yielded := chunk :: run.yielded }) := by
  have hpc := afterRun_pc { g with yielded := g.yielded ++ [chunk] } pc left (closedWith closing run)
  rw [hpc]
  cases closing with
  | none => simp [closedWith, afterRun]
  | some e => simp [closedWith, afterRun]

theorem playLines_eq {broken closing : Option HttpError} {lines : List String}
    (hpc : g.pc = .reading left receivedAny) :
    g.playLines loads maxRetries broken closing lines =
      some (g.afterRun left (closedWith closing (readLines loads broken receivedAny lines))) := by
  induction lines generalizing g receivedAny with
  | nil =>
    cases broken with
    | none =>
      simp only [playLines, Option.elim, answer, hpc, Option.bind_eq_bind, Option.bind_some]
      exact @answer_closed loads g left receivedAny (.ok ()) closing
    | some e =>
      simp only [playLines, Option.elim, answer, hpc, Option.bind_eq_bind, Option.bind_some]
      exact @answer_closed loads g left receivedAny (.error (.http e)) closing
  | cons line rest ih =>
    have hanswer : g.answer loads (.line (.ok (some line))) =
        some (g.readLine loads left receivedAny line) := by
      unfold answer
      rw [hpc]
    simp only [playLines, hanswer, Option.bind_eq_bind, Option.bind_some]
    by_cases hdata : Text.startsWith line "data: " = true
    · by_cases hdone : Text.removeLeading line "data: " = "[DONE]"
      · simp only [readLine, readLines, hdata, hdone, Bool.not_true, Bool.false_eq_true, if_false,
          if_true]
        exact answer_closed g left receivedAny (.ok ()) closing
      · cases hloads : loads (Text.removeLeading line "data: ") with
        | none =>
          simp only [readLine, readLines, hdata, hdone, hloads, Bool.not_true, Bool.false_eq_true,
            if_false]
          exact answer_closed g left receivedAny (.error .jsonDecode) closing
        | some parsed =>
          cases hparse : parseChunk parsed with
          | error e =>
            simp only [readLine, readLines, hdata, hdone, hloads, hparse, Bool.not_true,
              Bool.false_eq_true, if_false]
            exact answer_closed g left (receivedAny || marksReceived parsed)
              (.error (.builtin e)) closing
          | ok chunk =>
            cases chunk with
            | none =>
              simp only [readLine, readLines, hdata, hdone, hloads, hparse, Bool.not_true,
                Bool.false_eq_true, if_false, hpc, anext]
              exact ih hpc
            | some chunk =>
              simp only [readLine, readLines, hdata, hdone, hloads, hparse, Bool.not_true,
                Bool.false_eq_true, if_false, anext]
              rw [ih rfl, afterRun_cons]
    · simp only [readLine, readLines, hdata, Bool.not_false, if_true, hpc, anext]
      exact ih hpc

theorem playAttempt_eq {a : Attempt} (hpc : g.pc = .opening left) :
    g.playAttempt loads maxRetries a = some (g.afterRun left (runAttempt loads a)) := by
  cases a with
  | error e =>
    simp only [playAttempt, answer, hpc, runAttempt, afterRun, List.append_nil]
  | ok response =>
    have hrun : runAttempt loads (.ok response) =
        closedWith response.closing (readResponse loads response) := rfl
    rw [hrun]
    unfold readResponse
    simp only [playAttempt, answer, hpc, Option.bind_eq_bind]
    by_cases hstatus : response.statusCode / 100 ≠ 2
    · simp only [if_pos hstatus, Option.bind_some]
      cases response.body with
      | error e =>
        simp only [Option.bind_some]
        exact @answer_closed loads g left false (.error (.http e)) response.closing
      | ok body =>
        simp only [Option.bind_some]
        exact @answer_closed loads g left false
          (.error (.backendResponse response.statusCode body)) response.closing
    · simp only [if_neg hstatus, Option.bind_some]
      rw [playLines_eq rfl]
      exact congrArg some (afterRun_pc g _ left _)

/-- What comes out of the `except` clauses, unless they start over. -/
def adapterError : Raised → AdapterError
  | .http (.timeout message) =>
    .backendTimeout (if message = "" then "backend request timed out" else message)
  | .http (.transport message) => .backendConnection message
  | .http .other => .other
  | .backendResponse statusCode body => .backendResponse statusCode body
  | .jsonDecode => .jsonDecode
  | .builtin e => .builtin e

/-- The loop goes on after this exception. -/
def retries (left : Nat) (receivedAny : Bool) : Raised → Bool
  | .http (.transport _) => !receivedAny && decide (left ≠ 0)
  | _ => false

theorem raise_ends {r : Raised} (h : retries left receivedAny r = false) :
    g.raise left receivedAny r = { g with pc := .finished (.error (adapterError r)) } := by
  unfold raise
  split
  · rfl
  · cases receivedAny with
    | true => rfl
    | false =>
      cases left with
      | zero => rfl
      | succ left => simp [retries] at h
  all_goals rfl

theorem transport_of_retries {r : Raised} (h : retries left receivedAny r = true) :
    ∃ message n, r = .http (.transport message) ∧ receivedAny = false ∧ left = n + 1 := by
  unfold retries at h
  split at h
  · next message =>
    simp only [Bool.and_eq_true, Bool.not_eq_true', decide_eq_true_eq] at h
    obtain ⟨rfl, hleft⟩ := h
    obtain ⟨n, rfl⟩ := Nat.exists_eq_succ_of_ne_zero hleft
    exact ⟨message, n, rfl, rfl, rfl⟩
  · cases h

section

variable {script : Nat → Attempt} {payload : Dict String Json} {lastError : Option String} {i : Nat}

theorem attemptLoop_ok (h : (runAttempt loads (script i)).result = .ok ()) :
    attemptLoop loads script payload (left + 1) i lastError =
      ⟨[payload], (runAttempt loads (script i)).yielded, .ok ()⟩ := by
  simp only [attemptLoop, h]

theorem attemptLoop_ends {r : Raised} (h : (runAttempt loads (script i)).result = .error r)
    (hends : retries left (runAttempt loads (script i)).receivedAny r = false) :
    attemptLoop loads script payload (left + 1) i lastError =
      ⟨[payload], (runAttempt loads (script i)).yielded, .error (adapterError r)⟩ := by
  simp only [attemptLoop, h]
  cases r with
  | http e =>
    cases e with
    | timeout message => rfl
    | other => rfl
    | transport message =>
      cases hreceived : (runAttempt loads (script i)).receivedAny with
      | true => rfl
      | false =>
        cases left with
        | zero => simp [attemptLoop, adapterError]
        | succ left => simp [retries, hreceived] at hends
  | backendResponse | jsonDecode | builtin => rfl

theorem play_finished {result : Except AdapterError Unit} (hpc : g.pc = .finished result)
    (turns i : Nat) : g.play loads maxRetries script turns i = some g := by
  cases turns with
  | zero => rfl
  | succ turns => simp [play, hpc]

/-- Iterated to its end, the generator has sent the POSTs of the loop, yielded its chunks, and ended
as it does. -/
theorem play_eq (hpc : g.pc = .opening left) :
    ∃ g', g.play loads maxRetries script (left + 1) i = some g' ∧
      g'.pc = .finished (attemptLoop loads script payload (left + 1) i lastError).result ∧
      g'.yielded =
        g.yielded ++ (attemptLoop loads script payload (left + 1) i lastError).yielded ∧
      g'.opened + 1 =
        g.opened + (attemptLoop loads script payload (left + 1) i lastError).posts.length := by
  induction left using Nat.strong_induction_on generalizing g i lastError with
  | _ left ih =>
    have hplay : g.play loads maxRetries script (left + 1) i =
        (g.afterRun left (runAttempt loads (script i))).play loads maxRetries script left (i + 1) := by
      simp only [play, hpc, playAttempt_eq hpc, Option.bind_eq_bind, Option.bind_some]
    rw [hplay]
    cases hresult : (runAttempt loads (script i)).result with
    | ok =>
      rw [attemptLoop_ok hresult]
      have hafter : g.afterRun left (runAttempt loads (script i)) =
          { g with
            pc := .finished (.ok ())
            yielded := g.yielded ++ (runAttempt loads (script i)).yielded
            closed := g.closed + 1 } := by
        simp only [afterRun, hresult]
      rw [hafter]
      exact ⟨_, play_finished rfl _ _, rfl, rfl, rfl⟩
    | error r =>
      cases hretries : retries left (runAttempt loads (script i)).receivedAny r with
      | false =>
        rw [attemptLoop_ends hresult hretries]
        have hafter : g.afterRun left (runAttempt loads (script i)) =
            { g with
              pc := .finished (.error (adapterError r))
              yielded := g.yielded ++ (runAttempt loads (script i)).yielded
              closed := g.closed + 1 } := by
          simp only [afterRun, hresult]
          rw [raise_ends hretries]
        rw [hafter]
        exact ⟨_, play_finished rfl _ _, rfl, rfl, rfl⟩
      | true =>
        obtain ⟨message, n, rfl, hreceived, rfl⟩ := transport_of_retries hretries
        have hafter : (g.afterRun (n + 1) (runAttempt loads (script i))).pc = .opening n := by
          simp [afterRun, hresult, raise, hreceived, attempt]
        obtain ⟨g', hrest, hfinished, hyielded, hopened⟩ :=
          @ih n (Nat.lt_succ_self n) _ (some message) (i + 1) hafter
        have hloop : attemptLoop loads script payload (n + 1 + 1) i lastError =
            ⟨payload :: (attemptLoop loads script payload (n + 1) (i + 1) (some message)).posts,
              (runAttempt loads (script i)).yielded ++
                (attemptLoop loads script payload (n + 1) (i + 1) (some message)).yielded,
              (attemptLoop loads script payload (n + 1) (i + 1) (some message)).result⟩ := by
          rw [attemptLoop]
          simp only [hresult, hreceived, Bool.false_eq_true, if_false]
        rw [hloop]
        refine ⟨g', hrest, hfinished, ?_, ?_⟩
        · rw [hyielded]
          simp [afterRun, hresult, raise, hreceived, attempt]
        · rw [hopened]
          simp [afterRun, hresult, raise, hreceived, attempt]
          omega

end

/-! ## What is yielded

The chunks are those of the lines heard since the last POST: whatever was heard before it has
yielded nothing. -/

/-- The lines heard since the last POST. -/
def hearing (lines : List String) : HttpAnswer → List String
  | .posted _ => []
  | .line (.ok (some line)) => lines ++ [line]
  | _ => lines

/-- After these lines the loop over the lines goes on. -/
def GoesOn (loads : String → Option Json) (lines : List String) (yielded : List BackendChunk)
    (receivedAny : Bool) : Prop :=
  ∀ broken rest, readLines loads broken false (lines ++ rest) =
    { readLines loads broken receivedAny rest with
      yielded := yielded ++ (readLines loads broken receivedAny rest).yielded }

/-- What the lines heard say of where the generator is. -/
def HeardAt (loads : String → Option Json) (lines : List String) (g : ChunkGenerator) : Prop :=
  match g.pc with
  | .created => g.yielded = []
  | .opening _ => g.yielded = []
  | .refused _ _ => g.yielded = []
  | .reading _ receivedAny =>
    GoesOn loads lines g.yielded receivedAny ∧ (receivedAny = false → g.yielded = [])
  | .suspended _ chunk => GoesOn loads lines g.yielded true ∧ ∃ before, g.yielded = before ++ [chunk]
  | .closing _ receivedAny leaving =>
    (receivedAny = false → g.yielded = []) ∧
      (leaving = .returns → (readLines loads none false lines).result = .ok ())
  | .finished result => result = .ok () → (readLines loads none false lines).result = .ok ()
  | .exited _ => True

structure Heard (loads : String → Option Json) (lines : List String) (g : ChunkGenerator) :
    Prop where
  yields : g.yielded = (readLines loads none false lines).yielded
  here : HeardAt loads lines g

section

variable {lines : List String} {yielded : List BackendChunk} {line : String}

theorem GoesOn.nil : GoesOn loads [] [] false := fun _ _ => rfl

theorem GoesOn.run (h : GoesOn loads lines yielded receivedAny) :
    readLines loads none false lines = ⟨yielded, receivedAny, .ok ()⟩ := by
  have hrun := h none []
  simpa [readLines] using hrun

/-- The run with one line more. -/
theorem GoesOn.more (h : GoesOn loads lines yielded receivedAny) (line : String) :
    readLines loads none false (lines ++ [line]) =
      { readLines loads none receivedAny [line] with
        yielded := yielded ++ (readLines loads none receivedAny [line]).yielded } :=
  h none [line]

/-- A line after which the loop goes on. -/
theorem GoesOn.snoc {more : List BackendChunk} {receivedAny' : Bool}
    (h : GoesOn loads lines yielded receivedAny)
    (hline : ∀ broken rest, readLines loads broken receivedAny (line :: rest) =
      { readLines loads broken receivedAny' rest with
        yielded := more ++ (readLines loads broken receivedAny' rest).yielded }) :
    GoesOn loads (lines ++ [line]) (yielded ++ more) receivedAny' := by
  intro broken rest
  rw [List.append_assoc, List.singleton_append, h broken (line :: rest), hline broken rest,
    List.append_assoc]

theorem raise_yielded (g : ChunkGenerator) (left : Nat) (receivedAny : Bool) (r : Raised) :
    (g.raise left receivedAny r).yielded = g.yielded := by
  rcases raise_cases g left receivedAny r with ⟨e, hraise⟩ | ⟨-, n, hraise⟩
  · rw [hraise]
  · rw [hraise]
    rfl

theorem heard_raise (hyields : g.yielded = (readLines loads none false lines).yielded)
    (hnone : receivedAny = false → g.yielded = []) (left : Nat) (r : Raised) :
    Heard loads lines (g.raise left receivedAny r) := by
  rcases raise_cases g left receivedAny r with ⟨e, hraise⟩ | ⟨hreceived, n, hraise⟩
  · rw [hraise]
    exact ⟨hyields, fun h => by cases h⟩
  · rw [hraise]
    exact ⟨hyields, hnone hreceived⟩

theorem heard_exiting (h : Heard loads lines g) (leaving : Leaving) :
    Heard loads lines (exiting leaving g) := by
  rcases exiting_cases leaving g with hsame | ⟨result, -, hexited⟩
  · rwa [hsame]
  · rw [hexited]
    exact ⟨h.yields, trivial⟩

theorem heard_readLine (hgoes : GoesOn loads lines g.yielded receivedAny)
    (hnone : receivedAny = false → g.yielded = []) (hpc : g.pc = .reading left receivedAny)
    (line : String) : Heard loads (lines ++ [line]) (g.readLine loads left receivedAny line) := by
  have hmore := hgoes.more line
  by_cases hdata : Text.startsWith line "data: " = true
  · by_cases hdone : Text.removeLeading line "data: " = "[DONE]"
    · simp only [readLines, hdata, hdone, Bool.not_true, Bool.false_eq_true, if_false, if_true,
        List.append_nil] at hmore
      simp only [readLine, hdata, hdone, Bool.not_true, Bool.false_eq_true, if_false, if_true]
      exact ⟨by rw [hmore], hnone, fun _ => by rw [hmore]⟩
    · cases hloads : loads (Text.removeLeading line "data: ") with
      | none =>
        simp only [readLines, hdata, hdone, hloads, Bool.not_true, Bool.false_eq_true, if_false,
          List.append_nil] at hmore
        simp only [readLine, hdata, hdone, hloads, Bool.not_true, Bool.false_eq_true, if_false]
        exact ⟨by rw [hmore], hnone, fun h => by cases h⟩
      | some parsed =>
        cases hparse : parseChunk parsed with
        | error e =>
          simp only [readLines, hdata, hdone, hloads, hparse, Bool.not_true, Bool.false_eq_true,
            if_false, List.append_nil] at hmore
          simp only [readLine, hdata, hdone, hloads, hparse, Bool.not_true, Bool.false_eq_true,
            if_false]
          refine ⟨by rw [hmore], fun h => hnone ?_, fun h => by cases h⟩
          exact (Bool.or_eq_false_iff.mp h).1
        | ok chunk =>
          cases chunk with
          | none =>
            have hgoes' : GoesOn loads (lines ++ [line]) g.yielded receivedAny := by
              have hsnoc : GoesOn loads (lines ++ [line]) (g.yielded ++ []) receivedAny :=
                hgoes.snoc fun broken rest => by
                  simp only [readLines, hdata, hdone, hloads, hparse, Bool.not_true,
                    Bool.false_eq_true, if_false, List.nil_append]
              simpa using hsnoc
            simp only [readLine, hdata, hdone, hloads, hparse, Bool.not_true, Bool.false_eq_true,
              if_false]
            refine ⟨by rw [hgoes'.run], ?_⟩
            simp only [HeardAt, hpc]
            exact ⟨hgoes', hnone⟩
          | some chunk =>
            have hgoes' : GoesOn loads (lines ++ [line]) (g.yielded ++ [chunk]) true :=
              hgoes.snoc fun broken rest => by
                simp only [readLines, hdata, hdone, hloads, hparse, Bool.not_true,
                  Bool.false_eq_true, if_false, List.singleton_append]
            simp only [readLine, hdata, hdone, hloads, hparse, Bool.not_true, Bool.false_eq_true,
              if_false]
            exact ⟨by rw [hgoes'.run], hgoes', g.yielded, rfl⟩
  · have hgoes' : GoesOn loads (lines ++ [line]) g.yielded receivedAny := by
      have hsnoc : GoesOn loads (lines ++ [line]) (g.yielded ++ []) receivedAny :=
        hgoes.snoc fun broken rest => by
          simp only [readLines, hdata, Bool.not_false, if_true, List.nil_append]
      simpa using hsnoc
    simp only [readLine, hdata, Bool.not_false, if_true]
    refine ⟨by rw [hgoes'.run], ?_⟩
    simp only [HeardAt, hpc]
    exact ⟨hgoes', hnone⟩

theorem heard_answer {a : HttpAnswer} (h : Heard loads lines g)
    (hanswer : g.answer loads a = some g') : Heard loads (hearing lines a) g' := by
  obtain ⟨hyields, hhere⟩ := h
  unfold HeardAt at hhere
  cases answer_cases hanswer with
  | failed here =>
    -- the lines of a response before are forgotten: they have yielded nothing
    simp only [here] at hhere
    have hyields : g.yielded = (readLines loads none false []).yielded := hhere
    exact heard_raise (g := { g with closed := g.closed + 1 }) hyields (fun _ => hhere) _ _
  | refused here =>
    simp only [here] at hhere
    exact ⟨hhere, hhere⟩
  | accepted here =>
    simp only [here] at hhere
    refine ⟨hhere, ?_, fun _ => hhere⟩
    simp only [hhere]
    exact GoesOn.nil
  | body here =>
    simp only [here] at hhere
    exact ⟨hyields, fun _ => hhere, fun h => by cases h⟩
  | broken here =>
    simp only [here] at hhere
    exact ⟨hyields, hhere.2, fun h => by cases h⟩
  | ended here =>
    simp only [here] at hhere
    refine ⟨hyields, hhere.2, fun _ => ?_⟩
    simp only [hearing, hhere.1.run]
  | line here =>
    simp only [here] at hhere
    exact heard_readLine hhere.1 hhere.2 here _
  | @closed left receivedAny leaving here =>
    simp only [here] at hhere
    obtain ⟨hnone, hreturns⟩ := hhere
    cases leaving with
    | returns => exact ⟨hyields, fun _ => hreturns rfl⟩
    | exits => exact ⟨hyields, trivial⟩
    | raises r => exact heard_raise (g := { g with closed := g.closed + 1 }) hyields hnone _ _
  | closeFails here =>
    simp only [here] at hhere
    exact heard_exiting
      (heard_raise (g := { g with closed := g.closed + 1 }) hyields hhere.1 _ _) _

theorem heard_anext (h : Heard loads lines g) (maxRetries : Nat) :
    Heard loads lines (g.anext maxRetries) := by
  obtain ⟨hyields, hhere⟩ := h
  unfold anext
  split
  · next hpc =>
    simp only [HeardAt, hpc] at hhere
    exact ⟨hyields, hhere⟩
  · next hpc =>
    simp only [HeardAt, hpc] at hhere
    exact ⟨hyields, hhere.1, fun h => by cases h⟩
  · exact ⟨hyields, hhere⟩

theorem heard_aclose (h : Heard loads lines g) : Heard loads lines g.aclose := by
  obtain ⟨hyields, hhere⟩ := h
  unfold aclose
  split
  · exact ⟨hyields, trivial⟩
  · exact ⟨hyields, (fun h => by cases h), fun h => by cases h⟩
  · exact ⟨hyields, hhere⟩

/-- What has been yielded stays so. -/
theorem yielded_grows {a : HttpAnswer} (hanswer : g.answer loads a = some g') :
    g.yielded <+: g'.yielded := by
  have hraise : ∀ closed left receivedAny r,
      g.yielded <+: ({ g with closed }.raise left receivedAny r).yielded := by
    intro closed left receivedAny r
    rw [raise_yielded]
  cases answer_cases hanswer with
  | failed => exact hraise _ _ _ _
  | refused | accepted | body | broken | ended => exact List.prefix_rfl
  | @line left receivedAny line here =>
    rcases readLine_cases loads g left receivedAny line with hread | ⟨_, _, _, hread⟩ | ⟨_, hread⟩
    · rw [hread]
    · rw [hread]
    · rw [hread]
      exact List.prefix_append _ _
  | @closed left receivedAny leaving here =>
    cases leaving with
    | returns | exits => exact List.prefix_rfl
    | raises r => exact hraise _ _ _ _
  | @closeFails left receivedAny leaving e here =>
    rcases exiting_cases leaving ({ g with closed := g.closed + 1 }.raise left receivedAny (.http e))
      with hsame | ⟨result, -, hexited⟩
    · rw [hsame]
      exact hraise _ _ _ _
    · rw [hexited]
      exact hraise _ _ _ _

end

end ChunkGenerator

end LlmHomeLab
