import LlmHomeLab.Lib.Runs

/-! # Streams that own a slot

`SlotStream` of `api/lifetime.py`, under any overlap of calls. The calls of one stream meet only
where one of them waits for the generator, so a step here is a call up to that point, or what the
generator does next. `_closed` is tested before the wait and set after it.
-/

namespace LlmHomeLab

/-! ## Model -/

inductive StreamExn where
  | stopAsyncIteration
  | runtimeError
  /-- Whatever else the generator raises, a cancellation included. -/
  | other
deriving DecidableEq, Repr

/-- The call the generator is running for. -/
inductive StreamCall where
  | anext
  | aclose
deriving DecidableEq, Repr

/-- An async generator: before its first step, at a `yield`, driven by a call, or at its end, with
its cleanup behind it. -/
inductive Generator where
  | created
  | suspended
  | running (call : StreamCall)
  | finished
deriving DecidableEq, Repr

/-- How a call ended. -/
inductive StreamOutcome where
  | returned (chunk : String)
  | raised (e : StreamExn)
  | closed (e : Option StreamExn)
deriving DecidableEq, Repr

/-- The call has closed the stream, or ended its iteration. -/
def StreamOutcome.final : StreamOutcome → Bool
  | .returned _ => false
  | _ => true

/-- The stream, with a record of its releases and of the calls that have ended. -/
structure SlotStream where
  chunks : Generator := .created
  closed : Bool := false
  releases : Nat := 0
  /-- A release ran while the generator still had cleanup to do. -/
  early : Bool := false
  outcomes : List StreamOutcome := []
deriving DecidableEq, Repr

/-- A call starts, or the generator that is running yields, returns or raises. -/
inductive StreamEvent where
  | anext
  | aclose
  | yields (chunk : String)
  | returns
  | raises
deriving DecidableEq, Repr

namespace SlotStream

/-- The `finally` of `aclose`. -/
def release (s : SlotStream) : SlotStream :=
  { s with
    closed := true
    releases := s.releases + 1
    early := s.early || s.chunks ≠ .finished }

def ended (s : SlotStream) (outcome : StreamOutcome) : SlotStream :=
  { s with outcomes := s.outcomes ++ [outcome] }

/-- `aclose`: what it ends with, unless it waits for the cleanup of the generator. -/
def aclose (s : SlotStream) : Option (Option StreamExn) × SlotStream :=
  if s.closed then (some none, s)
  else
    match s.chunks with
    | .running _ => (some (some .runtimeError), s.release)
    | .suspended => (none, { s with chunks := .running .aclose })
    | .created => (some none, { s with chunks := .finished }.release)
    | .finished => (some none, s.release)

/-- The `except` of `__anext__`. The generator has raised, and so is at its end, or it is running
for another call: `aclose` does not wait. -/
def failAnext (s : SlotStream) (e : StreamExn) : SlotStream :=
  match s.aclose with
  | (some none, s) => s.ended (.raised e)
  | (some (some e'), s) => s.ended (.raised e')
  | (none, s) => s

/-- `__anext__`, up to the generator. -/
def startAnext (s : SlotStream) : SlotStream :=
  if s.closed then s.ended (.raised .stopAsyncIteration)
  else
    match s.chunks with
    | .running _ => s.failAnext .runtimeError
    | .finished => s.failAnext .stopAsyncIteration
    | .created => { s with chunks := .running .anext }
    | .suspended => { s with chunks := .running .anext }

def startAclose (s : SlotStream) : SlotStream :=
  match s.aclose with
  | (some result, s) => s.ended (.closed result)
  | (none, s) => s

/-- The generator has returned or raised. -/
def finish (s : SlotStream) (call : StreamCall) (e : Option StreamExn) : SlotStream :=
  let s := { s with chunks := .finished }
  match call with
  | .anext => s.failAnext (e.getD .stopAsyncIteration)
  | .aclose => s.release.ended (.closed e)

def step (s : SlotStream) : StreamEvent → Option SlotStream
  | .anext => some s.startAnext
  | .aclose => some s.startAclose
  | .yields chunk =>
    match s.chunks with
    | .running .anext => some ({ s with chunks := .suspended }.ended (.returned chunk))
    -- a generator that yields although it is being closed
    | .running .aclose =>
      some ({ s with chunks := .suspended }.release.ended (.closed (some .runtimeError)))
    | _ => none
  | .returns =>
    match s.chunks with
    | .running call => some (s.finish call none)
    | _ => none
  | .raises =>
    match s.chunks with
    | .running call => some (s.finish call (some .other))
    | _ => none

/-! ## Releasing once -/

/-- The slot is released at most once, not before the generator's cleanup is done, and no later
than the first call that closes the stream or ends its iteration. -/
structure Safe (s : SlotStream) : Prop where
  once : s.releases ≤ 1
  afterCleanup : s.early = false
  released : ∀ o ∈ s.outcomes, o.final = true → s.releases = 1

/-- No call starts while the generator is running for another one, unless the stream is closed
already, and the generator does not yield while it is being closed. -/
def Orderly (s : SlotStream) : StreamEvent → Prop
  | .anext => s.closed = true ∨ ∀ call, s.chunks ≠ .running call
  | .aclose => s.closed = true ∨ ∀ call, s.chunks ≠ .running call
  | .yields _ => s.chunks ≠ .running .aclose
  | _ => True

/-- What orderly steps keep: the stream is closed exactly if the slot has been released, and the
generator is then at its end. -/
structure Tidy (s : SlotStream) : Prop where
  releases : s.releases = if s.closed then 1 else 0
  afterCleanup : s.early = false
  finished : s.closed = true → s.chunks = .finished
  notFinal : s.closed = false → ∀ o ∈ s.outcomes, o.final = false

variable {s s' : SlotStream} {e : StreamEvent} {es : List StreamEvent}

theorem Tidy.safe (h : Tidy s) : Safe s := by
  have hreleases := h.releases
  constructor
  · split at hreleases <;> omega
  · exact h.afterCleanup
  · intro o ho hfinal
    cases hclosed : s.closed with
    | true => rw [hreleases, if_pos hclosed]
    | false =>
      rw [h.notFinal hclosed o ho] at hfinal
      cases hfinal

theorem tidy_start : Tidy {} where
  releases := rfl
  afterCleanup := rfl
  finished h := by cases h
  notFinal _ o ho := by cases ho

/-- Ending a call of a closed stream. -/
theorem Tidy.ended (h : Tidy s) (hclosed : s.closed = true) (o : StreamOutcome) :
    Tidy (s.ended o) := by
  refine ⟨h.releases, h.afterCleanup, h.finished, ?_⟩
  intro hopen
  rw [show s.closed = false from hopen] at hclosed
  cases hclosed

/-- The one release of an open stream whose generator is at its end. -/
theorem Tidy.release (h : Tidy s) (hopen : s.closed = false) :
    Tidy { s with chunks := .finished }.release := by
  have hreleases := h.releases
  rw [hopen] at hreleases
  constructor
  · simp [SlotStream.release, hreleases]
  · simp [SlotStream.release, h.afterCleanup]
  · intro _
    rfl
  · intro hc
    cases hc

/-- An `__anext__` whose generator is at its end closes the stream. -/
theorem Tidy.failAnext (h : Tidy s) (hopen : s.closed = false) (e : StreamExn) :
    Tidy ({ s with chunks := .finished }.failAnext e) := by
  have hrelease := h.release hopen
  unfold SlotStream.failAnext SlotStream.aclose
  rw [if_neg (by simp [hopen])]
  exact hrelease.ended rfl _

/-- The generator of an open stream is set going. -/
theorem Tidy.started (h : Tidy s) (hopen : s.closed = false) (call : StreamCall) :
    Tidy { s with chunks := .running call } := by
  refine ⟨h.releases, h.afterCleanup, ?_, h.notFinal⟩
  intro hc
  rw [show s.closed = true from hc] at hopen
  cases hopen

theorem tidy_aclose (h : Tidy s) (hrun : ∀ call, s.chunks ≠ .running call) :
    Tidy s.startAclose := by
  unfold startAclose aclose
  by_cases hclosed : s.closed = true
  · rw [if_pos hclosed]
    exact h.ended hclosed _
  · rw [if_neg hclosed]
    have hopen : s.closed = false := by simpa using hclosed
    have hrelease := h.release hopen
    cases hchunks : s.chunks with
    | created => exact hrelease.ended rfl _
    | suspended => exact h.started hopen .aclose
    | running call => exact absurd hchunks (hrun call)
    | finished =>
      rw [← hchunks] at hrelease
      exact hrelease.ended rfl _

theorem tidy_anext (h : Tidy s) (hrun : ∀ call, s.chunks ≠ .running call) : Tidy s.startAnext := by
  unfold startAnext
  by_cases hclosed : s.closed = true
  · rw [if_pos hclosed]
    exact h.ended hclosed _
  · rw [if_neg hclosed]
    have hopen : s.closed = false := by simpa using hclosed
    cases hchunks : s.chunks with
    | created => exact h.started hopen .anext
    | suspended => exact h.started hopen .anext
    | running call => exact absurd hchunks (hrun call)
    | finished =>
      have hfail := h.failAnext hopen .stopAsyncIteration
      rw [← hchunks] at hfail
      exact hfail

theorem Tidy.open_of_running (h : Tidy s) {call : StreamCall} (hrun : s.chunks = .running call) :
    s.closed = false := by
  cases hclosed : s.closed with
  | false => rfl
  | true =>
    rw [h.finished hclosed] at hrun
    cases hrun

theorem tidy_finish (h : Tidy s) {call : StreamCall} (hrun : s.chunks = .running call)
    (e : Option StreamExn) : Tidy (s.finish call e) := by
  have hopen := h.open_of_running hrun
  cases call with
  | anext => exact h.failAnext hopen _
  | aclose => exact (h.release hopen).ended rfl _

/-- One orderly step. -/
theorem tidy_step (h : Tidy s) (hord : Orderly s e) (hstep : s.step e = some s') : Tidy s' := by
  cases e with
  | anext =>
    cases hstep
    rcases hord with hclosed | hrun
    · unfold startAnext
      rw [if_pos hclosed]
      exact h.ended hclosed _
    · exact tidy_anext h hrun
  | aclose =>
    cases hstep
    rcases hord with hclosed | hrun
    · unfold startAclose aclose
      rw [if_pos hclosed]
      exact h.ended hclosed _
    · exact tidy_aclose h hrun
  | yields chunk =>
    unfold step at hstep
    simp only at hstep
    split at hstep
    · next hrun =>
      -- the chunk goes to the caller, and the stream stays open
      cases hstep
      have hopen := h.open_of_running hrun
      refine ⟨h.releases, h.afterCleanup, ?_, ?_⟩
      · intro hc
        rw [show s.closed = true from hc] at hopen
        cases hopen
      · intro _ o ho
        rcases List.mem_append.mp ho with ho | ho
        · exact h.notFinal hopen o ho
        · rw [List.mem_singleton.mp ho]
          rfl
    · next hrun => exact absurd hrun hord
    · cases hstep
  | returns =>
    unfold step at hstep
    simp only at hstep
    split at hstep
    · next hrun =>
      cases hstep
      exact tidy_finish h hrun none
    · cases hstep
  | raises =>
    unfold step at hstep
    simp only at hstep
    split at hstep
    · next hrun =>
      cases hstep
      exact tidy_finish h hrun (some .other)
    · cases hstep

/-- A step that is not orderly releases the slot while the generator is not at its end. -/
theorem early_of_disorderly (hord : ¬ Orderly s e) (hstep : s.step e = some s') :
    s'.early = true := by
  cases e with
  | anext =>
    unfold Orderly at hord
    push Not at hord
    rcases hord with ⟨hopen, call, hrun⟩
    -- the generator is running: it cannot be closed, and the slot is released all the same
    cases hstep
    have hfalse : s.closed = false := by simpa using hopen
    simp [startAnext, failAnext, aclose, hfalse, hrun, ended, release]
  | aclose =>
    unfold Orderly at hord
    push Not at hord
    rcases hord with ⟨hopen, call, hrun⟩
    cases hstep
    have hfalse : s.closed = false := by simpa using hopen
    simp [startAclose, aclose, hfalse, hrun, ended, release]
  | yields chunk =>
    unfold Orderly at hord
    push Not at hord
    simp only [step, hord, Option.some.injEq] at hstep
    rw [← hstep]
    simp [ended, release]
  | returns => exact absurd trivial hord
  | raises => exact absurd trivial hord

/-- In a run all of whose steps are orderly the slot is released once, after the cleanup of the
generator; and only in such a run. -/
theorem releases_once_iff (hrun : Run (Fires step) {} es s) :
    (∀ pre post a, es = pre ++ post → Run (Fires step) {} pre a → Safe a) ↔
      ∀ pre e post a, es = pre ++ e :: post → Run (Fires step) {} pre a → Orderly a e := by
  constructor
  · intro hsafe pre e post a hes hpre
    by_contra hord
    subst hes
    rcases Run.split_at hrun with ⟨a', b, hpre', hstep, _⟩
    have hsame : a' = a := Run.unique hpre' hpre
    subst hsame
    have hb := hsafe (pre ++ [e]) post b (by simp) (.snoc hpre hstep)
    have hearly := early_of_disorderly hord hstep
    rw [hb.afterCleanup] at hearly
    cases hearly
  · intro hord pre post a hes hpre
    -- along the prefix, every step is one of the run
    have htidy : ∀ pre' rest, pre = pre' ++ rest → ∀ x, Run (Fires step) {} pre' x → Tidy x := by
      intro pre'
      induction pre' using List.reverseRecOn with
      | nil =>
        intro rest _ x hx
        rw [hx.nil_eq]
        exact tidy_start
      | append_singleton pre' e ih =>
        intro rest heq x hx
        rcases hx.of_snoc with ⟨y, hy, hstep⟩
        have hy' : Tidy y := ih ([e] ++ rest) (by simp [heq]) y hy
        refine tidy_step hy' (hord pre' e (rest ++ post) y ?_ hy) hstep
        simp [hes, heq]
    exact (htidy pre [] (by simp) a hpre).safe

/-- A stream closed twice, one call after the other. -/
def closedTwice : List StreamEvent := [.anext, .yields "chunk", .aclose, .returns, .aclose]

theorem releases_once_closedTwice :
    ∃ s, Run (Fires step) {} closedTwice s ∧ s.releases = 1 ∧
      ((∀ pre post a, closedTwice = pre ++ post → Run (Fires step) {} pre a → Safe a) ↔
        ∀ pre e post a, closedTwice = pre ++ e :: post → Run (Fires step) {} pre a →
          Orderly a e) := by
  have hexec : (exec step {} closedTwice).map SlotStream.releases = some 1 := by decide +kernel
  rcases run_of_shows hexec with ⟨s, hrun, hreleases⟩
  exact ⟨s, hrun, hreleases, releases_once_iff hrun⟩

/-- The second `aclose` starts while the first still waits for the cleanup of the generator. -/
theorem released_twice_overlapping :
    ∃ s, Run (Fires step) {} [.anext, .yields "chunk", .aclose, .aclose, .returns] s ∧
      s.early = true ∧ s.releases = 2 ∧ ¬ Safe s := by
  have hexec : (exec step {} [.anext, .yields "chunk", .aclose, .aclose, .returns]).map
      (fun s => (s.early, s.releases)) = some (true, 2) := by decide +kernel
  rcases run_of_shows hexec with ⟨s, hrun, hshown⟩
  have hreleases : s.releases = 2 := congrArg Prod.snd hshown
  refine ⟨s, hrun, congrArg Prod.fst hshown, hreleases, ?_⟩
  intro hsafe
  have honce := hsafe.once
  omega

end SlotStream

end LlmHomeLab
