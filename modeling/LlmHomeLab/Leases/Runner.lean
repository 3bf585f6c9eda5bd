import LlmHomeLab.Lib.Runs

/-! # The lease wrapper

`run_leased` of `leases/runner.py`, with the thread that sends its heartbeats. A step is a blocking
call of the main thread, with what comes out of it, or a step of the other thread, and the two come
in any order. The main thread reads the flag `lost` right before it returns.
-/

namespace LlmHomeLab

/-! ## Model -/

def exitRefused : Int := 2
def exitUnreachable : Int := 3
def exitLost : Int := 4

/-- The result where the command cannot be started. -/
def exitNotStarted : Int := 127

/-- What `run_leased` lets through. -/
inductive WrapperError where
  | keyboardInterrupt
  | exception (name : String)
deriving DecidableEq, Repr

inductive ReserveOutcome where
  | granted (token : String)
  | refused
  | unreachable
  | raised (e : WrapperError)
deriving DecidableEq, Repr

/-- `OSError` is the only exception that is caught. -/
inductive PopenOutcome where
  | process
  | osError
  | raised (e : WrapperError)
deriving DecidableEq, Repr

/-- A negative code is that of a signal. -/
inductive WaitOutcome where
  | exited (code : Int)
  | keyboardInterrupt
  | timeoutExpired
deriving DecidableEq, Repr

/-- `join` returns when the thread has ended or its two seconds are over. -/
inductive JoinOutcome where
  | returned
  | keyboardInterrupt
deriving DecidableEq, Repr

inductive ReleaseOutcome where
  | returned
  | unreachable
  | raised (e : WrapperError)
deriving DecidableEq, Repr

inductive HeartbeatOutcome where
  | ok
  | unreachable
  | lost
deriving DecidableEq, Repr

inductive WrapperEvent where
  | reserve (outcome : ReserveOutcome)
  | popen (outcome : PopenOutcome)
  | wait (outcome : WaitOutcome)
  | join (outcome : JoinOutcome)
  | release (outcome : ReleaseOutcome)
  | readLost
  | heartbeatDue
  | heartbeat (outcome : HeartbeatOutcome)
  | beaterStops
deriving DecidableEq, Repr

/-- What is left to do once the lease is released. -/
inductive Ending where
  | notStarted
  | exited (code : Int)
  | raising (e : WrapperError)
deriving DecidableEq, Repr

/-- The code of the command, if it has ended. -/
def Ending.code : Ending → Option Int
  | .exited code => some code
  | _ => none

/-- The call the main thread is blocked in: the three `wait`s are those of `_wait_for`. -/
inductive WrapperPc where
  | reserving
  | starting (token : String)
  | waiting (token : String)
  | interrupted (token : String)
  | killed (token : String)
  | joining (token : String) (ending : Ending)
  | releasing (token : String) (ending : Ending)
  | readingLost (code : Int)
  | returned (result : Int)
  | raised (e : WrapperError)
deriving DecidableEq, Repr

inductive BeaterPc where
  | off
  | sleeping
  | calling
  | ended
deriving DecidableEq, Repr

/-- `released` are the tokens `api.release` has been called with. -/
structure Wrapper where
  pc : WrapperPc
  beater : BeaterPc := .off
  lost : Bool := false
  released : List String := []
deriving DecidableEq, Repr

namespace Wrapper

/-- Without a command nothing is reserved. -/
def start (command : List String) : Wrapper :=
  { pc := if command.isEmpty then .returned exitRefused else .reserving }

/-- `stop` is set first thing in the `finally`. -/
def stopSet : WrapperPc → Bool
  | .joining .. | .releasing .. | .readingLost _ | .returned _ | .raised _ => true
  | _ => false

/-- `_wait_for`: the first interrupt is passed on to the command, which then has five seconds. -/
def waitFor : WrapperPc → WaitOutcome → Option WrapperPc
  | .waiting token, .exited code => some (.joining token (.exited code))
  | .waiting token, .keyboardInterrupt => some (.interrupted token)
  | .interrupted token, .exited code => some (.joining token (.exited code))
  | .interrupted token, .timeoutExpired => some (.killed token)
  | .interrupted token, .keyboardInterrupt => some (.joining token (.raising .keyboardInterrupt))
  | .killed token, .exited code => some (.joining token (.exited code))
  | .killed token, .keyboardInterrupt => some (.joining token (.raising .keyboardInterrupt))
  | _, _ => none

/-- The result of a command; one that was killed has 128 and the signal. -/
def shellStatus (code : Int) : Int := if code < 0 then 128 - code else code

/-- After `_release`, where an exception may still be on its way. -/
def goOn : Ending → WrapperPc
  | .notStarted => .returned exitNotStarted
  | .exited code => .readingLost code
  | .raising e => .raised e

/-- `run_leased`, call by call. -/
def nextPc (lost : Bool) : WrapperPc → WrapperEvent → Option WrapperPc
  | .reserving, .reserve (.granted token) => some (.starting token)
  | .reserving, .reserve .refused => some (.returned exitRefused)
  | .reserving, .reserve .unreachable => some (.returned exitUnreachable)
  | .reserving, .reserve (.raised e) => some (.raised e)
  | .starting token, .popen .process => some (.waiting token)
  | .starting token, .popen .osError => some (.releasing token .notStarted)
  | .starting _, .popen (.raised e) => some (.raised e)
  | .joining token ending, .join .returned => some (.releasing token ending)
  | .joining _ _, .join .keyboardInterrupt => some (.raised .keyboardInterrupt)
  | .releasing _ _, .release (.raised e) => some (.raised e)
  | .releasing _ ending, .release _ => some (goOn ending)
  | .readingLost code, .readLost =>
    some (.returned (if lost then exitLost else shellStatus code))
  | pc, .wait outcome => waitFor pc outcome
  | _, _ => none

/-- The token a call of `api.release` is given. -/
def releasedBy : WrapperPc → WrapperEvent → List String
  | .releasing token _, .release _ => [token]
  | _, _ => []

/-- The thread is started with the command. -/
def beaterAfter (beater : BeaterPc) : WrapperEvent → BeaterPc
  | .popen .process => .sleeping
  | _ => beater

/-- A step of either thread. -/
def step (s : Wrapper) : WrapperEvent → Option Wrapper
  | .heartbeatDue =>
    if s.beater = .sleeping ∧ stopSet s.pc = false then some { s with beater := .calling } else none
  | .heartbeat outcome =>
    if s.beater = .calling then
      some (if outcome = .lost then { s with beater := .ended, lost := true }
        else { s with beater := .sleeping })
    else none
  | .beaterStops =>
    if s.beater = .sleeping ∧ stopSet s.pc = true then some { s with beater := .ended } else none
  | event => (nextPc s.lost s.pc event).map fun pc =>
    { s with
      pc
      beater := beaterAfter s.beater event
      released := s.released ++ releasedBy s.pc event }

/-! ## Statement -/

/-- `run_leased` has returned or raised. -/
def Ended (s : Wrapper) : Prop := (∃ result, s.pc = .returned result) ∨ ∃ e, s.pc = .raised e

/-- The lease that was granted is released once, the result is that of the command unless a
heartbeat found the lease lost, and without a lease nothing is started or released. -/
structure AlwaysReleases (es : List WrapperEvent) (s : Wrapper) : Prop where
  once : ∀ token, .reserve (.granted token) ∈ es → s.released = [token]
  result : ∀ code, .wait (.exited code) ∈ es → ∀ result, s.pc = .returned result →
    result = if .heartbeat .lost ∈ es then exitLost else shellStatus code
  notStarted : .reserve .refused ∈ es ∨ .reserve .unreachable ∈ es →
    s.released = [] ∧ ∀ outcome, .popen outcome ∉ es

/-- `popen` raises nothing but `OSError`, no interrupt hits the `join`, and a heartbeat that finds
the lease lost comes back before the flag is read. -/
structure Undisturbed (es : List WrapperEvent) : Prop where
  popen : ∀ e, .popen (.raised e) ∉ es
  join : .join .keyboardInterrupt ∉ es
  inTime : ∀ before after, es = before ++ .readLost :: after → .heartbeat .lost ∈ after →
    .heartbeat .lost ∉ before → ∀ code, .wait (.exited code) ∈ es → shellStatus code = exitLost

/-! ## Steps of the main thread -/

/-- An event of the main thread. -/
def isMain : WrapperEvent → Bool
  | .heartbeatDue | .heartbeat _ | .beaterStops => false
  | _ => true

/-- The main thread waits for the command. -/
inductive Waits (token : String) : WrapperPc → Prop
  | waiting : Waits token (.waiting token)
  | interrupted : Waits token (.interrupted token)
  | killed : Waits token (.killed token)

section

variable {lost : Bool} {pc pc' : WrapperPc} {s t : Wrapper} {es : List WrapperEvent}
  {e : WrapperEvent} {token : String}

theorem step_cases (h : step s e = some t) :
    (isMain e = false ∧ t.pc = s.pc ∧ t.released = s.released ∧
      (t.lost = true ↔ s.lost = true ∨ e = .heartbeat .lost)) ∨
    (isMain e = true ∧ nextPc s.lost s.pc e = some t.pc ∧
      t.released = s.released ++ releasedBy s.pc e ∧ t.lost = s.lost) := by
  cases e with
  | heartbeatDue =>
    left
    simp only [step, Option.ite_none_right_eq_some, Option.some.injEq] at h
    obtain ⟨-, rfl⟩ := h
    simp [isMain]
  | heartbeat outcome =>
    left
    simp only [step, Option.ite_none_right_eq_some, Option.some.injEq] at h
    obtain ⟨-, rfl⟩ := h
    cases outcome <;> simp [isMain]
  | beaterStops =>
    left
    simp only [step, Option.ite_none_right_eq_some, Option.some.injEq] at h
    obtain ⟨-, rfl⟩ := h
    simp [isMain]
  | _ =>
    right
    simp only [step, Option.map_eq_some_iff] at h
    obtain ⟨pc, hpc, rfl⟩ := h
    exact ⟨rfl, hpc, rfl, rfl⟩

theorem waitFor_cases {outcome : WaitOutcome} (h : waitFor pc outcome = some pc') :
    ∃ token, Waits token pc ∧
      ((∃ code, outcome = .exited code ∧ pc' = .joining token (.exited code)) ∨
        ((∀ code, outcome ≠ .exited code) ∧
          (Waits token pc' ∨ pc' = .joining token (.raising .keyboardInterrupt)))) := by
  cases pc with
  | waiting token =>
    refine ⟨token, .waiting, ?_⟩
    cases outcome <;> cases h
    · exact Or.inl ⟨_, rfl, rfl⟩
    · exact Or.inr ⟨by simp, Or.inl .interrupted⟩
  | interrupted token =>
    refine ⟨token, .interrupted, ?_⟩
    cases outcome <;> cases h
    · exact Or.inl ⟨_, rfl, rfl⟩
    · exact Or.inr ⟨by simp, Or.inr rfl⟩
    · exact Or.inr ⟨by simp, Or.inl .killed⟩
  | killed token =>
    refine ⟨token, .killed, ?_⟩
    cases outcome <;> cases h
    · exact Or.inl ⟨_, rfl, rfl⟩
    · exact Or.inr ⟨by simp, Or.inr rfl⟩
  | _ => cases h

/-! ## Where the main thread is -/

/-- An event that neither grants a lease, nor ends the command, nor keeps the lease from being
released. -/
def plain : WrapperEvent → Bool
  | .reserve _ | .popen (.raised _) | .wait (.exited _) | .join .keyboardInterrupt => false
  | _ => true

/-- So far this lease was granted, nothing has kept it from being released, and the command has
ended with `exit`, if it has. -/
structure During (es : List WrapperEvent) (token : String) (exit : Option Int) : Prop where
  granted : .reserve (.granted token) ∈ es
  only : ∀ outcome, .reserve outcome ∈ es → outcome = .granted token
  popen : ∀ e, .popen (.raised e) ∉ es
  join : .join .keyboardInterrupt ∉ es
  exits : ∀ code, .wait (.exited code) ∈ es ↔ exit = some code

/-- No lease has been asked for, or none was granted. -/
def NoLease (es : List WrapperEvent) : Prop :=
  ∀ e ∈ es, isMain e = true → ∃ outcome, e = .reserve outcome ∧ ∀ token, outcome ≠ .granted token

/-- `popen` has raised, or the `join`, and the lease is not released. -/
def Broken (es : List WrapperEvent) (token : String) : Prop :=
  .reserve (.granted token) ∈ es ∧
    ((∃ e, .popen (.raised e) ∈ es) ∨ .join .keyboardInterrupt ∈ es)

/-- The flag has been read, and then the result is this. -/
def ReadFlag (es : List WrapperEvent) (code result : Int) : Prop :=
  ∃ before after, es = before ++ .readLost :: after ∧ .readLost ∉ before ∧ .readLost ∉ after ∧
    result = if .heartbeat .lost ∈ before then exitLost else shellStatus code

def Phase (es : List WrapperEvent) (released : List String) : WrapperPc → Prop
  | .reserving => (∀ e ∈ es, isMain e = false) ∧ released = []
  | .starting token | .waiting token | .interrupted token | .killed token =>
    During es token none ∧ .readLost ∉ es ∧ released = []
  | .joining token ending | .releasing token ending =>
    During es token ending.code ∧ .readLost ∉ es ∧ released = []
  | .readingLost code =>
    ∃ token, During es token (some code) ∧ .readLost ∉ es ∧ released = [token]
  | .returned result => (NoLease es ∧ released = []) ∨ ∃ token, released = [token] ∧
      (During es token none ∨ ∃ code, During es token (some code) ∧ ReadFlag es code result)
  | .raised _ => (NoLease es ∧ released = []) ∨ ∃ token,
      (released = [token] ∧ .readLost ∉ es ∧ ∃ exit, During es token exit) ∨
        (released = [] ∧ Broken es token)

theorem plain_of_not_isMain (h : isMain e = false) : plain e = true ∧ e ≠ .readLost := by
  cases e <;> simp_all [isMain, plain]

theorem unread_snoc (h : .readLost ∉ es) (he : e ≠ .readLost) : .readLost ∉ es ++ [e] := by
  rw [List.mem_append, List.mem_singleton, not_or]
  exact ⟨h, he.symm⟩

theorem During.snoc {exit : Option Int} (h : During es token exit) (he : plain e = true) :
    During (es ++ [e]) token exit := by
  have hold : ∀ event, plain event = false → (event ∈ es ++ [e] ↔ event ∈ es) := by
    intro event hevent
    rw [List.mem_append, List.mem_singleton, or_iff_left]
    rintro rfl
    rw [he] at hevent
    cases hevent
  refine ⟨List.mem_append_left _ h.granted, ?_, ?_, ?_, ?_⟩
  · intro outcome
    rw [hold _ rfl]
    exact h.only outcome
  · intro e'
    rw [hold _ rfl]
    exact h.popen e'
  · rw [hold _ rfl]
    exact h.join
  · intro code
    rw [hold _ rfl]
    exact h.exits code

theorem During.granted_snoc (h : ∀ e ∈ es, isMain e = false) :
    During (es ++ [.reserve (.granted token)]) token none := by
  have hold : ∀ event : WrapperEvent, isMain event = true → event ≠ .reserve (.granted token) →
      event ∉ es ++ [.reserve (.granted token)] := by
    intro event hmain hne hmem
    rcases List.mem_append.mp hmem with hmem | hmem
    · rw [h event hmem] at hmain
      cases hmain
    · exact hne (List.mem_singleton.mp hmem)
  refine ⟨by simp, ?_, fun e => hold _ rfl (by simp), hold _ rfl (by simp), fun code => ?_⟩
  · intro outcome houtcome
    by_contra hne
    exact hold (.reserve outcome) rfl (by simpa using hne) houtcome
  · exact iff_of_false (hold _ rfl (by simp)) (by simp)

theorem During.exited_snoc {code : Int} (h : During es token none) :
    During (es ++ [WrapperEvent.wait (.exited code)]) token (some code) := by
  refine ⟨List.mem_append_left _ h.granted, ?_, ?_, ?_, ?_⟩
  · intro outcome houtcome
    exact h.only outcome (by simpa using houtcome)
  · intro e he
    exact h.popen e (by simpa using he)
  · intro hjoin
    exact h.join (by simpa using hjoin)
  · intro code'
    have hnone : .wait (.exited code') ∉ es := fun hmem => by
      have := (h.exits code').mp hmem
      cases this
    simp [hnone, eq_comm]

theorem NoLease.snoc (h : NoLease es) (he : isMain e = true →
    ∃ outcome, e = .reserve outcome ∧ ∀ token, outcome ≠ .granted token) : NoLease (es ++ [e]) := by
  intro event hmem hmain
  rcases List.mem_append.mp hmem with hmem | hmem
  · exact h event hmem hmain
  · cases List.mem_singleton.mp hmem
    exact he hmain

theorem noLease_of_not_isMain (h : ∀ e ∈ es, isMain e = false) : NoLease es := by
  intro e he hmain
  rw [h e he] at hmain
  cases hmain

theorem Broken.snoc (h : Broken es token) : Broken (es ++ [e]) token := by
  obtain ⟨hgranted, hbroken⟩ := h
  refine ⟨List.mem_append_left _ hgranted, ?_⟩
  rcases hbroken with ⟨e', he'⟩ | hjoin
  · exact Or.inl ⟨e', List.mem_append_left _ he'⟩
  · exact Or.inr (List.mem_append_left _ hjoin)

/-- The other thread does not change where the main thread is. -/
theorem Phase.snoc {released : List String} (h : Phase es released pc) (he : isMain e = false) :
    Phase (es ++ [e]) released pc := by
  obtain ⟨hplain, hread⟩ := plain_of_not_isMain he
  cases pc with
  | reserving =>
    refine ⟨fun event hmem => ?_, h.2⟩
    rcases List.mem_append.mp hmem with hmem | hmem
    · exact h.1 event hmem
    · rwa [List.mem_singleton.mp hmem]
  | starting token => exact ⟨h.1.snoc hplain, unread_snoc h.2.1 hread, h.2.2⟩
  | waiting token => exact ⟨h.1.snoc hplain, unread_snoc h.2.1 hread, h.2.2⟩
  | interrupted token => exact ⟨h.1.snoc hplain, unread_snoc h.2.1 hread, h.2.2⟩
  | killed token => exact ⟨h.1.snoc hplain, unread_snoc h.2.1 hread, h.2.2⟩
  | joining token ending => exact ⟨h.1.snoc hplain, unread_snoc h.2.1 hread, h.2.2⟩
  | releasing token ending => exact ⟨h.1.snoc hplain, unread_snoc h.2.1 hread, h.2.2⟩
  | readingLost code =>
    obtain ⟨token, hduring, hunread, hreleased⟩ := h
    exact ⟨token, hduring.snoc hplain, unread_snoc hunread hread, hreleased⟩
  | returned result =>
    rcases h with ⟨hno, hreleased⟩ | ⟨token, hreleased, hduring | ⟨code, hduring, hflag⟩⟩
    · exact Or.inl ⟨hno.snoc (by simp [he]), hreleased⟩
    · exact Or.inr ⟨token, hreleased, Or.inl (hduring.snoc hplain)⟩
    · obtain ⟨before, after, rfl, hbefore, hafter, hresult⟩ := hflag
      refine Or.inr ⟨token, hreleased, Or.inr ⟨code, hduring.snoc hplain, ?_⟩⟩
      exact ⟨before, after ++ [e], by simp, hbefore, unread_snoc hafter hread, hresult⟩
  | raised e' =>
    rcases h with ⟨hno, hreleased⟩ | ⟨token, ⟨hreleased, hunread, exit, hduring⟩ |
      ⟨hreleased, hbroken⟩⟩
    · exact Or.inl ⟨hno.snoc (by simp [he]), hreleased⟩
    · exact Or.inr ⟨token, Or.inl ⟨hreleased, unread_snoc hunread hread, exit, hduring.snoc hplain⟩⟩
    · exact Or.inr ⟨token, Or.inr ⟨hreleased, hbroken.snoc⟩⟩

/-- Each call takes the main thread from one phase to the next. -/
theorem Phase.next {released : List String} (hlost : lost = true ↔ .heartbeat .lost ∈ es)
    (h : Phase es released pc) (hnext : nextPc lost pc e = some pc') :
    Phase (es ++ [e]) (released ++ releasedBy pc e) pc' := by
  cases e with
  | reserve outcome =>
    cases pc <;> try (cases hnext)
    obtain ⟨hnone, rfl⟩ := h
    cases outcome <;> cases hnext
    · have hunread : .readLost ∉ es := fun hmem => Bool.noConfusion (hnone _ hmem)
      exact ⟨.granted_snoc hnone, unread_snoc hunread (by simp), rfl⟩
    · exact Or.inl ⟨(noLease_of_not_isMain hnone).snoc (by simp), rfl⟩
    · exact Or.inl ⟨(noLease_of_not_isMain hnone).snoc (by simp), rfl⟩
    · exact Or.inl ⟨(noLease_of_not_isMain hnone).snoc (by simp), rfl⟩
  | popen outcome =>
    cases pc <;> try (cases hnext)
    obtain ⟨hduring, hunread, rfl⟩ := h
    cases outcome <;> cases hnext
    · exact ⟨hduring.snoc rfl, unread_snoc hunread (by simp), rfl⟩
    · exact ⟨hduring.snoc rfl, unread_snoc hunread (by simp), rfl⟩
    · exact Or.inr ⟨_, Or.inr ⟨rfl, List.mem_append_left _ hduring.granted,
        Or.inl ⟨_, List.mem_append_right _ (List.mem_singleton_self _)⟩⟩⟩
  | wait outcome =>
    have hwait : waitFor pc outcome = some pc' := by
      cases pc <;> exact hnext
    obtain ⟨token, hwaits, hcases⟩ := waitFor_cases hwait
    have hstill : During es token none ∧ .readLost ∉ es ∧ released = [] := by
      cases hwaits <;> exact h
    have hnothing : releasedBy pc (.wait outcome) = [] := by
      cases hwaits <;> rfl
    obtain ⟨hduring, hunread, rfl⟩ := hstill
    have hunread' : .readLost ∉ es ++ [.wait outcome] := unread_snoc hunread (by simp)
    rw [hnothing]
    rcases hcases with ⟨code, rfl, rfl⟩ | ⟨hrunning, hwaits' | rfl⟩
    · exact ⟨hduring.exited_snoc, hunread', rfl⟩
    · have hduring' := hduring.snoc (e := .wait outcome) (by cases outcome <;> simp_all [plain])
      cases hwaits' <;> exact ⟨hduring', hunread', rfl⟩
    · exact ⟨hduring.snoc (by cases outcome <;> simp_all [plain]), hunread', rfl⟩
  | join outcome =>
    cases pc <;> try (cases hnext)
    obtain ⟨hduring, hunread, rfl⟩ := h
    cases outcome <;> cases hnext
    · exact ⟨hduring.snoc rfl, unread_snoc hunread (by simp), rfl⟩
    · exact Or.inr ⟨_, Or.inr ⟨rfl, List.mem_append_left _ hduring.granted, Or.inr (by simp)⟩⟩
  | release outcome =>
    cases pc <;> try (cases hnext)
    next token ending =>
    obtain ⟨hduring, hunread, rfl⟩ := h
    have hduring' : During (es ++ [.release outcome]) token ending.code := hduring.snoc rfl
    have hunread' : .readLost ∉ es ++ [.release outcome] := unread_snoc hunread (by simp)
    have hgoOn : Phase (es ++ [.release outcome]) [token] (goOn ending) := by
      cases ending with
      | notStarted => exact Or.inr ⟨token, rfl, Or.inl hduring'⟩
      | exited code => exact ⟨token, hduring', hunread', rfl⟩
      | raising e => exact Or.inr ⟨token, Or.inl ⟨rfl, hunread', _, hduring'⟩⟩
    cases outcome <;> cases hnext
    · exact hgoOn
    · exact hgoOn
    · exact Or.inr ⟨token, Or.inl ⟨rfl, hunread', _, hduring'⟩⟩
  | readLost =>
    cases pc <;> try (cases hnext)
    next code =>
    obtain ⟨token, hduring, hunread, rfl⟩ := h
    refine Or.inr ⟨token, rfl, Or.inr ⟨code, hduring.snoc rfl, es, [], rfl, hunread, by simp, ?_⟩⟩
    simp only [hlost]
  | _ => cases pc <;> cases hnext

/-- What holds all along a run. -/
theorem phase_run {command : List String} (hrun : Run (Fires step) (start command) es s) :
    (s.lost = true ↔ .heartbeat .lost ∈ es) ∧ Phase es s.released s.pc := by
  induction hrun with
  | nil =>
    refine ⟨by simp [start], ?_⟩
    unfold start
    split
    · exact Or.inl ⟨fun e he => (by cases he), rfl⟩
    · exact ⟨fun e he => (by cases he), rfl⟩
  | snoc _ hstep ih =>
    obtain ⟨hlost, hphase⟩ := ih
    rcases step_cases hstep with ⟨hmain, hpc, hreleased, hflag⟩ | ⟨hmain, hnext, hreleased, hflag⟩
    · rw [hpc, hreleased]
      refine ⟨?_, hphase.snoc hmain⟩
      rw [hflag, hlost, List.mem_append, List.mem_singleton, eq_comm (a := _)]
    · rw [hreleased]
      refine ⟨?_, hphase.next hlost hnext⟩
      rw [hflag, hlost, List.mem_append, List.mem_singleton, or_iff_left]
      rintro rfl
      cases hmain

/-! ## When the wrapper releases -/

theorem NoLease.alwaysReleases (h : NoLease es) (hreleased : s.released = []) :
    AlwaysReleases es s := by
  refine ⟨?_, ?_, fun _ => ⟨hreleased, ?_⟩⟩
  · intro token hgranted
    obtain ⟨outcome, heq, hnot⟩ := h _ hgranted rfl
    cases heq
    exact absurd rfl (hnot token)
  · intro code hexited
    obtain ⟨outcome, heq, -⟩ := h _ hexited rfl
    cases heq
  · intro outcome hpopen
    obtain ⟨outcome', heq, -⟩ := h _ hpopen rfl
    cases heq

theorem NoLease.undisturbed (h : NoLease es) : Undisturbed es := by
  refine ⟨?_, ?_, ?_⟩
  · intro e hpopen
    obtain ⟨outcome, heq, -⟩ := h _ hpopen rfl
    cases heq
  · intro hjoin
    obtain ⟨outcome, heq, -⟩ := h _ hjoin rfl
    cases heq
  · rintro before after rfl
    obtain ⟨outcome, heq, -⟩ := h .readLost (by simp) rfl
    cases heq

theorem During.refused {exit : Option Int} (h : During es token exit) :
    ¬ (.reserve .refused ∈ es ∨ .reserve .unreachable ∈ es) := by
  rintro (hrefused | hrefused)
  · cases h.only _ hrefused
  · cases h.only _ hrefused

/-- With the lease released, all depends on the result. -/
theorem During.alwaysReleases_iff {exit : Option Int} (h : During es token exit)
    (hreleased : s.released = [token]) :
    AlwaysReleases es s ↔ ∀ code, exit = some code → ∀ result, s.pc = .returned result →
      result = if .heartbeat .lost ∈ es then exitLost else shellStatus code := by
  constructor
  · intro halways code hcode
    exact halways.result code ((h.exits code).mpr hcode)
  · intro hresult
    refine ⟨?_, fun code hcode => hresult code ((h.exits code).mp hcode), fun hrefused => ?_⟩
    · intro token' hgranted
      cases h.only _ hgranted
      exact hreleased
    · exact absurd hrefused h.refused

theorem During.undisturbed_iff {exit : Option Int} (h : During es token exit) :
    Undisturbed es ↔ ∀ before after : List WrapperEvent, es = before ++ .readLost :: after →
      .heartbeat .lost ∈ after → .heartbeat .lost ∉ before → ∀ code, exit = some code →
        shellStatus code = exitLost := by
  constructor
  · intro hundisturbed before after hsplit hafter hbefore code hcode
    exact hundisturbed.inTime before after hsplit hafter hbefore code ((h.exits code).mpr hcode)
  · intro hinTime
    refine ⟨h.popen, h.join, fun before after hsplit hafter hbefore code hcode => ?_⟩
    exact hinTime before after hsplit hafter hbefore code ((h.exits code).mp hcode)

/-- The result is the right one unless the lease is found lost only after the flag was read. -/
theorem ReadFlag.right_iff {code result : Int} (h : ReadFlag es code result) :
    (result = if .heartbeat .lost ∈ es then exitLost else shellStatus code) ↔
      ∀ before after : List WrapperEvent, es = before ++ .readLost :: after →
        .heartbeat .lost ∈ after → .heartbeat .lost ∉ before → shellStatus code = exitLost := by
  obtain ⟨before, after, rfl, hbefore, hafter, rfl⟩ := h
  have hmem : .heartbeat .lost ∈ before ++ .readLost :: after ↔
      .heartbeat .lost ∈ before ∨ .heartbeat .lost ∈ after := by simp
  constructor
  · intro hright before' after' hsplit hlate hnot
    obtain ⟨rfl, -, rfl⟩ := (List.append_cons_inj_of_notMem hbefore hafter).mp hsplit
    rwa [if_neg hnot, if_pos (hmem.mpr (Or.inr hlate))] at hright
  · intro hlate
    by_cases hsoon : .heartbeat .lost ∈ before
    · rw [if_pos hsoon, if_pos (hmem.mpr (Or.inl hsoon))]
    · rw [if_neg hsoon]
      split
      · next hfound => exact hlate before after rfl ((hmem.mp hfound).resolve_left hsoon) hsoon
      · rfl

end

end Wrapper

end LlmHomeLab
