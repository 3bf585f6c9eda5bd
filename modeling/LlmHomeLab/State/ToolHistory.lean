import LlmHomeLab.State.ToolStateStore

/-! # The histories of the tool state store

The readers of `state/tool_state_store.py`, which filter the rows of a session by tool and decode
their payloads, and what they read after any run of the recorders: the store is one log per
session (`append_log`). A payload is kept as the dictionary that was given to `json.dumps`, which
`json.loads` gives back.
-/

namespace LlmHomeLab

/-! ## Model -/

structure TerminalInvocation where
  seq : Int
  command : String
  cwd : String
  exitCode : Int
  output : String
  env : List (String × String)
  runningProcesses : List String
  createdAt : String
deriving DecidableEq, Repr

structure FilesystemInvocation where
  seq : Int
  operation : String
  path : String
  result : String
  createdAt : String
deriving DecidableEq, Repr

structure TerminalState where
  cwd : String
  env : List (String × String)
  runningProcesses : List String
  asOfSeq : Int
deriving DecidableEq, Repr

/-- What a reader raises: an error of the store, or the `KeyError` of a payload without the key. -/
inductive ToolReadError where
  | store (e : StoreError)
  | keyError (key : String)
deriving DecidableEq, Repr

/-- A row of `tool_invocations`, read as a terminal invocation. -/
def ToolRow.terminal (seq : Int) (row : ToolRow) : Except ToolReadError TerminalInvocation :=
  match row.payload with
  | .terminal command cwd exitCode output env runningProcesses =>
    .ok ⟨seq, command, cwd, exitCode, output, env, runningProcesses, row.createdAt⟩
  | .filesystem .. => .error (.keyError "command")

/-- A row of `tool_invocations`, read as a filesystem invocation. -/
def ToolRow.filesystem (seq : Int) (row : ToolRow) : Except ToolReadError FilesystemInvocation :=
  match row.payload with
  | .filesystem operation path result => .ok ⟨seq, operation, path, result, row.createdAt⟩
  | .terminal .. => .error (.keyError "operation")

/-- The last row, read as the state of the terminal. -/
def ToolRow.terminalState (seq : Int) (row : ToolRow) : Except ToolReadError TerminalState :=
  match row.payload with
  | .terminal _ cwd _ _ env runningProcesses => .ok ⟨cwd, env, runningProcesses, seq⟩
  | .filesystem .. => .error (.keyError "cwd")

namespace ToolStateStore

open SeqTable

/-- A store on tables without invocations. -/
def opened (sessions : Dict String String) : ToolStateStore := ⟨sessions, .empty⟩

/-- `SELECT ... WHERE session_id = ? AND tool_id = ? ORDER BY seq`. -/
def readHistoryRows (s : ToolStateStore) (sessionId toolId : String) : List (Int × ToolRow) :=
  ((group s.toolInvocations sessionId).filter fun row => row.2.toolId = toolId).insertionSort
    fun a b => a.1 ≤ b.1

/-- `_require_session` of a reader. -/
def requireRead (s : ToolStateStore) (sessionId : String) : Except ToolReadError Unit :=
  (s.requireSession sessionId).mapError .store

def readTerminalHistory (s : ToolStateStore) (sessionId : String) :
    Except ToolReadError (List TerminalInvocation) := do
  s.requireRead sessionId
  (s.readHistoryRows sessionId "terminal").mapM fun row => row.2.terminal row.1

def readTerminalState (s : ToolStateStore) (sessionId : String) :
    Except ToolReadError (Option TerminalState) := do
  s.requireRead sessionId
  match (s.readHistoryRows sessionId "terminal").getLast? with
  | none => return none
  | some row => return some (← row.2.terminalState row.1)

def readFilesystemHistory (s : ToolStateStore) (sessionId : String) :
    Except ToolReadError (List FilesystemInvocation) := do
  s.requireRead sessionId
  (s.readHistoryRows sessionId "filesystem").mapM fun row => row.2.filesystem row.1

/-- The store after a call; one that raises rolls back. -/
def call (s : ToolStateStore) (c : String × ToolRecord) : ToolStateStore :=
  match s.record c.1 c.2 with
  | .ok s' => s'
  | .error _ => s

def after (s : ToolStateStore) (calls : List (String × ToolRecord)) : ToolStateStore :=
  calls.foldl call s

end ToolStateStore

/-! ## The log of a session -/

/-- The calls on a session, in order. -/
def recordsOf (sessionId : String) (calls : List (String × ToolRecord)) : List ToolRecord :=
  (calls.filter fun c => c.1 = sessionId).map Prod.snd

/-- What a terminal call recorded. -/
def ToolRecord.terminal? (seq : Int) : ToolRecord → Option TerminalInvocation
  | .terminal command cwd exitCode output env runningProcesses createdAt =>
    some ⟨seq, command, cwd, exitCode, output, env, runningProcesses, createdAt⟩
  | .filesystem .. => none

/-- What a filesystem call recorded. -/
def ToolRecord.filesystem? (seq : Int) : ToolRecord → Option FilesystemInvocation
  | .filesystem operation path result createdAt => some ⟨seq, operation, path, result, createdAt⟩
  | .terminal .. => none

/-- The terminal calls of a log, numbered with the others. -/
def terminalInvocations (log : List ToolRecord) : List TerminalInvocation :=
  (SeqTable.numbered log).filterMap fun c => c.2.terminal? c.1

/-- The filesystem calls of a log, numbered with the others. -/
def filesystemInvocations (log : List ToolRecord) : List FilesystemInvocation :=
  (SeqTable.numbered log).filterMap fun c => c.2.filesystem? c.1

/-- The state a terminal invocation leaves. -/
def TerminalInvocation.state (i : TerminalInvocation) : TerminalState :=
  ⟨i.cwd, i.env, i.runningProcesses, i.seq⟩

/-- A session's rows are the log, numbered from 1, and each reader gives its part of it. -/
structure IsAppendLog (s : ToolStateStore) (sessionId : String) (log : List ToolRecord) : Prop where
  seqs : (SeqTable.group s.toolInvocations sessionId).map Prod.fst =
    (List.range log.length).map fun i : Nat => (i : Int) + 1
  rows : (SeqTable.group s.toolInvocations sessionId).map Prod.snd = log.map ToolRecord.row
  terminal : s.readTerminalHistory sessionId = .ok (terminalInvocations log)
  filesystem : s.readFilesystemHistory sessionId = .ok (filesystemInvocations log)
  state : s.readTerminalState sessionId =
    .ok ((terminalInvocations log).getLast?.map TerminalInvocation.state)
  accepts : ∀ call, ∃ s', s.record sessionId call = .ok s'

/-- Every call on the session raises, and leaves the store as it is. -/
structure IsUnknown (s : ToolStateStore) (sessionId : String) : Prop where
  record : ∀ call, s.record sessionId call = .error (.sessionNotFound sessionId)
  unchanged : ∀ call, s.call (sessionId, call) = s
  terminal : s.readTerminalHistory sessionId = .error (.store (.sessionNotFound sessionId))
  filesystem : s.readFilesystemHistory sessionId = .error (.store (.sessionNotFound sessionId))
  state : s.readTerminalState sessionId = .error (.store (.sessionNotFound sessionId))

namespace ToolStateStore

open SeqTable

variable {s : ToolStateStore} {sid : String}

/-! ## Proof -/

theorem record_known (h : s.sessions.contains sid = true) (call : ToolRecord) :
    s.record sid call = .ok { s with
      toolInvocations := s.toolInvocations.set (sid, nextSeq s.toolInvocations sid) call.row } := by
  simp [record, requireSession, h, insertInvocation, insertRow_nextSeq, bind, Except.bind]

theorem requireRead_known (h : s.sessions.contains sid = true) : s.requireRead sid = .ok () := by
  simp [requireRead, requireSession, h, Except.mapError]

theorem record_unknown (h : s.sessions.contains sid = false) (call : ToolRecord) :
    s.record sid call = .error (.sessionNotFound sid) := by
  simp [record, requireSession, h, bind, Except.bind]

/-- Every session's rows are the calls on it, if the session is known. -/
def Logs (s : ToolStateStore) (sessions : Dict String String)
    (calls : List (String × ToolRecord)) : Prop :=
  s.sessions = sessions ∧ ∀ sid, sessions.contains sid = true →
    group s.toolInvocations sid = numbered ((recordsOf sid calls).map ToolRecord.row)

theorem recordsOf_snoc (sid : String) (calls : List (String × ToolRecord))
    (c : String × ToolRecord) : recordsOf sid (calls ++ [c]) =
      if c.1 = sid then recordsOf sid calls ++ [c.2] else recordsOf sid calls := by
  by_cases h : c.1 = sid <;> simp [recordsOf, List.filter_append, h]

/-- A call adds its row to the log of its session, and to no other. -/
theorem logs_step {sessions : Dict String String} {calls : List (String × ToolRecord)}
    (h : s.Logs sessions calls) (c : String × ToolRecord) :
    (s.call c).Logs sessions (calls ++ [c]) := by
  obtain ⟨rfl, hlogs⟩ := h
  cases hknown : s.sessions.contains c.1 with
  | false =>
    rw [call, record_unknown hknown]
    refine ⟨rfl, fun sid hsid => ?_⟩
    have hne : c.1 ≠ sid := by
      rintro rfl
      rw [hknown] at hsid
      cases hsid
    rw [recordsOf_snoc, if_neg hne]
    exact hlogs sid hsid
  | true =>
    rw [call, record_known hknown]
    refine ⟨rfl, fun sid hsid => ?_⟩
    rw [recordsOf_snoc]
    by_cases hc : c.1 = sid
    · subst hc
      rw [if_pos rfl, List.map_append]
      exact group_set_next (hlogs c.1 hknown) c.2.row
    · rw [if_neg hc, ← hlogs sid hsid]
      exact group_set_of_ne (Ne.symm hc) c.2.row

theorem logs_run (sessions : Dict String String) (calls : List (String × ToolRecord)) :
    ((opened sessions).after calls).Logs sessions calls := by
  induction calls using List.reverseRecOn with
  | nil => exact ⟨rfl, fun _ _ => rfl⟩
  | append_singleton calls c ih =>
    rw [after, List.foldl_append]
    exact logs_step ih c

theorem numbered_rows (log : List ToolRecord) :
    numbered (log.map ToolRecord.row) = (numbered log).map fun c => (c.1, c.2.row) := by
  induction log using List.reverseRecOn with
  | nil => rfl
  | append_singleton log c ih =>
    rw [List.map_append, List.map_singleton, numbered_snoc, numbered_snoc, List.map_append, ih,
      List.length_map]
    rfl

/-- The rows a reader selects come in the order of the log. -/
theorem readHistoryRows_eq {log : List ToolRecord} (toolId : String)
    (h : group s.toolInvocations sid = numbered (log.map ToolRecord.row)) :
    s.readHistoryRows sid toolId =
      ((numbered log).map fun c => (c.1, c.2.row)).filter fun row => row.2.toolId = toolId := by
  have hsorted := ((pairwise_numbered (log.map ToolRecord.row)).filter
    (fun row => decide (row.2.toolId = toolId))).imp fun {a b} hlt => Int.le_of_lt hlt
  rw [readHistoryRows, h, List.Pairwise.insertionSort_eq hsorted, numbered_rows]

/-- `decode` reads the rows that the calls of one tool made, and gives what they recorded. -/
def Decodes {β : Type} (toolId : String) (decode : Int → ToolRow → Except ToolReadError β)
    (recorded : Int → ToolRecord → Option β) : Prop :=
  ∀ seq record, match recorded seq record with
    | some b => record.row.toolId = toolId ∧ decode seq record.row = .ok b
    | none => record.row.toolId ≠ toolId

theorem decodes_terminal :
    Decodes "terminal" (fun seq row => row.terminal seq) fun seq record => record.terminal? seq := by
  intro seq record
  cases record with
  | terminal => exact ⟨rfl, rfl⟩
  | filesystem => simp [ToolRecord.terminal?, ToolRecord.row]

theorem decodes_filesystem :
    Decodes "filesystem" (fun seq row => row.filesystem seq)
      fun seq record => record.filesystem? seq := by
  intro seq record
  cases record with
  | terminal => simp [ToolRecord.filesystem?, ToolRecord.row]
  | filesystem => exact ⟨rfl, rfl⟩

/-- A reader gives what was recorded with its tool, in the order of the calls. -/
theorem mapM_decode {β : Type} {toolId : String} {decode : Int → ToolRow → Except ToolReadError β}
    {recorded : Int → ToolRecord → Option β} (h : Decodes toolId decode recorded)
    (calls : List (Int × ToolRecord)) :
    ((calls.map fun c => (c.1, c.2.row)).filter fun row => row.2.toolId = toolId).mapM
        (fun row => decode row.1 row.2) =
      .ok (calls.filterMap fun c => recorded c.1 c.2) := by
  induction calls with
  | nil => rfl
  | cons c rest ih =>
    have hc := h c.1 c.2
    rw [List.map_cons, List.filterMap_cons]
    cases hr : recorded c.1 c.2 with
    | none =>
      rw [hr] at hc
      rw [List.filter_cons_of_neg (by simpa using hc)]
      exact ih
    | some b =>
      rw [hr] at hc
      rw [List.filter_cons_of_pos (by simpa using hc.1), List.mapM_cons, ih]
      simp only [hc.2]
      rfl

/-- The last row of the terminal is its last call. -/
theorem getLast?_terminal (calls : List (Int × ToolRecord)) :
    (((calls.map fun c => (c.1, c.2.row)).filter fun row => row.2.toolId = "terminal").getLast?.map
        fun row => row.2.terminalState row.1) =
      ((calls.filterMap fun c => c.2.terminal? c.1).getLast?.map fun i => .ok i.state) := by
  induction calls using List.reverseRecOn with
  | nil => rfl
  | append_singleton calls c ih =>
    obtain ⟨seq, record⟩ := c
    rw [List.map_append, List.filter_append, List.filterMap_append]
    cases record with
    | terminal =>
      rw [List.getLast?_append_of_ne_nil _ (by simp [ToolRecord.row]),
        List.getLast?_append_of_ne_nil _ (by simp [ToolRecord.terminal?])]
      simp [ToolRecord.row, ToolRow.terminalState, ToolRecord.terminal?, TerminalInvocation.state]
    | filesystem => simpa [ToolRecord.row, ToolRecord.terminal?] using ih

/-- What the readers give of a session that is one log. -/
theorem isAppendLog_of_group {log : List ToolRecord} (hknown : s.sessions.contains sid = true)
    (h : group s.toolInvocations sid = numbered (log.map ToolRecord.row)) :
    IsAppendLog s sid log where
  seqs := by rw [h, map_fst_numbered, List.length_map]
  rows := by
    rw [h]
    induction log.map ToolRecord.row using List.reverseRecOn with
    | nil => rfl
    | append_singleton rows r ih => rw [numbered_snoc, List.map_append, ih]; rfl
  terminal := by
    rw [readTerminalHistory, requireRead_known hknown, readHistoryRows_eq _ h]
    exact mapM_decode decodes_terminal _
  filesystem := by
    rw [readFilesystemHistory, requireRead_known hknown, readHistoryRows_eq _ h]
    exact mapM_decode decodes_filesystem _
  state := by
    have hlast := getLast?_terminal (numbered log)
    rw [readTerminalState, requireRead_known hknown, readHistoryRows_eq _ h, terminalInvocations]
    -- the last row is there exactly when a last invocation is
    generalize (((numbered log).map fun c => (c.1, c.2.row)).filter
      fun row => row.2.toolId = "terminal").getLast? = row at hlast ⊢
    generalize ((numbered log).filterMap fun c => c.2.terminal? c.1).getLast? = last at hlast ⊢
    cases row with
    | none =>
      cases last with
      | none => rfl
      | some i => cases hlast
    | some row =>
      cases last with
      | none => cases hlast
      | some i =>
        have hstate := Option.some.inj hlast
        simp only [bind, Except.bind, pure, Except.pure, hstate]
        rfl
  accepts call := ⟨_, record_known hknown call⟩

theorem isUnknown (h : s.sessions.contains sid = false) : IsUnknown s sid := by
  have hrequire : s.requireRead sid = .error (.store (.sessionNotFound sid)) := by
    simp [requireRead, requireSession, h, Except.mapError]
  refine ⟨record_unknown h, fun call => ?_, ?_, ?_, ?_⟩
  · rw [ToolStateStore.call, record_unknown h]
  · rw [readTerminalHistory, hrequire]
    rfl
  · rw [readFilesystemHistory, hrequire]
    rfl
  · rw [readTerminalState, hrequire]
    rfl

/-- After any run of recorder calls, a known session is the log of the calls on it, and an unknown
one is refused without a change. -/
theorem append_log (sessions : Dict String String) (calls : List (String × ToolRecord))
    (sid : String) :
    if sessions.contains sid = true then
      IsAppendLog ((opened sessions).after calls) sid (recordsOf sid calls)
    else IsUnknown ((opened sessions).after calls) sid := by
  obtain ⟨hsessions, hlogs⟩ := logs_run sessions calls
  split
  · next hknown => exact isAppendLog_of_group (by rw [hsessions]; exact hknown) (hlogs sid hknown)
  · next hunknown => exact isUnknown (by rw [hsessions]; simpa using hunknown)

end ToolStateStore

end LlmHomeLab
