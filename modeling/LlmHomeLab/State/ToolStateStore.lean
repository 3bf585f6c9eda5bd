import LlmHomeLab.State.SessionStore

/-! # The tool state store

`state/tool_state_store.py` shares the `sessions` table and numbers the invocations of both
tools of a session together, in `tool_invocations`.
-/

namespace LlmHomeLab

/-- The payload dictionaries the two recorders build. -/
inductive ToolPayload where
  | terminal (command cwd : String) (exitCode : Int) (output : String)
      (env : List (String × String)) (runningProcesses : List String)
  | filesystem (operation path result : String)
deriving DecidableEq, Repr

/-- A row of `tool_invocations` without its key. -/
structure ToolRow where
  toolId : String
  payload : ToolPayload
  createdAt : String
deriving DecidableEq, Repr

structure ToolStateStore where
  sessions : Dict String String
  toolInvocations : SeqTable String ToolRow

/-- A call of `record_terminal` or `record_filesystem`, after its session id. -/
inductive ToolRecord where
  | terminal (command cwd : String) (exitCode : Int) (output : String)
      (env : List (String × String)) (runningProcesses : List String) (createdAt : String)
  | filesystem (operation path result createdAt : String)
deriving DecidableEq, Repr

/-- The row a recorder hands to `_insert_invocation`. -/
def ToolRecord.row : ToolRecord → ToolRow
  | .terminal command cwd exitCode output env runningProcesses createdAt =>
    ⟨"terminal", .terminal command cwd exitCode output env runningProcesses, createdAt⟩
  | .filesystem operation path result createdAt =>
    ⟨"filesystem", .filesystem operation path result, createdAt⟩

namespace ToolStateStore

open SeqTable

def requireSession (s : ToolStateStore) (sessionId : String) : Except StoreError Unit :=
  if s.sessions.contains sessionId then .ok () else .error (.sessionNotFound sessionId)

def insertInvocation (s : ToolStateStore) (sessionId : String) (row : ToolRow) :
    Except StoreError ToolStateStore :=
  let next := nextSeq s.toolInvocations sessionId
  match insertRow s.toolInvocations sessionId next row with
  | some rows => .ok { s with toolInvocations := rows }
  | none => .error .integrityError

/-- `record_terminal` and `record_filesystem`. -/
def record (s : ToolStateStore) (sessionId : String) (call : ToolRecord) :
    Except StoreError ToolStateStore := do
  s.requireSession sessionId
  s.insertInvocation sessionId call.row

end ToolStateStore

end LlmHomeLab
