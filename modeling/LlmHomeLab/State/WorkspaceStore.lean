import LlmHomeLab.Lib.JsonDump
import LlmHomeLab.State.SessionStore

/-! # The workspace store

`state/workspace_store.py` and `state/workspace_manager.py`. A session has one snapshot of its
workspace, which every capture replaces: the manager cuts the diff and the list of open files, and
the store writes the list and the test status as JSON texts. A snapshot is read back as it was
captured (`read_putSnapshot`).
-/

namespace LlmHomeLab

/-! ## Model -/

structure RunStatus where
  passed : Int
  failed : Int
  total : Int
  summary : Option String
deriving DecidableEq, Repr

structure WorkspaceSnapshot where
  sessionId : String
  branch : String
  gitDiff : String
  diffTruncated : Bool
  openFiles : List String
  openFilesTruncated : Bool
  testStatus : Option RunStatus
  createdAt : String
deriving DecidableEq, Repr

/-- A row of `workspace_snapshots` without its key. -/
structure SnapshotRow where
  branch : String
  gitDiff : String
  diffTruncated : Int
  openFiles : String
  openFilesTruncated : Int
  testStatus : Option String
  createdAt : String
deriving DecidableEq, Repr

/-- What a call of the store raises: an error of the database, a number or a text JSON has no place
for, or a value that does not fit. -/
inductive WorkspaceError where
  | store (e : StoreError)
  | valueError
  | typeError
deriving DecidableEq, Repr

structure WorkspaceStore where
  sessions : Dict String String
  workspaceSnapshots : Dict String SnapshotRow

namespace RunStatus

/-- The dictionary `capture` dumps. -/
def toJson (status : RunStatus) : Json :=
  .obj [("passed", .num status.passed), ("failed", .num status.failed),
    ("total", .num status.total), ("summary", status.summary.elim .null .str)]

/-- The numbers can be written: the interpreter refuses integers of more than 4300 digits. -/
def writable (status : RunStatus) : Bool :=
  status.passed.natAbs < 10 ^ 4300 && status.failed.natAbs < 10 ^ 4300 &&
    status.total.natAbs < 10 ^ 4300

def readInt : Json → Option Int
  | .num n => if n.den = 1 then some n.num else none
  | _ => none

def readSummary : Json → Option (Option String)
  | .null => some none
  | .str s => some (some s)
  | _ => none

/-- `RunStatus(**value)`, for values of the types of its fields. -/
def ofJson (value : Json) : Option RunStatus := do
  let passed ← (value.field? "passed").bind readInt
  let failed ← (value.field? "failed").bind readInt
  let total ← (value.field? "total").bind readInt
  let summary ← readSummary ((value.field? "summary").getD .null)
  return ⟨passed, failed, total, summary⟩

end RunStatus

/-- A list of strings. -/
def readStrings : Json → Option (List String)
  | .arr items => items.mapM fun
    | .str s => some s
    | _ => none
  | _ => none

/-- `int(flag)`. -/
def intOfBool (flag : Bool) : Int := if flag then 1 else 0

namespace WorkspaceStore

def requireSession (s : WorkspaceStore) (sessionId : String) : Except WorkspaceError Unit :=
  if s.sessions.contains sessionId then .ok () else .error (.store (.sessionNotFound sessionId))

/-- `json.dumps` of the test status. -/
def dumpStatus (status : RunStatus) : Except WorkspaceError String :=
  if status.writable then .ok (JsonText.dumps JsonText.showInt status.toJson)
  else .error .valueError

def capture (s : WorkspaceStore) (sessionId branch gitDiff : String) (diffTruncated : Bool)
    (openFiles : List String) (openFilesTruncated : Bool) (testStatus : Option RunStatus)
    (createdAt : String) : Except WorkspaceError WorkspaceStore := do
  s.requireSession sessionId
  let testStatusJson ← testStatus.mapM dumpStatus
  return { s with
    workspaceSnapshots := s.workspaceSnapshots.set sessionId {
      branch
      gitDiff
      diffTruncated := intOfBool diffTruncated
      openFiles := JsonText.dumps JsonText.showInt (.arr (openFiles.map .str))
      openFilesTruncated := intOfBool openFilesTruncated
      testStatus := testStatusJson
      createdAt } }

section

variable (parseFloat parseConstant : List Char → Option Json)

/-- `json.loads`, and what is done with the value. -/
def loadAs {α : Type} (read : Json → Option α) (text : String) : Except WorkspaceError α :=
  match JsonText.loads (JsonText.intHooks parseFloat parseConstant) text with
  | none => .error .valueError
  | some value => (read value).elim (.error .typeError) .ok

def readRow (sessionId : String) (row : SnapshotRow) : Except WorkspaceError WorkspaceSnapshot := do
  let testStatus ← row.testStatus.mapM (loadAs parseFloat parseConstant RunStatus.ofJson)
  let openFiles ← loadAs parseFloat parseConstant readStrings row.openFiles
  return {
    sessionId
    branch := row.branch
    gitDiff := row.gitDiff
    diffTruncated := row.diffTruncated ≠ 0
    openFiles
    openFilesTruncated := row.openFilesTruncated ≠ 0
    testStatus
    createdAt := row.createdAt }

def read (s : WorkspaceStore) (sessionId : String) :
    Except WorkspaceError (Option WorkspaceSnapshot) := do
  s.requireSession sessionId
  (s.workspaceSnapshots.get? sessionId).mapM (readRow parseFloat parseConstant sessionId)

end

end WorkspaceStore

/-! ## The manager -/

/-- `items[:stop]`. -/
def takeUpTo {α : Type} (items : List α) (stop : Int) : List α :=
  if 0 ≤ stop then items.take stop.toNat else items.take (items.length - stop.natAbs)

/-- `_truncate_text`. -/
def truncateText (text : String) (maxChars : Int) : String × Bool :=
  let length : Int := text.toList.length
  if length ≤ maxChars then (text, false)
  else
    let cut := length - maxChars
    (String.ofList (takeUpTo text.toList maxChars) ++ s!"... [truncated {cut} chars]", true)

/-- `_truncate_list`. -/
def truncateList (items : List String) (maxCount : Int) : List String × Bool :=
  if (items.length : Int) ≤ maxCount then (items, false) else (takeUpTo items maxCount, true)

/-- What `WorkspaceManager` is made with; the environment may set both. -/
structure WorkspaceSettings where
  diffMaxChars : Int := 20000
  openFilesMax : Int := 200
deriving DecidableEq, Repr

/-- The arguments of `WorkspaceManager.capture`, and the time. -/
structure Capture where
  branch : String
  gitDiff : String
  openFiles : List String
  testStatus : Option RunStatus
  createdAt : String
deriving DecidableEq, Repr

/-- `WorkspaceManager.capture`. -/
def WorkspaceStore.captureCut (settings : WorkspaceSettings) (s : WorkspaceStore)
    (sessionId : String) (c : Capture) : Except WorkspaceError WorkspaceStore :=
  let (diff, diffTruncated) := truncateText c.gitDiff settings.diffMaxChars
  let (files, filesTruncated) := truncateList c.openFiles settings.openFilesMax
  s.capture sessionId c.branch diff diffTruncated files filesTruncated c.testStatus c.createdAt

/-- A capture as a reader is to see it. -/
def Capture.snapshot (settings : WorkspaceSettings) (sessionId : String) (c : Capture) :
    WorkspaceSnapshot where
  sessionId := sessionId
  branch := c.branch
  gitDiff := (truncateText c.gitDiff settings.diffMaxChars).1
  diffTruncated := (truncateText c.gitDiff settings.diffMaxChars).2
  openFiles := (truncateList c.openFiles settings.openFilesMax).1
  openFilesTruncated := (truncateList c.openFiles settings.openFilesMax).2
  testStatus := c.testStatus
  createdAt := c.createdAt

/-- A test status with a number of more than 4300 digits cannot be stored. -/
def Capture.storable (c : Capture) : Bool := c.testStatus.all RunStatus.writable

/-! ## What is read back -/

namespace RunStatus

open JsonText

variable {parseFloat parseConstant : List Char → Option Json} {status : RunStatus}

theorem writable_toJson (h : status.writable = true) :
    Writable showInt (intHooks parseFloat parseConstant) status.toJson := by
  simp only [writable, Bool.and_eq_true, decide_eq_true_eq] at h
  have hsummary : Writable showInt (intHooks parseFloat parseConstant)
      (status.summary.elim .null .str) := by
    cases status.summary with
    | none => exact .null
    | some s => exact .str s
  have hkeys : (["passed", "failed", "total", "summary"] : List String).Nodup := by decide
  exact .obj hkeys (.cons (.num (readable_showInt h.1.1)) (.cons (.num (readable_showInt h.1.2))
    (.cons (.num (readable_showInt h.2)) (.cons hsummary .nil))))

theorem ofJson_toJson (status : RunStatus) : ofJson status.toJson = some status := by
  have hint : ∀ n : Int, readInt (.num n) = some n := fun n => by simp [readInt]
  have hsummary : readSummary (status.summary.elim .null .str) = some status.summary := by
    cases status.summary <;> rfl
  have hpassed : status.toJson.field? "passed" = some (.num status.passed) := rfl
  have hfailed : status.toJson.field? "failed" = some (.num status.failed) := rfl
  have htotal : status.toJson.field? "total" = some (.num status.total) := rfl
  have hlast : status.toJson.field? "summary" = some (status.summary.elim .null .str) := rfl
  simp only [ofJson, hpassed, hfailed, htotal, hlast, Option.bind_some, hint, Option.getD_some,
    hsummary, Option.bind_eq_bind, Option.pure_def]

end RunStatus

namespace WorkspaceStore

open JsonText

variable {parseFloat parseConstant : List Char → Option Json} {s : WorkspaceStore}
  {sid : String} {c : Capture}

/-- The row a capture leaves. -/
def rowOf (settings : WorkspaceSettings) (c : Capture) : SnapshotRow where
  branch := c.branch
  gitDiff := (truncateText c.gitDiff settings.diffMaxChars).1
  diffTruncated := intOfBool (truncateText c.gitDiff settings.diffMaxChars).2
  openFiles := dumps showInt (.arr ((truncateList c.openFiles settings.openFilesMax).1.map .str))
  openFilesTruncated := intOfBool (truncateList c.openFiles settings.openFilesMax).2
  testStatus := c.testStatus.map fun status => dumps showInt status.toJson
  createdAt := c.createdAt

theorem captureCut_known (settings : WorkspaceSettings) (h : s.sessions.contains sid = true)
    (hstorable : c.storable = true) :
    s.captureCut settings sid c =
      .ok { s with workspaceSnapshots := s.workspaceSnapshots.set sid (rowOf settings c) } := by
  have hstatus : c.testStatus.mapM dumpStatus =
      .ok (c.testStatus.map fun status => dumps showInt status.toJson) := by
    unfold Capture.storable at hstorable
    cases hc : c.testStatus with
    | none => rfl
    | some status =>
      rw [hc, Option.all_some] at hstorable
      simp [dumpStatus, hstorable]
  simp [captureCut, capture, requireSession, h, hstatus, bind, Except.bind, pure, Except.pure, rowOf]

theorem captureCut_unstorable (settings : WorkspaceSettings) (h : s.sessions.contains sid = true)
    (hstorable : c.storable = false) : s.captureCut settings sid c = .error .valueError := by
  have hstatus : c.testStatus.mapM dumpStatus = .error .valueError := by
    unfold Capture.storable at hstorable
    cases hc : c.testStatus with
    | none =>
      rw [hc] at hstorable
      cases hstorable
    | some status =>
      rw [hc, Option.all_some] at hstorable
      simp [dumpStatus, hstorable]
  simp [captureCut, capture, requireSession, h, hstatus, bind, Except.bind]

theorem captureCut_unknown (settings : WorkspaceSettings) (h : s.sessions.contains sid = false) :
    s.captureCut settings sid c = .error (.store (.sessionNotFound sid)) := by
  simp [captureCut, capture, requireSession, h, bind, Except.bind]

theorem loadAs_dumps {α : Type} {read : Json → Option α} {v : Json} {a : α}
    (h : Writable showInt (intHooks parseFloat parseConstant) v) (hread : read v = some a) :
    loadAs parseFloat parseConstant read (dumps showInt v) = .ok a := by
  rw [loadAs, loads_dumps h]
  simp [hread]

theorem writable_strings (items : List String) :
    Writable showInt (intHooks parseFloat parseConstant) (.arr (items.map .str)) := by
  refine .arr ?_
  induction items with
  | nil => exact .nil
  | cons item rest ih => exact .cons (.str item) ih

theorem intOfBool_ne_zero (flag : Bool) : intOfBool flag ≠ 0 ↔ flag = true := by
  cases flag <;> decide

/-- The row of a capture is read as its snapshot. -/
theorem readRow_rowOf (settings : WorkspaceSettings) (sid : String) (hstorable : c.storable = true) :
    readRow parseFloat parseConstant sid (rowOf settings c) = .ok (c.snapshot settings sid) := by
  have hfiles : loadAs parseFloat parseConstant readStrings
      (dumps showInt (.arr ((truncateList c.openFiles settings.openFilesMax).1.map .str))) =
        .ok (truncateList c.openFiles settings.openFilesMax).1 :=
    loadAs_dumps (writable_strings _) (Json.mapM_map_some fun _ _ => rfl)
  have hstatus : (c.testStatus.map fun status => dumps showInt status.toJson).mapM
      (loadAs parseFloat parseConstant RunStatus.ofJson) = .ok c.testStatus := by
    unfold Capture.storable at hstorable
    cases hc : c.testStatus with
    | none => rfl
    | some status =>
      rw [hc, Option.all_some] at hstorable
      simp only [Option.map_some, Option.mapM_some,
        loadAs_dumps (RunStatus.writable_toJson hstorable) status.ofJson_toJson]
      rfl
  simp only [readRow, rowOf, hfiles, hstatus, bind, Except.bind, pure, Except.pure,
    intOfBool_ne_zero, Bool.decide_eq_true, Capture.snapshot]

theorem read_unknown (h : s.sessions.contains sid = false) :
    s.read parseFloat parseConstant sid = .error (.store (.sessionNotFound sid)) := by
  simp [read, requireSession, h, bind, Except.bind]

theorem read_none (h : s.sessions.contains sid = true)
    (hrow : s.workspaceSnapshots.get? sid = none) :
    s.read parseFloat parseConstant sid = .ok none := by
  simp only [read, requireSession, h, if_true, hrow, bind, Except.bind]
  rfl

/-- A snapshot is read back. -/
theorem read_putSnapshot (settings : WorkspaceSettings) (h : s.sessions.contains sid = true)
    (hrow : s.workspaceSnapshots.get? sid = some (rowOf settings c)) (hstorable : c.storable = true) :
    s.read parseFloat parseConstant sid = .ok (some (c.snapshot settings sid)) := by
  simp only [read, requireSession, h, if_true, hrow, bind, Except.bind, Option.mapM_some,
    readRow_rowOf settings sid hstorable]
  rfl

end WorkspaceStore

end LlmHomeLab
