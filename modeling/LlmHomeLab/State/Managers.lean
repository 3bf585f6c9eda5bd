import LlmHomeLab.State.ToolHistory
import LlmHomeLab.State.WorkspaceStore

/-! # Three managers on one database

The session, workspace and tool state managers open the same file. Each store creates what it needs
there, all three look a session up in the one `sessions` table, and the calls come in any order.
None of them gets in the way of the others (`managers_separate`): the sessions and messages are what
the calls of the session manager alone leave, the invocations of a session are one log, and its
snapshot is the last one captured, since the session was created.
-/

namespace LlmHomeLab

/-! ## Model -/

/-- All tables of the file. -/
structure Database where
  sessions : Dict String String
  messages : SeqTable String MessageRow
  summaries : Dict String Summary
  workspaceSnapshots : Dict String SnapshotRow
  toolInvocations : SeqTable String ToolRow

/-- A call of one of the managers that may change the tables. -/
inductive StoreCall where
  | session (op : SessionStore.Op)
  | record (sessionId : String) (call : ToolRecord)
  | capture (sessionId : String) (c : Capture)

namespace Database

/-- A new file. -/
def empty : Database := ⟨.empty, .empty, .empty, .empty, .empty⟩

/-! The tables each store works on. -/

def sessionStore (db : Database) : SessionStore := ⟨db.sessions, db.messages, db.summaries⟩

def workspaceStore (db : Database) : WorkspaceStore := ⟨db.sessions, db.workspaceSnapshots⟩

def toolStateStore (db : Database) : ToolStateStore := ⟨db.sessions, db.toolInvocations⟩

def withSessionStore (db : Database) (s : SessionStore) : Database :=
  { db with sessions := s.sessions, messages := s.messages, summaries := s.summaries }

def withWorkspaceStore (db : Database) (s : WorkspaceStore) : Database :=
  { db with sessions := s.sessions, workspaceSnapshots := s.workspaceSnapshots }

def withToolStateStore (db : Database) (s : ToolStateStore) : Database :=
  { db with sessions := s.sessions, toolInvocations := s.toolInvocations }

variable (settings : WorkspaceSettings)

/-- The tables after a call; one that raises changes nothing. -/
def apply (db : Database) : StoreCall → Database
  | .session op => db.withSessionStore (db.sessionStore.apply op)
  | .record sid call => db.withToolStateStore (db.toolStateStore.call (sid, call))
  | .capture sid c =>
    match db.workspaceStore.captureCut settings sid c with
    | .ok s => db.withWorkspaceStore s
    | .error _ => db

def after (db : Database) (calls : List StoreCall) : Database := calls.foldl (apply settings) db

end Database

/-! ## What each manager is to see -/

namespace StoreCall

def sessionOp? : StoreCall → Option SessionStore.Op
  | .session op => some op
  | _ => none

/-- The call would create the session, if it is not there. -/
def creates (sid : String) : StoreCall → Bool
  | .session (.createSession sid' _) => sid' = sid
  | _ => false

def record? (sid : String) : StoreCall → Option ToolRecord
  | .record sid' call => if sid' = sid then some call else none
  | _ => none

/-- A capture that can be stored. -/
def capture? (sid : String) : StoreCall → Option Capture
  | .capture sid' c => if sid' = sid ∧ c.storable = true then some c else none
  | _ => none

end StoreCall

/-- The calls of the session manager. -/
def sessionOps (calls : List StoreCall) : List SessionStore.Op :=
  calls.filterMap StoreCall.sessionOp?

def created (sid : String) (calls : List StoreCall) : Bool := calls.any (StoreCall.creates sid)

/-- The calls from the creation of the session on. -/
def sinceCreated (sid : String) (calls : List StoreCall) : List StoreCall :=
  calls.dropWhile fun c => !c.creates sid

/-- The tool calls of a session. -/
def toolLog (sid : String) (calls : List StoreCall) : List ToolRecord :=
  (sinceCreated sid calls).filterMap (StoreCall.record? sid)

def lastCapture (sid : String) (calls : List StoreCall) : Option Capture :=
  ((sinceCreated sid calls).filterMap (StoreCall.capture? sid)).getLast?

/-- What the managers make of a session after these calls. -/
structure Separate (settings : WorkspaceSettings) (db : Database) (calls : List StoreCall)
    (sid : String) : Prop where
  session : db.sessionStore = SessionStore.empty.after (sessionOps calls)
  tools : if created sid calls = true then IsAppendLog db.toolStateStore sid (toolLog sid calls)
    else IsUnknown db.toolStateStore sid
  workspace : ∀ parseFloat parseConstant, db.workspaceStore.read parseFloat parseConstant sid =
    if created sid calls = true then
      .ok ((lastCapture sid calls).map (Capture.snapshot settings sid))
    else .error (.store (.sessionNotFound sid))

/-! ## One more call -/

section

variable {sid : String} {calls : List StoreCall} {c : StoreCall}

theorem created_snoc : created sid (calls ++ [c]) = (created sid calls || c.creates sid) := by
  simp [created]

theorem sinceCreated_snoc : sinceCreated sid (calls ++ [c]) =
    if created sid calls = true then sinceCreated sid calls ++ [c]
    else if c.creates sid = true then [c] else [] := by
  unfold sinceCreated created
  induction calls with
  | nil => cases hc : c.creates sid <;> simp [hc]
  | cons first rest ih =>
    cases hfirst : first.creates sid with
    | true => simp [hfirst]
    | false => simpa [hfirst] using ih

theorem sinceCreated_none (h : created sid calls = false) : sinceCreated sid calls = [] := by
  rw [sinceCreated, List.dropWhile_eq_nil_iff]
  intro c hc
  rw [created, List.any_eq_false] at h
  simpa using h c hc

/-- A call of another manager, or the one that creates the session, adds to neither. -/
theorem filterMap_sinceCreated_snoc {β : Type} (f : StoreCall → Option β)
    (hcreates : c.creates sid = true → f c = none) :
    (sinceCreated sid (calls ++ [c])).filterMap f =
      (sinceCreated sid calls).filterMap f ++
        if created sid calls = true then (f c).toList else [] := by
  rw [sinceCreated_snoc]
  cases hcreated : created sid calls with
  | true =>
    simp only [if_true, List.filterMap_append, List.append_cancel_left_eq]
    cases hf : f c <;> simp [hf]
  | false =>
    rw [sinceCreated_none hcreated]
    cases hc : c.creates sid with
    | true => simp [hcreates hc]
    | false => simp

theorem toolLog_snoc : toolLog sid (calls ++ [c]) =
    toolLog sid calls ++ if created sid calls = true then (c.record? sid).toList else [] := by
  refine filterMap_sinceCreated_snoc _ fun hcreates => ?_
  cases c with
  | session => rfl
  | record | capture => cases hcreates

theorem lastCapture_snoc : lastCapture sid (calls ++ [c]) =
    if created sid calls = true then (c.capture? sid).or (lastCapture sid calls)
    else lastCapture sid calls := by
  unfold lastCapture
  rw [filterMap_sinceCreated_snoc]
  · split
    · cases hc : c.capture? sid <;> simp
    · rw [List.append_nil]
  · intro hcreates
    cases c with
    | session => rfl
    | record | capture => cases hcreates

end

/-! ## Proof -/

theorem SessionStore.contains_apply (s : SessionStore) (op : SessionStore.Op) (sid : String) :
    (s.apply op).sessions.contains sid =
      (s.sessions.contains sid || (StoreCall.session op).creates sid) := by
  cases op with
  | createSession sid' at_ =>
    cases h : s.sessions.contains sid' with
    | true =>
      rw [apply_createSession_taken h]
      by_cases hid : sid' = sid
      · subst hid
        rw [h]
        rfl
      · simp [StoreCall.creates, hid]
    | false =>
      rw [apply_createSession h, Bool.eq_iff_iff, Dict.contains_set_iff]
      by_cases hid : sid' = sid
      · subst hid
        simp [StoreCall.creates]
      · simp [StoreCall.creates, hid, Ne.symm hid]
  | appendMessage sid' role content at_ =>
    cases h : s.sessions.contains sid' with
    | true =>
      rw [apply_appendMessage h]
      exact (Bool.or_false _).symm
    | false =>
      rw [apply_appendMessage_unknown h]
      exact (Bool.or_false _).symm
  | readSession => exact (Bool.or_false _).symm
  | summarize sid' text covers at_ =>
    cases h : s.summarize sid' text covers at_ with
    | error e =>
      rw [apply_summarize_raises h]
      exact (Bool.or_false _).symm
    | ok s' =>
      rw [apply_summarize h]
      obtain ⟨-, -, -, rfl⟩ := summarize_eq_ok.mp h
      exact (Bool.or_false _).symm
  | trim sid' =>
    cases h : s.sessions.contains sid' with
    | true =>
      cases hs : s.summaries.get? sid' with
      | none =>
        rw [apply_trim_no_summary hs]
        exact (Bool.or_false _).symm
      | some summary =>
        rw [apply_trim h hs]
        exact (Bool.or_false _).symm
    | false =>
      rw [apply_trim_unknown h]
      exact (Bool.or_false _).symm

namespace Database

open SeqTable

variable {settings : WorkspaceSettings} {db : Database} {calls : List StoreCall}

/-- The tables hold what the calls say. -/
structure Holds (settings : WorkspaceSettings) (db : Database) (calls : List StoreCall) : Prop where
  session : db.sessionStore = SessionStore.empty.after (sessionOps calls)
  known : ∀ sid, db.sessions.contains sid = created sid calls
  tools : ∀ sid, group db.toolInvocations sid = numbered ((toolLog sid calls).map ToolRecord.row)
  snapshots : ∀ sid, db.workspaceSnapshots.get? sid =
    (lastCapture sid calls).map (WorkspaceStore.rowOf settings)
  storable : ∀ sid c, lastCapture sid calls = some c → c.storable = true

theorem holds_empty : Holds settings empty [] where
  session := rfl
  known _ := rfl
  tools _ := rfl
  snapshots _ := rfl
  storable _ _ h := by cases h

/-- A call that is none of the session manager's and changes no tool log. -/
theorem toolLog_same {sid : String} {c : StoreCall} (h : c.record? sid = none) :
    toolLog sid (calls ++ [c]) = toolLog sid calls := by
  rw [toolLog_snoc, h]
  simp

theorem lastCapture_same {sid : String} {c : StoreCall} (h : c.capture? sid = none) :
    lastCapture sid (calls ++ [c]) = lastCapture sid calls := by
  rw [lastCapture_snoc, h]
  simp

theorem holds_session (h : Holds settings db calls) (op : SessionStore.Op) :
    Holds settings (db.apply settings (.session op)) (calls ++ [.session op]) where
  session := by
    have hops : sessionOps (calls ++ [.session op]) = sessionOps calls ++ [op] := by
      simp [sessionOps, StoreCall.sessionOp?]
    rw [hops, SessionStore.after_snoc, ← h.session]
    rfl
  known sid := by
    have hcontains := SessionStore.contains_apply db.sessionStore op sid
    rw [created_snoc, ← h.known sid]
    exact hcontains
  tools sid := by
    rw [toolLog_same rfl]
    exact h.tools sid
  snapshots sid := by
    rw [lastCapture_same rfl]
    exact h.snapshots sid
  storable sid c hc := by
    rw [lastCapture_same rfl] at hc
    exact h.storable sid c hc

/-- What a call of the other managers leaves alone. -/
theorem created_other {sid : String} {c : StoreCall} (h : ∀ sid, c.creates sid = false) :
    created sid (calls ++ [c]) = created sid calls := by
  rw [created_snoc, h, Bool.or_false]

theorem holds_record (h : Holds settings db calls) (sid : String) (call : ToolRecord) :
    Holds settings (db.apply settings (.record sid call)) (calls ++ [.record sid call]) := by
  have hops : sessionOps (calls ++ [.record sid call]) = sessionOps calls := by
    simp [sessionOps, StoreCall.sessionOp?]
  have hknown : ∀ sid', created sid' (calls ++ [.record sid call]) = created sid' calls :=
    fun sid' => created_other fun _ => rfl
  have hsession : db.toolStateStore.sessions.contains sid = created sid calls := h.known sid
  cases hcreated : created sid calls with
  | false =>
    -- an unknown session: the call raises
    rw [hcreated] at hsession
    have hsame : db.apply settings (.record sid call) = db := by
      simp only [apply, ToolStateStore.call, ToolStateStore.record_unknown hsession]
      rfl
    rw [hsame]
    refine ⟨by rw [hops, h.session], fun sid' => by rw [hknown, h.known], fun sid' => ?_,
      fun sid' => by rw [lastCapture_same rfl, h.snapshots], fun sid' c hc => ?_⟩
    · rw [toolLog_snoc, h.tools]
      by_cases hid : sid = sid'
      · subst hid
        simp [hcreated]
      · simp [StoreCall.record?, hid]
    · rw [lastCapture_same rfl] at hc
      exact h.storable sid' c hc
  | true =>
    rw [hcreated] at hsession
    have hset : db.apply settings (.record sid call) = { db with
        toolInvocations :=
          db.toolInvocations.set (sid, nextSeq db.toolInvocations sid) call.row } := by
      simp only [apply, ToolStateStore.call, ToolStateStore.record_known hsession]
      rfl
    rw [hset]
    refine ⟨by rw [hops]; exact h.session, fun sid' => by rw [hknown]; exact h.known sid',
      fun sid' => ?_, fun sid' => by rw [lastCapture_same rfl]; exact h.snapshots sid',
      fun sid' c hc => ?_⟩
    · rw [toolLog_snoc]
      by_cases hid : sid = sid'
      · subst hid
        simp only [hcreated, if_true, StoreCall.record?, Option.toList_some, List.map_append]
        exact group_set_next (h.tools sid) call.row
      · simp only [StoreCall.record?, if_neg hid, Option.toList_none, ite_self, List.append_nil]
        rw [← h.tools sid']
        exact group_set_of_ne (Ne.symm hid) call.row
    · rw [lastCapture_same rfl] at hc
      exact h.storable sid' c hc

theorem holds_capture (h : Holds settings db calls) (sid : String) (c : Capture) :
    Holds settings (db.apply settings (.capture sid c)) (calls ++ [.capture sid c]) := by
  have hops : sessionOps (calls ++ [.capture sid c]) = sessionOps calls := by
    simp [sessionOps, StoreCall.sessionOp?]
  have hknown : ∀ sid', created sid' (calls ++ [.capture sid c]) = created sid' calls :=
    fun sid' => created_other fun _ => rfl
  have hsession : db.workspaceStore.sessions.contains sid = created sid calls := h.known sid
  by_cases hstored : created sid calls = true ∧ c.storable = true
  · obtain ⟨hcreated, hstorable⟩ := hstored
    rw [hcreated] at hsession
    have hset : db.apply settings (.capture sid c) = { db with
        workspaceSnapshots :=
          db.workspaceSnapshots.set sid (WorkspaceStore.rowOf settings c) } := by
      simp only [apply, WorkspaceStore.captureCut_known settings hsession hstorable]
      rfl
    have hlast : ∀ sid', lastCapture sid' (calls ++ [.capture sid c]) =
        if sid' = sid then some c else lastCapture sid' calls := by
      intro sid'
      rw [lastCapture_snoc]
      by_cases hid : sid' = sid
      · subst hid
        simp [hcreated, StoreCall.capture?, hstorable]
      · simp [StoreCall.capture?, hid, Ne.symm hid]
    rw [hset]
    refine ⟨by rw [hops]; exact h.session, fun sid' => by rw [hknown]; exact h.known sid',
      fun sid' => by rw [toolLog_same rfl]; exact h.tools sid', fun sid' => ?_, fun sid' c' hc => ?_⟩
    · rw [hlast, Dict.get?_set]
      by_cases hid : sid' = sid
      · simp [hid]
      · simpa [hid] using h.snapshots sid'
    · rw [hlast] at hc
      by_cases hid : sid' = sid
      · rw [if_pos hid] at hc
        cases hc
        exact hstorable
      · rw [if_neg hid] at hc
        exact h.storable sid' c' hc
  · -- the call raises
    have hsame : db.apply settings (.capture sid c) = db := by
      cases hcreated : created sid calls with
      | false =>
        rw [hcreated] at hsession
        simp only [apply, WorkspaceStore.captureCut_unknown settings hsession]
      | true =>
        rw [hcreated] at hsession
        have hunstorable : c.storable = false := by simpa [hcreated] using hstored
        simp only [apply, WorkspaceStore.captureCut_unstorable settings hsession hunstorable]
    have hlast : ∀ sid', lastCapture sid' (calls ++ [.capture sid c]) = lastCapture sid' calls := by
      intro sid'
      rw [lastCapture_snoc]
      split
      · next hcreated =>
        have hnone : (StoreCall.capture sid c).capture? sid' = none := by
          refine if_neg fun hboth => hstored ⟨?_, hboth.2⟩
          rw [hboth.1]
          exact hcreated
        rw [hnone, Option.none_or]
      · rfl
    rw [hsame]
    refine ⟨by rw [hops]; exact h.session, fun sid' => by rw [hknown]; exact h.known sid',
      fun sid' => by rw [toolLog_same rfl]; exact h.tools sid',
      fun sid' => by rw [hlast]; exact h.snapshots sid', fun sid' c' hc => ?_⟩
    rw [hlast] at hc
    exact h.storable sid' c' hc

theorem holds_after (settings : WorkspaceSettings) (calls : List StoreCall) :
    Holds settings (empty.after settings calls) calls := by
  induction calls using List.reverseRecOn with
  | nil => exact holds_empty
  | append_singleton calls c ih =>
    rw [after, List.foldl_append]
    cases c with
    | session op => exact holds_session ih op
    | record sid call => exact holds_record ih sid call
    | capture sid c => exact holds_capture ih sid c

end Database

end LlmHomeLab
