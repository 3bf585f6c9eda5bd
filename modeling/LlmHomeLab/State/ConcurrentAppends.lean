import LlmHomeLab.State.ToolStateStore

/-! # Appends from several connections

`SessionManager` and `ToolStateManager` run every store call in a worker thread with a
connection of its own. Python's `sqlite3` opens a transaction only before the `INSERT`, so
the session check, the `SELECT MAX(seq)` and the `INSERT ... commit` of one call are three
atomic steps between which other calls run. Both stores take the steps of `SeqTable.callStep`
on their own table.
-/

namespace LlmHomeLab

open SeqTable

universe w

variable {ι : Type w} [DecidableEq ι]

/-- One step of one of several `append_message` calls on session `sid`. -/
def SessionStore.appendStep (store : SessionStore) (sid : String) (rows : ι → MessageRow) :
    Calls ι String MessageRow → CallStep ι → Option (Calls ι String MessageRow) :=
  callStep (store.sessions.contains sid) sid rows

/-- One step of one of several `record_terminal` or `record_filesystem` calls on session
`sid`. -/
def ToolStateStore.recordStep (store : ToolStateStore) (sid : String) (calls : ι → ToolRecord) :
    Calls ι String ToolRow → CallStep ι → Option (Calls ι String ToolRow) :=
  callStep (store.sessions.contains sid) sid fun i => (calls i).row

/-! ## A call alone -/

/-- A call whose three steps run without another in between. -/
def alone (i : ι) : List (CallStep ι) := [.check i, .select i, .insert i]

theorem exec_alone {κ ρ : Type} [DecidableEq κ] (k : κ) (payload : ι → ρ) (rows : SeqTable κ ρ)
    (i : ι) : ∃ t, exec (callStep true k payload) (Calls.start rows) (alone i) = some t ∧
      t.rows = rows.set (k, nextSeq rows k) (payload i) ∧
      t.pc i = .stored (nextSeq rows k) := by
  refine ⟨{ Calls.goto (Calls.goto (Calls.goto (Calls.start rows) i .checked) i
    (.selected (nextSeq rows k))) i (.stored (nextSeq rows k)) with
    rows := rows.set (k, nextSeq rows k) (payload i) }, ?_, rfl, by simp⟩
  simp [alone, exec, callStep, Calls.start, insertRow_nextSeq]

/-- Run alone, the three steps of a call do what the sequential `append_message` does. -/
theorem SessionStore.appendMessage_alone (store : SessionStore) (sid : String)
    (rows : ι → MessageRow) (i : ι) (h : store.sessions.contains sid = true) :
    ∃ t, exec (store.appendStep sid rows) (Calls.start store.messages) (alone i) = some t ∧
      store.appendMessage sid (rows i).role (rows i).content (rows i).createdAt =
        .ok { store with messages := t.rows } := by
  obtain ⟨t, ht, hrows, _⟩ := exec_alone sid rows store.messages i
  refine ⟨t, by rw [SessionStore.appendStep, h, ht], ?_⟩
  rw [SessionStore.appendMessage_known h, hrows]
  rfl

theorem ToolStateStore.record_alone (store : ToolStateStore) (sid : String)
    (calls : ι → ToolRecord) (i : ι) (h : store.sessions.contains sid = true) :
    ∃ t, exec (store.recordStep sid calls) (Calls.start store.toolInvocations) (alone i) =
        some t ∧
      store.record sid (calls i) = .ok { store with toolInvocations := t.rows } := by
  obtain ⟨t, ht, hrows, _⟩ := exec_alone sid (fun i => (calls i).row) store.toolInvocations i
  refine ⟨t, by rw [ToolStateStore.recordStep, h, ht], ?_⟩
  simp [ToolStateStore.record, ToolStateStore.requireSession, ToolStateStore.insertInvocation, h,
    insertRow_nextSeq, hrows, bind, Except.bind]

/-! ## Calls that overlap -/

/-- Whatever the interleaving: once all calls on a session have ended, every one of them has
stored its row under a seq of its own exactly when no call's `INSERT` fell between another
call's `SELECT MAX(seq)` and `INSERT`. -/
theorem concurrent_appends_stored_iff (store : SessionStore) (tools : ToolStateStore)
    (sid : String) (hstore : store.sessions.contains sid = true)
    (htools : tools.sessions.contains sid = true) (rows : ι → MessageRow)
    (calls : ι → ToolRecord) (es : List (CallStep ι)) :
    (∀ t, Run (Fires (store.appendStep sid rows)) (Calls.start store.messages) es t →
      t.Complete → (AllStored sid rows store.messages t ↔ NoOverlap es)) ∧
    (∀ t, Run (Fires (tools.recordStep sid calls)) (Calls.start tools.toolInvocations) es t →
      t.Complete →
        (AllStored sid (fun i => (calls i).row) tools.toolInvocations t ↔ NoOverlap es)) := by
  constructor
  · intro t hrun hend
    rw [SessionStore.appendStep, hstore] at hrun
    exact allStored_iff_noOverlap hrun hend
  · intro t hrun hend
    rw [ToolStateStore.recordStep, htools] at hrun
    exact allStored_iff_noOverlap hrun hend

/-- A database with the one session `s`, before any call. -/
def oneSession : SessionStore := { SessionStore.empty with sessions := Dict.empty.set "s" "t0" }

/-- The same database, as the tool state store opens it. -/
def oneToolSession : ToolStateStore := ⟨oneSession.sessions, .empty⟩

/-- Two messages, appended by callers `false` and `true`. -/
def twoMessages (i : Bool) : MessageRow := ⟨"user", if i then "second" else "first", "t1"⟩

def twoRecords (i : Bool) : ToolRecord :=
  .filesystem "write" (if i then "b.txt" else "a.txt") "ok" "t1"

/-- One caller after the other: both messages and both records are stored. -/
theorem serial_appends_stored :
    (∃ t, Run (Fires (oneSession.appendStep "s" twoMessages)) (Calls.start oneSession.messages)
      (alone false ++ alone true) t ∧ AllStored "s" twoMessages oneSession.messages t) ∧
    (∃ t, Run (Fires (oneToolSession.recordStep "s" twoRecords))
      (Calls.start oneToolSession.toolInvocations) (alone false ++ alone true) t ∧
      AllStored "s" (fun i => (twoRecords i).row) oneToolSession.toolInvocations t) := by
  -- neither caller writes between the two statements of the other
  have hno : NoOverlap (alone false ++ alone true) := by
    intro i j a b c d hij h
    have hsub : [.select i, .insert j, .insert i].Sublist (alone false ++ alone true) := by
      rw [h]
      refine .trans (.cons_cons _ ?_) (List.sublist_append_right a _)
      refine .trans (.cons_cons _ ?_) (List.sublist_append_right b _)
      exact .trans (.cons_cons _ (List.nil_sublist d)) (List.sublist_append_right c _)
    revert hsub hij
    clear h
    revert i j
    decide
  have hstored := concurrent_appends_stored_iff oneSession oneToolSession "s" (by decide)
    (by decide) twoMessages twoRecords (alone false ++ alone true)
  obtain ⟨t, ht, hpc⟩ : ∃ t, exec (oneSession.appendStep "s" twoMessages)
      (Calls.start oneSession.messages) (alone false ++ alone true) = some t ∧
      t.pc false = .stored 1 ∧ t.pc true = .stored 2 := ⟨_, rfl, by decide, by decide⟩
  obtain ⟨u, hu, hpc'⟩ : ∃ t, exec (oneToolSession.recordStep "s" twoRecords)
      (Calls.start oneToolSession.toolInvocations) (alone false ++ alone true) = some t ∧
      t.pc false = .stored 1 ∧ t.pc true = .stored 2 := ⟨_, rfl, by decide, by decide⟩
  refine ⟨⟨t, run_of_exec ht, (hstored.1 t (run_of_exec ht) ?_).mpr hno⟩,
    ⟨u, run_of_exec hu, (hstored.2 u (run_of_exec hu) ?_).mpr hno⟩⟩
  · rintro (_ | _)
    · exact Or.inr (Or.inr ⟨1, hpc.1⟩)
    · exact Or.inr (Or.inr ⟨2, hpc.2⟩)
  · rintro (_ | _)
    · exact Or.inr (Or.inr ⟨1, hpc'.1⟩)
    · exact Or.inr (Or.inr ⟨2, hpc'.2⟩)

/-- Both callers read the same maximum: the second `INSERT` violates the primary key and its
message is lost. -/
theorem overlapping_append_fails :
    ¬ ∀ es t, Run (Fires (oneSession.appendStep "s" twoMessages))
      (Calls.start oneSession.messages) es t → t.Complete →
      AllStored "s" twoMessages oneSession.messages t := by
  intro h
  obtain ⟨t, ht, hfirst, hsecond⟩ : ∃ t, exec (oneSession.appendStep "s" twoMessages)
      (Calls.start oneSession.messages) [.check false, .check true, .select false, .select true,
        .insert false, .insert true] = some t ∧
      t.pc false = .stored 1 ∧ t.pc true = .failed := ⟨_, rfl, by decide, by decide⟩
  have hend : t.Complete := by
    rintro (_ | _)
    · exact Or.inr (Or.inr ⟨1, hfirst⟩)
    · exact Or.inr (Or.inl hsecond)
  obtain ⟨q, hq, _⟩ := (h _ t (run_of_exec ht) hend).stored true
  simp [hsecond] at hq

end LlmHomeLab
