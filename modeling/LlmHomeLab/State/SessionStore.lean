import LlmHomeLab.Lib.SeqTable

/-! # The session store

`state/store.py` keeps sessions, their messages and one summary per session in SQLite. A
call runs on its own connection and commits at its end, so a call that raises leaves the
tables as they were. Message rows are keyed by (session, seq); `append_message` numbers a
message with the highest stored seq plus one, `summarize` overwrites the session's summary,
and `trim` deletes the rows the current summary covers.

The file follows whole runs of these calls and settles when the numbering only moves
forward (`seqContract_iff`) and when the history has no gap (`noGap_iff`).
-/

namespace LlmHomeLab

/-! ## Model -/

/-- What a store call raises. -/
inductive StoreError where
  | integrityError
  | sessionNotFound (sessionId : String)
  | invalidSummary (sessionId : String) (coversUpToSeq maxSeq : Int)
  | overflowError
deriving DecidableEq, Repr

/-- The texts of the store's own exception classes. -/
def StoreError.message : StoreError → Option String
  | .sessionNotFound sessionId => some s!"session not found: {sessionId}"
  | .invalidSummary sessionId coversUpToSeq maxSeq =>
    some (s!"covers_up_to_seq {coversUpToSeq} exceeds highest message seq {maxSeq} " ++
      s!"for session {sessionId}")
  | _ => none

/-- A row of `messages` without its key. -/
structure MessageRow where
  role : String
  content : String
  createdAt : String
deriving DecidableEq, Repr

structure StoredMessage where
  seq : Int
  role : String
  content : String
  createdAt : String
deriving DecidableEq, Repr

structure Summary where
  coversUpToSeq : Int
  summaryText : String
  createdAt : String
deriving DecidableEq, Repr

structure Session where
  sessionId : String
  messages : List StoredMessage
  summary : Option Summary
deriving DecidableEq, Repr

/-- The three tables: `sessions`, `messages`, `summaries`. -/
structure SessionStore where
  sessions : Dict String String
  messages : SeqTable String MessageRow
  summaries : Dict String Summary

namespace SessionStore

open SeqTable

/-- A freshly created database. -/
def empty : SessionStore := ⟨.empty, .empty, .empty⟩

def requireSession (s : SessionStore) (sessionId : String) : Except StoreError Unit :=
  if s.sessions.contains sessionId then .ok () else .error (.sessionNotFound sessionId)

def createSession (s : SessionStore) (sessionId createdAt : String) :
    Except StoreError SessionStore :=
  if s.sessions.contains sessionId then .error .integrityError
  else .ok { s with sessions := s.sessions.set sessionId createdAt }

def appendMessage (s : SessionStore) (sessionId role content createdAt : String) :
    Except StoreError SessionStore := do
  s.requireSession sessionId
  let next := nextSeq s.messages sessionId
  match insertRow s.messages sessionId next ⟨role, content, createdAt⟩ with
  | some messages => .ok { s with messages := messages }
  | none => .error .integrityError

/-- The `covers_up_to_seq` that `read_session` compares with: 0 without a summary. -/
def coversUpToSeq (s : SessionStore) (sessionId : String) : Int :=
  match s.summaries.get? sessionId with
  | some summary => summary.coversUpToSeq
  | none => 0

/-- `SELECT ... WHERE session_id = ? AND seq > ? ORDER BY seq`. -/
def messagesAfter (s : SessionStore) (sessionId : String) (seq : Int) : List StoredMessage :=
  ((s.messages.entries.filter fun row => row.1.1 = sessionId ∧ seq < row.1.2).map fun row =>
    ⟨row.1.2, row.2.role, row.2.content, row.2.createdAt⟩).insertionSort fun a b => a.seq ≤ b.seq

def readSession (s : SessionStore) (sessionId : String) : Except StoreError Session := do
  s.requireSession sessionId
  return {
    sessionId := sessionId
    messages := s.messagesAfter sessionId (s.coversUpToSeq sessionId)
    summary := s.summaries.get? sessionId }

/-- The lowest value an SQLite `INTEGER` parameter can take; binding less raises. -/
def minInteger : Int := -2 ^ 63

def summarize (s : SessionStore) (sessionId summaryText : String) (covers : Int)
    (createdAt : String) : Except StoreError SessionStore := do
  s.requireSession sessionId
  let max := (maxSeq s.messages sessionId).getD 0
  if max < covers then .error (.invalidSummary sessionId covers max)
  else if covers < minInteger then .error .overflowError
  else .ok { s with summaries := s.summaries.set sessionId ⟨covers, summaryText, createdAt⟩ }

/-- The rows `trim` deletes: `session_id = ? AND seq <= ?`. -/
def coveredRow (sessionId : String) (covers : Int) (key : String × Int) : Bool :=
  key.1 = sessionId ∧ key.2 ≤ covers

def deleteCovered (s : SessionStore) (sessionId : String) (covers : Int) : SessionStore :=
  { s with messages := s.messages.filter fun key _ => !coveredRow sessionId covers key }

/-- Returns the number of rows deleted. -/
def trim (s : SessionStore) (sessionId : String) : Except StoreError (Nat × SessionStore) := do
  s.requireSession sessionId
  match s.summaries.get? sessionId with
  | none => return (0, s)
  | some summary =>
    return ((s.messages.keys.filter (coveredRow sessionId summary.coversUpToSeq)).length,
      s.deleteCovered sessionId summary.coversUpToSeq)

/-! ## Runs -/

inductive Op where
  | createSession (sessionId createdAt : String)
  | appendMessage (sessionId role content createdAt : String)
  | readSession (sessionId : String)
  | summarize (sessionId summaryText : String) (covers : Int) (createdAt : String)
  | trim (sessionId : String)
deriving DecidableEq, Repr

/-- The tables after a call; one that raises changes nothing. -/
def apply (s : SessionStore) : Op → SessionStore
  | .createSession sid at_ => (s.createSession sid at_).toOption.getD s
  | .appendMessage sid role content at_ => (s.appendMessage sid role content at_).toOption.getD s
  | .readSession _ => s
  | .summarize sid text covers at_ => (s.summarize sid text covers at_).toOption.getD s
  | .trim sid => ((s.trim sid).toOption.map Prod.snd).getD s

def after (s : SessionStore) (ops : List Op) : SessionStore := ops.foldl apply s

/-- The message a call appends to session `sid`, with the seq it assigns. -/
def appendedBy (s : SessionStore) (sid : String) : Op → List StoredMessage
  | .appendMessage sid' role content at_ =>
    if sid' = sid ∧ s.sessions.contains sid then
      [⟨nextSeq s.messages sid, role, content, at_⟩]
    else []
  | _ => []

/-- The seqs whose rows a call deletes from session `sid`. -/
def deletedBy (s : SessionStore) (sid : String) : Op → List Int
  | .trim sid' =>
    if sid' = sid ∧ s.sessions.contains sid then
      match s.summaries.get? sid with
      | some summary => (seqs s.messages sid).filter fun q => q ≤ summary.coversUpToSeq
      | none => []
    else []
  | _ => []

/-- Everything ever appended to session `sid` in a run. -/
def appended (sid : String) : SessionStore → List Op → List StoredMessage
  | _, [] => []
  | s, op :: ops => s.appendedBy sid op ++ appended sid (s.apply op) ops

/-- Every seq of session `sid` that `trim` deleted in a run. -/
def deleted (sid : String) : SessionStore → List Op → List Int
  | _, [] => []
  | s, op :: ops => s.deletedBy sid op ++ deleted sid (s.apply op) ops

/-- The call is a `summarize` of session `sid` that goes through and covers `q`. -/
def CoveredBy (s : SessionStore) (sid : String) (q : Int) : Op → Prop
  | .summarize sid' text covers at_ =>
    sid' = sid ∧ q ≤ covers ∧ ∃ s', s.summarize sid' text covers at_ = .ok s'
  | _ => False

/-- Some call of the run covers `q`. -/
def Covered (sid : String) (q : Int) : SessionStore → List Op → Prop
  | _, [] => False
  | s, op :: ops => s.CoveredBy sid q op ∨ Covered sid q (s.apply op) ops

/-! ## What one call does -/

section Steps

variable {s s' : SessionStore} {sid sid' role content text at_ : String} {covers : Int}

theorem apply_createSession (h : s.sessions.contains sid = false) :
    s.apply (.createSession sid at_) = { s with sessions := s.sessions.set sid at_ } := by
  simp [apply, createSession, h, Except.toOption]

theorem apply_createSession_taken (h : s.sessions.contains sid = true) :
    s.apply (.createSession sid at_) = s := by
  simp [apply, createSession, h, Except.toOption]

theorem requireSession_ok (h : s.sessions.contains sid = true) :
    s.requireSession sid = .ok () := by
  simp [requireSession, h]

theorem requireSession_unknown (h : s.sessions.contains sid = false) :
    s.requireSession sid = .error (.sessionNotFound sid) := by
  simp [requireSession, h]

/-- The tables with a row stored under the session's next seq. -/
def putNext (s : SessionStore) (sid : String) (row : MessageRow) : SessionStore :=
  { s with messages := s.messages.set (sid, nextSeq s.messages sid) row }

theorem appendMessage_known (h : s.sessions.contains sid = true) :
    s.appendMessage sid role content at_ = .ok (s.putNext sid ⟨role, content, at_⟩) := by
  simp [appendMessage, requireSession_ok h, insertRow_nextSeq, bind, Except.bind, putNext]

theorem apply_appendMessage (h : s.sessions.contains sid = true) :
    s.apply (.appendMessage sid role content at_) = s.putNext sid ⟨role, content, at_⟩ := by
  simp [apply, appendMessage_known h, Except.toOption]

theorem apply_appendMessage_unknown (h : s.sessions.contains sid = false) :
    s.apply (.appendMessage sid role content at_) = s := by
  simp [apply, appendMessage, requireSession_unknown h, bind, Except.bind, Except.toOption]

/-- `summarize` goes through exactly when its argument is in range. -/
theorem summarize_eq_ok : s.summarize sid text covers at_ = .ok s' ↔
    s.sessions.contains sid = true ∧ covers ≤ (maxSeq s.messages sid).getD 0 ∧
      minInteger ≤ covers ∧
      s' = { s with summaries := s.summaries.set sid ⟨covers, text, at_⟩ } := by
  by_cases hk : s.sessions.contains sid = true
  · by_cases h₁ : (maxSeq s.messages sid).getD 0 < covers
    · simp [summarize, requireSession_ok hk, bind, Except.bind, h₁, not_le.mpr h₁]
    · by_cases h₂ : covers < minInteger
      · simp [summarize, requireSession_ok hk, bind, Except.bind, h₁, h₂, not_le.mpr h₂]
      · simp [summarize, requireSession_ok hk, bind, Except.bind, h₁, h₂, hk, not_lt.mp h₁,
          not_lt.mp h₂, eq_comm]
  · have hk' : s.sessions.contains sid = false := by simpa using hk
    simp [summarize, requireSession_unknown hk', bind, Except.bind, hk']

theorem apply_summarize (h : s.summarize sid text covers at_ = .ok s') :
    s.apply (.summarize sid text covers at_) = s' := by
  simp [apply, h, Except.toOption]

theorem apply_summarize_raises {e : StoreError}
    (h : s.summarize sid text covers at_ = .error e) :
    s.apply (.summarize sid text covers at_) = s := by
  simp [apply, h, Except.toOption]

theorem apply_trim {summary : Summary} (h : s.sessions.contains sid = true)
    (hs : s.summaries.get? sid = some summary) :
    s.apply (.trim sid) = s.deleteCovered sid summary.coversUpToSeq := by
  simp [apply, trim, requireSession_ok h, hs, bind, Except.bind, Except.toOption, pure, Except.pure]

theorem apply_trim_no_summary (hs : s.summaries.get? sid = none) : s.apply (.trim sid) = s := by
  by_cases h : s.sessions.contains sid = true
  · simp [apply, trim, requireSession_ok h, hs, bind, Except.bind, Except.toOption, pure,
      Except.pure]
  · have h' : s.sessions.contains sid = false := by simpa using h
    simp [apply, trim, requireSession_unknown h', bind, Except.bind, Except.toOption]

theorem apply_trim_unknown (h : s.sessions.contains sid = false) : s.apply (.trim sid) = s := by
  simp [apply, trim, requireSession_unknown h, bind, Except.bind, Except.toOption]

/-- Everything a call can do to the tables, with what it appends to and deletes from a
session `sid` that is being watched. -/
theorem apply_cases (s : SessionStore) (op : Op) (sid : String) :
    (s.apply op = s ∧ s.appendedBy sid op = [] ∧ s.deletedBy sid op = []) ∨
    (∃ sid' at_, s.apply op = { s with sessions := s.sessions.set sid' at_ } ∧
      s.appendedBy sid op = [] ∧ s.deletedBy sid op = []) ∨
    (∃ sid' role content at_, op = .appendMessage sid' role content at_ ∧
      s.sessions.contains sid' = true ∧
      s.apply op = s.putNext sid' ⟨role, content, at_⟩ ∧
      s.appendedBy sid op =
        (if sid' = sid then [⟨nextSeq s.messages sid, role, content, at_⟩] else []) ∧
      s.deletedBy sid op = []) ∨
    (∃ sid' text covers at_, op = .summarize sid' text covers at_ ∧
      s.summarize sid' text covers at_ = .ok (s.apply op) ∧
      s.appendedBy sid op = [] ∧ s.deletedBy sid op = []) ∨
    (∃ sid' summary, op = .trim sid' ∧ s.sessions.contains sid' = true ∧
      s.summaries.get? sid' = some summary ∧
      s.apply op = s.deleteCovered sid' summary.coversUpToSeq ∧
      s.appendedBy sid op = [] ∧
      s.deletedBy sid op =
        (if sid' = sid then (seqs s.messages sid).filter fun q => q ≤ summary.coversUpToSeq
          else [])) := by
  cases op with
  | createSession sid' at_ =>
    by_cases h : s.sessions.contains sid' = true
    · -- the id is taken: the call raises
      exact Or.inl ⟨apply_createSession_taken h, rfl, rfl⟩
    · have h' : s.sessions.contains sid' = false := by simpa using h
      exact Or.inr (Or.inl ⟨sid', at_, apply_createSession h', rfl, rfl⟩)
  | appendMessage sid' role content at_ =>
    by_cases h : s.sessions.contains sid' = true
    · refine Or.inr (Or.inr (Or.inl ⟨sid', role, content, at_, rfl, h, apply_appendMessage h,
        ?_, rfl⟩))
      by_cases hs : sid' = sid
      · subst hs
        simp [appendedBy, h]
      · simp [appendedBy, hs]
    · -- an unknown session: the call raises
      have h' : s.sessions.contains sid' = false := by simpa using h
      refine Or.inl ⟨apply_appendMessage_unknown h', ?_, rfl⟩
      by_cases hs : sid' = sid
      · subst hs
        simp [appendedBy, h']
      · simp [appendedBy, hs]
  | readSession sid' => exact Or.inl ⟨rfl, rfl, rfl⟩
  | summarize sid' text covers at_ =>
    cases h : s.summarize sid' text covers at_ with
    | error e => exact Or.inl ⟨apply_summarize_raises h, rfl, rfl⟩
    | ok s' =>
      refine Or.inr (Or.inr (Or.inr (Or.inl ⟨sid', text, covers, at_, rfl, ?_, rfl, rfl⟩)))
      rw [apply_summarize h, h]
  | trim sid' =>
    by_cases h : s.sessions.contains sid' = true
    · cases hsum : s.summaries.get? sid' with
      | none =>
        refine Or.inl ⟨apply_trim_no_summary hsum, rfl, ?_⟩
        by_cases hs : sid' = sid
        · subst hs
          simp [deletedBy, hsum]
        · simp [deletedBy, hs]
      | some summary =>
        refine Or.inr (Or.inr (Or.inr (Or.inr ⟨sid', summary, rfl, h, hsum, apply_trim h hsum,
          rfl, ?_⟩)))
        by_cases hs : sid' = sid
        · subst hs
          simp [deletedBy, hsum, h]
        · simp [deletedBy, hs]
    · -- an unknown session: the call raises
      have h' : s.sessions.contains sid' = false := by simpa using h
      refine Or.inl ⟨apply_trim_unknown h', rfl, ?_⟩
      by_cases hs : sid' = sid
      · subst hs
        simp [deletedBy, h']
      · simp [deletedBy, hs]

end Steps

/-! ## Histories of a run -/

section Histories

variable {sid : String}

@[simp] theorem after_nil (s : SessionStore) : s.after [] = s := rfl

theorem after_snoc (s : SessionStore) (ops : List Op) (op : Op) :
    s.after (ops ++ [op]) = (s.after ops).apply op := by
  simp [after]

theorem appended_snoc (s : SessionStore) (ops : List Op) (op : Op) :
    appended sid s (ops ++ [op]) = appended sid s ops ++ (s.after ops).appendedBy sid op := by
  induction ops generalizing s with
  | nil => simp [appended]
  | cons o ops ih => simp [appended, ih, after]

theorem deleted_snoc (s : SessionStore) (ops : List Op) (op : Op) :
    deleted sid s (ops ++ [op]) = deleted sid s ops ++ (s.after ops).deletedBy sid op := by
  induction ops generalizing s with
  | nil => simp [deleted]
  | cons o ops ih => simp [deleted, ih, after]

end Histories

/-! ## What holds after every run -/

section Numbering

variable {s : SessionStore} {sid sid' : String} {q c : Int} {row : MessageRow}

theorem get?_putNext_self :
    (s.putNext sid row).messages.get? (sid, nextSeq s.messages sid) = some row := by
  simp [putNext]

theorem get?_putNext_of_some {r : MessageRow} (h : s.messages.get? (sid, q) = some r) :
    (s.putNext sid' row).messages.get? (sid, q) = some r := by
  have hne : (sid, q) ≠ (sid', nextSeq s.messages sid') := by
    intro heq
    rw [heq, get?_nextSeq] at h
    cases h
  rw [putNext, Dict.get?_set_of_ne _ hne, h]

theorem get?_putNext_cases {r : MessageRow}
    (h : (s.putNext sid' row).messages.get? (sid, q) = some r) :
    (sid' = sid ∧ q = nextSeq s.messages sid ∧ r = row) ∨ s.messages.get? (sid, q) = some r := by
  by_cases heq : (sid, q) = (sid', nextSeq s.messages sid')
  · left
    have hr : (s.putNext sid' row).messages.get? (sid, q) = some row := by
      rw [heq]
      exact get?_putNext_self
    simp only [Prod.mk.injEq] at heq
    obtain ⟨rfl, hq⟩ := heq
    rw [h] at hr
    exact ⟨rfl, hq, Option.some.inj hr⟩
  · right
    rwa [putNext, Dict.get?_set_of_ne _ heq] at h

theorem get?_deleteCovered_eq_some {r : MessageRow} :
    (s.deleteCovered sid' c).messages.get? (sid, q) = some r ↔
      s.messages.get? (sid, q) = some r ∧ (sid = sid' → c < q) := by
  rw [deleteCovered, Dict.get?_filter, Option.filter_eq_some_iff]
  simp [coveredRow, imp_iff_not_or]

theorem coversUpToSeq_put {summary : Summary} :
    coversUpToSeq { s with summaries := s.summaries.set sid' summary } sid =
      if sid = sid' then summary.coversUpToSeq else s.coversUpToSeq sid := by
  by_cases h : sid = sid'
  · subst h
    simp [coversUpToSeq]
  · simp [coversUpToSeq, Dict.get?_set_of_ne _ h, h]

/-- The row of a message. -/
def rowOf (m : StoredMessage) : MessageRow :=
  ⟨m.role, m.content, m.createdAt⟩

/-- Numbers start at 1, rows come from appends, an appended message is stored or was
trimmed, and a summary covers no more than was once appended. -/
structure Numbered (sid : String) (s : SessionStore) (app : List StoredMessage)
    (del : List Int) : Prop where
  known : app ≠ [] → s.sessions.contains sid = true
  pos : ∀ m ∈ app, 1 ≤ m.seq
  fromAppend : ∀ q r, s.messages.get? (sid, q) = some r → ∃ m ∈ app, m.seq = q
  kept : ∀ m ∈ app, s.messages.get? (sid, m.seq) = some (rowOf m) ∨ m.seq ∈ del
  coversLe : s.coversUpToSeq sid ≤ 0 ∨ ∃ m ∈ app, s.coversUpToSeq sid ≤ m.seq

theorem contains_set (h : s.sessions.contains sid = true) {at_ : String} :
    (s.sessions.set sid' at_).contains sid = true := by
  rw [Dict.contains_iff] at h ⊢
  by_cases heq : sid = sid'
  · exact ⟨at_, by simp [heq]⟩
  · simpa [Dict.get?_set_of_ne _ heq] using h

/-- The highest number a session has in store was appended to it. -/
theorem maxSeq_le_of_fromAppend {app : List StoredMessage} {del : List Int} {m : Int}
    (h : Numbered sid s app del) (hm : maxSeq s.messages sid = some m) : ∃ x ∈ app, x.seq = m := by
  obtain ⟨r, hr⟩ := (maxSeq_eq_some.mp hm).1
  exact h.fromAppend m r hr

theorem one_le_nextSeq {app : List StoredMessage} {del : List Int} (h : Numbered sid s app del) :
    1 ≤ nextSeq s.messages sid := by
  cases hm : maxSeq s.messages sid with
  | none => simp [nextSeq_of_empty hm]
  | some m =>
    obtain ⟨x, hx, rfl⟩ := maxSeq_le_of_fromAppend h hm
    have hpos := h.pos x hx
    rw [nextSeq_of_max hm]
    omega

theorem numbered_step (op : Op) {app : List StoredMessage} {del : List Int}
    (h : Numbered sid s app del) :
    Numbered sid (s.apply op) (app ++ s.appendedBy sid op) (del ++ s.deletedBy sid op) := by
  rcases apply_cases s op sid with ⟨hs, ha, hd⟩ | ⟨sid', at_, hs, ha, hd⟩ |
    ⟨sid', role, content, at_, _, hk, hs, ha, hd⟩ | ⟨sid', text, covers, at_, _, hs, ha, hd⟩ |
    ⟨sid', summary, _, hk, hsum, hs, ha, hd⟩
  · simpa [hs, ha, hd] using h
  · rw [hs, ha, hd, List.append_nil, List.append_nil]
    exact ⟨fun hne => contains_set (h.known hne), h.pos, h.fromAppend, h.kept, h.coversLe⟩
  · -- an append: nothing else moves, and the new number is free
    rw [hs, ha, hd, List.append_nil]
    by_cases hsid : sid' = sid
    · subst hsid
      rw [if_pos rfl]
      have hnew : ∀ m ∈ app ++ [(⟨nextSeq s.messages sid', role, content, at_⟩ : StoredMessage)],
          m ∈ app ∨ m = ⟨nextSeq s.messages sid', role, content, at_⟩ := by
        intro m hm
        simpa using hm
      refine ⟨fun _ => hk, fun m hm => ?_, fun q r hr => ?_, fun m hm => ?_, ?_⟩
      · rcases hnew m hm with hm | rfl
        · exact h.pos m hm
        · exact one_le_nextSeq h
      · rcases get?_putNext_cases hr with ⟨_, rfl, rfl⟩ | hr
        · exact ⟨_, List.mem_append_right _ (List.mem_singleton_self _), rfl⟩
        · obtain ⟨m, hm, hq⟩ := h.fromAppend q r hr
          exact ⟨m, List.mem_append_left _ hm, hq⟩
      · rcases hnew m hm with hm | rfl
        · rcases h.kept m hm with hr | hdel
          · exact Or.inl (get?_putNext_of_some hr)
          · exact Or.inr hdel
        · exact Or.inl get?_putNext_self
      · rcases h.coversLe with hc | ⟨m, hm, hc⟩
        · exact Or.inl hc
        · exact Or.inr ⟨m, List.mem_append_left _ hm, hc⟩
    · rw [if_neg hsid, List.append_nil]
      refine ⟨h.known, h.pos, fun q r hr => ?_, fun m hm => ?_, h.coversLe⟩
      · rcases get?_putNext_cases hr with ⟨heq, _⟩ | hr
        · exact absurd heq hsid
        · exact h.fromAppend q r hr
      · rcases h.kept m hm with hr | hdel
        · exact Or.inl (get?_putNext_of_some hr)
        · exact Or.inr hdel
  · -- a summary: its argument is at most a number that was appended
    obtain ⟨_, hle, _, hs'⟩ := summarize_eq_ok.mp hs
    rw [ha, hd, List.append_nil, List.append_nil, hs']
    refine ⟨h.known, h.pos, h.fromAppend, h.kept, ?_⟩
    rw [coversUpToSeq_put]
    by_cases hsid : sid = sid'
    · subst hsid
      rw [if_pos rfl]
      cases hm : maxSeq s.messages sid with
      | none =>
        rw [hm] at hle
        exact Or.inl hle
      | some m =>
        rw [hm] at hle
        obtain ⟨x, hx, rfl⟩ := maxSeq_le_of_fromAppend h hm
        exact Or.inr ⟨x, hx, hle⟩
    · rw [if_neg hsid]
      exact h.coversLe
  · -- a trim: the rows that go are exactly the ones reported as deleted
    rw [hs, ha, hd, List.append_nil]
    refine ⟨h.known, h.pos, fun q r hr => ?_, fun m hm => ?_, h.coversLe⟩
    · exact h.fromAppend q r (get?_deleteCovered_eq_some.mp hr).1
    · rcases h.kept m hm with hr | hdel
      · by_cases hgone : sid = sid' ∧ m.seq ≤ summary.coversUpToSeq
        · right
          rw [if_pos hgone.1.symm]
          refine List.mem_append_right _ (List.mem_filter.mpr ⟨mem_seqs.mpr ⟨_, hr⟩, ?_⟩)
          simpa using hgone.2
        · left
          refine get?_deleteCovered_eq_some.mpr ⟨hr, fun heq => ?_⟩
          exact not_le.mp fun hle => hgone ⟨heq, hle⟩
      · exact Or.inr (List.mem_append_left _ hdel)

theorem numbered_run (sid : String) (ops : List Op) :
    Numbered sid (empty.after ops) (appended sid empty ops) (deleted sid empty ops) := by
  induction ops using List.reverseRecOn with
  | nil =>
    refine ⟨fun h => absurd rfl h, ?_, ?_, ?_, Or.inl ?_⟩ <;>
      simp [appended, empty, coversUpToSeq]
  | append_singleton ops op ih =>
    rw [after_snoc, appended_snoc, deleted_snoc]
    exact numbered_step op ih

end Numbering

/-! ## Sequence numbers only move forward -/

section SeqContract

/-- Every append takes a seq above all seqs assigned in its session before, and from then on
every read returns the message until a later `summarize` covers its seq. -/
def SeqContract (ops : List Op) : Prop :=
  ∀ (pre : List Op) (sid role content at_ : String) (mid rest : List Op),
    ops = pre ++ .appendMessage sid role content at_ :: (mid ++ rest) →
    (empty.after pre).sessions.contains sid = true →
    let next := nextSeq (empty.after pre).messages sid
    let s := (empty.after pre).apply (.appendMessage sid role content at_)
    (∀ m ∈ appended sid empty pre, m.seq < next) ∧
      (¬ Covered sid next s mid → ∃ session, (s.after mid).readSession sid = .ok session ∧
        ⟨next, role, content, at_⟩ ∈ session.messages)

/-- Every append finds a row of its session in store, unless nothing was ever appended. -/
def AppendsSeeRows (ops : List Op) : Prop :=
  ∀ (pre : List Op) (sid role content at_ : String) (rest : List Op),
    ops = pre ++ .appendMessage sid role content at_ :: rest →
    (empty.after pre).sessions.contains sid = true →
    maxSeq (empty.after pre).messages sid ≠ none ∨ appended sid empty pre = []

theorem appendsSeeRows_of_append {ops ops' : List Op} (h : AppendsSeeRows (ops ++ ops')) :
    AppendsSeeRows ops := by
  intro pre sid role content at_ rest hops
  refine h pre sid role content at_ (rest ++ ops') ?_
  simp [hops]

/-- As long as appends see rows, the highest stored number is the highest ever given. -/
theorem appended_le_maxSeq (sid : String) {ops : List Op} (h : AppendsSeeRows ops) {m : Int}
    (hm : maxSeq (empty.after ops).messages sid = some m) :
    ∀ x ∈ appended sid empty ops, x.seq ≤ m := by
  -- by induction on the calls, the last one first
  induction ops using List.reverseRecOn generalizing m with
  | nil => simp [appended]
  | append_singleton ops op ih =>
    have ih' := fun {m : Int} => ih (appendsSeeRows_of_append h) (m := m)
    rw [after_snoc] at hm
    rw [appended_snoc]
    generalize hs₀ : empty.after ops = s at *
    rcases apply_cases s op sid with ⟨hs, ha, _⟩ | ⟨sid', at_, hs, ha, _⟩ |
      ⟨sid', role, content, at_, hop, hk, hs, ha, _⟩ | ⟨sid', text, covers, at_, _, hs, ha, _⟩ |
      ⟨sid', summary, _, _, _, hs, ha, _⟩
    · rw [ha, List.append_nil]
      rw [hs] at hm
      exact ih' hm
    · rw [ha, List.append_nil]
      rw [hs] at hm
      exact ih' hm
    · -- an append: the number given is the highest now
      rw [ha]
      rw [hs] at hm
      obtain ⟨⟨r, hr⟩, hmax⟩ := maxSeq_eq_some.mp hm
      by_cases hsid : sid' = sid
      · subst hsid
        have hnext : nextSeq s.messages sid' ≤ m := hmax _ _ get?_putNext_self
        intro x hx
        rw [if_pos rfl, List.mem_append, List.mem_singleton] at hx
        rcases hx with hx | rfl
        · -- the row found before the append bounds everything given before
          have hsee := h ops sid' role content at_ [] (by rw [hop])
          rw [hs₀] at hsee
          rcases hsee hk with hne | hnil
          · obtain ⟨m', hm'⟩ := Option.ne_none_iff_exists'.mp hne
            have hxm := ih' hm' x hx
            rw [nextSeq_of_max hm'] at hnext
            omega
          · simp [hnil] at hx
        · exact hnext
      · rw [if_neg hsid, List.append_nil]
        refine ih' (maxSeq_eq_some.mpr ⟨⟨r, ?_⟩, fun q r' hr' => ?_⟩)
        · rcases get?_putNext_cases hr with ⟨heq, _⟩ | hr
          · exact absurd heq hsid
          · exact hr
        · exact hmax q r' (get?_putNext_of_some hr')
    · rw [ha, List.append_nil]
      obtain ⟨_, _, _, hs'⟩ := summarize_eq_ok.mp hs
      rw [hs'] at hm
      exact ih' hm
    · -- a trim that leaves a row leaves the highest one
      rw [ha, List.append_nil]
      rw [hs] at hm
      obtain ⟨⟨r, hr⟩, hmax⟩ := maxSeq_eq_some.mp hm
      obtain ⟨hr', hlt⟩ := get?_deleteCovered_eq_some.mp hr
      refine ih' (maxSeq_eq_some.mpr ⟨⟨r, hr'⟩, fun q r'' hr'' => ?_⟩)
      by_cases hq : q ≤ m
      · exact hq
      · refine hmax q r'' (get?_deleteCovered_eq_some.mpr ⟨hr'', fun heq => ?_⟩)
        have := hlt heq
        omega

theorem mem_messagesAfter {s : SessionStore} {sid : String} {c : Int} {m : StoredMessage} :
    m ∈ s.messagesAfter sid c ↔ s.messages.get? (sid, m.seq) = some (rowOf m) ∧ c < m.seq := by
  rw [messagesAfter, List.mem_insertionSort, Dict.get?_eq_some]
  simp only [List.mem_map, List.mem_filter, decide_eq_true_eq, Prod.exists]
  constructor
  · rintro ⟨key, q, r, ⟨hmem, rfl, hlt⟩, rfl⟩
    exact ⟨hmem, hlt⟩
  · rintro ⟨hmem, hlt⟩
    exact ⟨sid, m.seq, rowOf m, ⟨hmem, rfl, hlt⟩, rfl⟩

theorem readSession_known {s : SessionStore} {sid : String}
    (h : s.sessions.contains sid = true) :
    s.readSession sid =
      .ok ⟨sid, s.messagesAfter sid (s.coversUpToSeq sid), s.summaries.get? sid⟩ := by
  simp [readSession, requireSession_ok h, bind, Except.bind, pure, Except.pure]

/-- `read_session` returns the message. -/
def Visible (s : SessionStore) (sid : String) (m : StoredMessage) : Prop :=
  s.sessions.contains sid = true ∧ s.messages.get? (sid, m.seq) = some (rowOf m) ∧
    s.coversUpToSeq sid < m.seq

theorem Visible.read {s : SessionStore} {sid : String} {m : StoredMessage}
    (h : s.Visible sid m) :
    ∃ session, s.readSession sid = .ok session ∧ m ∈ session.messages :=
  ⟨_, readSession_known h.1, mem_messagesAfter.mpr h.2⟩

/-- Only a covering `summarize` hides a message that is read now. -/
theorem visible_step {s : SessionStore} {sid : String} {m : StoredMessage} (op : Op)
    (h : s.Visible sid m) (hop : ¬ s.CoveredBy sid m.seq op) : (s.apply op).Visible sid m := by
  obtain ⟨hk, hrow, hlt⟩ := h
  rcases apply_cases s op sid with ⟨hs, _⟩ | ⟨sid', at_, hs, _⟩ |
    ⟨sid', role, content, at_, _, _, hs, _⟩ | ⟨sid', text, covers, at_, rfl, hs, _⟩ |
    ⟨sid', summary, _, _, hsum, hs, _⟩
  · rw [hs]
    exact ⟨hk, hrow, hlt⟩
  · rw [hs]
    exact ⟨contains_set hk, hrow, hlt⟩
  · rw [hs]
    exact ⟨hk, get?_putNext_of_some hrow, hlt⟩
  · -- the summary does not reach the message
    obtain ⟨_, _, _, hs'⟩ := summarize_eq_ok.mp hs
    rw [hs']
    refine ⟨hk, hrow, ?_⟩
    rw [coversUpToSeq_put]
    by_cases hsid : sid = sid'
    · rw [if_pos hsid]
      exact not_le.mp fun hle => hop ⟨hsid.symm, hle, _, hs⟩
    · rwa [if_neg hsid]
  · -- only covered rows are deleted
    rw [hs]
    refine ⟨hk, get?_deleteCovered_eq_some.mpr ⟨hrow, ?_⟩, hlt⟩
    rintro rfl
    simpa [coversUpToSeq, hsum] using hlt

theorem visible_after {sid : String} {m : StoredMessage} {s : SessionStore} {ops : List Op}
    (h : s.Visible sid m) (hops : ¬ Covered sid m.seq s ops) : (s.after ops).Visible sid m := by
  induction ops generalizing s with
  | nil => exact h
  | cons op ops ih =>
    simp only [Covered, not_or] at hops
    exact ih (visible_step op h hops.1) hops.2

/-- Numbers move forward and no message is lost exactly in the runs in which no append
meets a session that was appended to before and whose rows are all gone. -/
theorem seqContract_iff (ops : List Op) : SeqContract ops ↔ AppendsSeeRows ops := by
  constructor
  · intro h pre sid role content at_ rest hops hk
    by_contra hcon
    simp only [not_or, ne_eq, not_not] at hcon
    obtain ⟨hempty, hsome⟩ := hcon
    obtain ⟨m, hm⟩ := List.exists_mem_of_ne_nil _ hsome
    -- the counter starts again at 1, which was given out before
    have hlt := (h pre sid role content at_ [] rest hops hk).1 m hm
    rw [nextSeq_of_empty hempty] at hlt
    have hpos := (numbered_run sid pre).pos m hm
    omega
  · intro h pre sid role content at_ mid rest hops hk
    have hpre : AppendsSeeRows pre := appendsSeeRows_of_append (hops ▸ h)
    have hnum := numbered_run sid pre
    have habove : ∀ m ∈ appended sid empty pre,
        m.seq < nextSeq (empty.after pre).messages sid := by
      rcases h pre sid role content at_ _ hops hk with hne | hnil
      · obtain ⟨top, htop⟩ := Option.ne_none_iff_exists'.mp hne
        intro m hm
        have hle := appended_le_maxSeq sid hpre htop m hm
        rw [nextSeq_of_max htop]
        omega
      · simp [hnil]
    refine ⟨habove, fun hcov => Visible.read (visible_after ?_ hcov)⟩
    rw [apply_appendMessage hk]
    refine ⟨hk, get?_putNext_self, ?_⟩
    change (empty.after pre).coversUpToSeq sid < nextSeq (empty.after pre).messages sid
    have hone := one_le_nextSeq hnum
    rcases hnum.coversLe with hc | ⟨m, hm, hc⟩
    · omega
    · have := habove m hm
      omega

/-- One message, a summary that covers it, a trim: the next message gets seq 1 again and the
stored summary hides it. -/
theorem seqContract_fails_after_full_trim :
    ¬ SeqContract [.createSession "s" "t0", .appendMessage "s" "user" "first" "t1",
      .summarize "s" "greeting" 1 "t2", .trim "s", .appendMessage "s" "user" "second" "t3"] := by
  intro h
  have hlast := h [.createSession "s" "t0", .appendMessage "s" "user" "first" "t1",
    .summarize "s" "greeting" 1 "t2", .trim "s"] "s" "user" "second" "t3" [] [] rfl (by decide)
  have hone := hlast.1 ⟨1, "user", "first", "t1"⟩ (by decide)
  exact absurd hone (by decide)

end SeqContract

/-! ## The history has no gap -/

section NoGap

/-- In every state of the run: a seq that `trim` deleted is covered by the summary
`read_session` returns, and every message ever appended is returned or covered. -/
def NoGap (ops : List Op) : Prop :=
  ∀ (pre rest : List Op), ops = pre ++ rest →
    ∀ (sid : String) (session : Session), (empty.after pre).readSession sid = .ok session →
      (∀ q ∈ deleted sid empty pre,
        ∃ summary, session.summary = some summary ∧ q ≤ summary.coversUpToSeq) ∧
      (∀ m ∈ appended sid empty pre, m ∈ session.messages ∨
        ∃ summary, session.summary = some summary ∧ m.seq ≤ summary.coversUpToSeq)

/-- No `summarize` that goes through covers less than what `trim` has deleted. -/
def SummariesReachTrims (ops : List Op) : Prop :=
  ∀ (pre : List Op) (sid text : String) (covers : Int) (at_ : String) (rest : List Op),
    ops = pre ++ .summarize sid text covers at_ :: rest →
    (∃ s', (empty.after pre).summarize sid text covers at_ = .ok s') →
    ∀ q ∈ deleted sid empty pre, q ≤ covers

theorem summariesReachTrims_of_append {ops ops' : List Op} (h : SummariesReachTrims (ops ++ ops')) :
    SummariesReachTrims ops := by
  intro pre sid text covers at_ rest hops
  exact h pre sid text covers at_ (rest ++ ops') (by simp [hops])

/-- What is deleted stays below the current summary. -/
theorem deleted_covered (sid : String) {ops : List Op} (h : SummariesReachTrims ops) :
    ∀ q ∈ deleted sid empty ops, ∃ summary,
      (empty.after ops).summaries.get? sid = some summary ∧ q ≤ summary.coversUpToSeq := by
  induction ops using List.reverseRecOn with
  | nil => simp [deleted]
  | append_singleton ops op ih =>
    have ih' := ih (summariesReachTrims_of_append h)
    rw [after_snoc, deleted_snoc]
    generalize hs₀ : empty.after ops = s at *
    rcases apply_cases s op sid with ⟨hs, _, hd⟩ | ⟨sid', at_, hs, _, hd⟩ |
      ⟨sid', role, content, at_, _, _, hs, _, hd⟩ | ⟨sid', text, covers, at_, hop, hs, _, hd⟩ |
      ⟨sid', summary, _, _, hsum, hs, _, hd⟩
    · rw [hd, List.append_nil, hs]
      exact ih'
    · rw [hd, List.append_nil, hs]
      exact ih'
    · rw [hd, List.append_nil, hs]
      exact ih'
    · -- a new summary still covers what has been deleted, by hypothesis
      rw [hd, List.append_nil]
      intro q hq
      have hq' := ih' q hq
      obtain ⟨_, _, _, hs'⟩ := summarize_eq_ok.mp hs
      rw [hs']
      by_cases hsid : sid = sid'
      · subst hsid
        refine ⟨⟨covers, text, at_⟩, by simp, ?_⟩
        exact h ops sid text covers at_ [] (by rw [hop]) ⟨_, by rw [hs₀]; exact hs⟩ q hq
      · simpa [Dict.get?_set_of_ne _ hsid] using hq'
    · -- a trim deletes what the summary covers
      intro q hq
      rw [hd, List.mem_append] at hq
      rw [hs]
      rcases hq with hq | hq
      · exact ih' q hq
      · by_cases hsid : sid' = sid
        · subst hsid
          rw [if_pos rfl, List.mem_filter] at hq
          exact ⟨summary, hsum, by simpa using hq.2⟩
        · simp [if_neg hsid] at hq

/-- The history has no gap exactly in the runs whose accepted summaries all reach at least as
far as the trims before them. -/
theorem noGap_iff (ops : List Op) : NoGap ops ↔ SummariesReachTrims ops := by
  constructor
  · -- read the session right after the summary: everything deleted must be covered by it
    rintro h pre sid text covers at_ rest hops ⟨s', hs'⟩ q hq
    obtain ⟨hk, _, _, hs''⟩ := summarize_eq_ok.mp hs'
    have hafter : empty.after (pre ++ [.summarize sid text covers at_]) = s' := by
      rw [after_snoc, apply_summarize hs']
    have hk' : s'.sessions.contains sid = true := by
      rw [hs'']
      exact hk
    rw [← hafter] at hk'
    have hread := readSession_known hk'
    have hgap := (h _ rest (by simp [hops]) sid _ hread).1 q
    rw [deleted_snoc] at hgap
    obtain ⟨summary, hsum, hle⟩ := hgap (List.mem_append_left _ hq)
    rw [hafter, hs''] at hsum
    simp only [Dict.get?_set_self, Option.some.injEq] at hsum
    rwa [← hsum] at hle
  · intro h pre rest hops sid session hread
    have hk : (empty.after pre).sessions.contains sid = true := by
      by_contra hk
      have hk' : (empty.after pre).sessions.contains sid = false := by simpa using hk
      simp [readSession, requireSession_unknown hk', bind, Except.bind] at hread
    rw [readSession_known hk] at hread
    cases hread
    have hdel := deleted_covered sid (summariesReachTrims_of_append (hops ▸ h))
    refine ⟨hdel, fun m hm => ?_⟩
    -- a message is in the table, or a trim has deleted it
    rcases (numbered_run sid pre).kept m hm with hrow | hq
    · by_cases hlt : (empty.after pre).coversUpToSeq sid < m.seq
      · exact Or.inl (mem_messagesAfter.mpr ⟨hrow, hlt⟩)
      · right
        have hpos := (numbered_run sid pre).pos m hm
        cases hsum : (empty.after pre).summaries.get? sid with
        | none =>
          simp only [coversUpToSeq, hsum] at hlt
          omega
        | some summary =>
          refine ⟨summary, rfl, ?_⟩
          simpa [coversUpToSeq, hsum] using hlt
    · exact Or.inr (hdel m.seq hq)

/-- Three messages, a summary of the first two, a trim, then a summary of the first one
alone: the second message is neither stored nor covered. -/
theorem noGap_fails_after_shorter_summary :
    ¬ NoGap [.createSession "s" "t0", .appendMessage "s" "user" "a" "t1",
      .appendMessage "s" "assistant" "b" "t2", .appendMessage "s" "user" "c" "t3",
      .summarize "s" "both" 2 "t4", .trim "s", .summarize "s" "only the first" 1 "t5"] := by
  intro h
  have hread := (h _ [] (List.append_nil _).symm "s"
    ⟨"s", [⟨3, "user", "c", "t3"⟩], some ⟨1, "only the first", "t5"⟩⟩ (by rfl)).1 2 (by decide)
  obtain ⟨summary, hsum, hle⟩ := hread
  cases hsum
  exact absurd hle (by decide)

end NoGap

end SessionStore

end LlmHomeLab
