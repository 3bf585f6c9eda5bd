import LlmHomeLab.State.SessionStore

/-! # Trimming

`read_session` passes over the messages with `seq > covers` false, and `trim` deletes those with
`seq <= covers`. The two agree, and without a summary there is nothing to pass over because no
message has a number below 1.
-/

namespace LlmHomeLab

namespace SessionStore

open SeqTable

/-! ## Statement -/

/-- The numbers of the rows of a session that the summary covers; all numbers from 0 down without
one. -/
def coveredSeqs (s : SessionStore) (sid : String) : List Int :=
  (seqs s.messages sid).filter (· ≤ s.coversUpToSeq sid)

/-- What a reader sees of `s` is what it sees of `s'`, and nothing of another session has
changed. -/
structure Unseen (s s' : SessionStore) (sid : String) : Prop where
  read : ∀ sid', s'.readSession sid' = s.readSession sid'
  sessions : s'.sessions = s.sessions
  summaries : s'.summaries = s.summaries
  otherRows : ∀ sid', sid' ≠ sid → ∀ q, s'.messages.get? (sid', q) = s.messages.get? (sid', q)

/-! ## The covered rows -/

section

variable {s : SessionStore} {sid sid' : String} {covers : Int}

/-- Deleting covered rows does not change what comes after a number that is not below the
coverage. -/
theorem messagesAfter_deleteCovered {seq : Int} (h : sid' = sid → covers ≤ seq) :
    (s.deleteCovered sid covers).messagesAfter sid' seq = s.messagesAfter sid' seq := by
  unfold messagesAfter deleteCovered Dict.filter
  rw [List.filter_filter]
  congr 2
  refine List.filter_congr fun row _ => ?_
  rw [Bool.eq_iff_iff, Bool.and_eq_true, decide_eq_true_eq, and_iff_left_iff_imp]
  rintro ⟨hid, hseq⟩
  simp only [coveredRow, Bool.not_eq_true', decide_eq_false_iff_not, not_and, not_le]
  intro hsid
  have hle := h (hid.symm.trans hsid)
  omega

/-- What `trim` counts. -/
theorem length_coveredRows : (s.messages.keys.filter (coveredRow sid covers)).length =
    ((seqs s.messages sid).filter (· ≤ covers)).length := by
  rw [seqs, List.filter_map, List.length_map, List.filter_filter]
  congr 1
  refine List.filter_congr fun key _ => ?_
  simp [coveredRow, Bool.and_comm]

theorem coveredRows_deleteCovered :
    ((s.deleteCovered sid covers).messages.keys.filter (coveredRow sid covers)) = [] := by
  rw [List.filter_eq_nil_iff]
  intro key hkey hcovered
  obtain ⟨row, hrow⟩ := (Dict.mem_keys _).mp hkey
  obtain ⟨-, hlt⟩ := get?_deleteCovered_eq_some.mp hrow
  simp only [coveredRow, decide_eq_true_eq] at hcovered
  have := hlt hcovered.1
  omega

theorem deleteCovered_deleteCovered :
    (s.deleteCovered sid covers).deleteCovered sid covers = s.deleteCovered sid covers := by
  unfold deleteCovered
  congr 1
  refine Dict.ext_entries ?_
  simp only [Dict.filter, List.filter_filter, Bool.and_self]

theorem unseen_deleteCovered (hcovers : s.coversUpToSeq sid = covers) :
    Unseen s (s.deleteCovered sid covers) sid where
  read sid' := by
    have hafter : (s.deleteCovered sid covers).messagesAfter sid' (s.coversUpToSeq sid') =
        s.messagesAfter sid' (s.coversUpToSeq sid') := by
      refine messagesAfter_deleteCovered ?_
      rintro rfl
      exact hcovers.ge
    unfold readSession
    change (do requireSession s sid'; pure (⟨sid',
      (s.deleteCovered sid covers).messagesAfter sid' (s.coversUpToSeq sid'),
      s.summaries.get? sid'⟩ : Session)) = _
    rw [hafter]
  sessions := rfl
  summaries := rfl
  otherRows sid' hne q := by
    ext row
    rw [get?_deleteCovered_eq_some]
    exact and_iff_left fun heq => absurd heq hne

end

/-- No message has a number below 1. -/
theorem coveredSeqs_of_no_summary (ops : List Op) (sid : String)
    (h : (empty.after ops).summaries.get? sid = none) :
    (empty.after ops).coveredSeqs sid = [] := by
  have hcovers : (empty.after ops).coversUpToSeq sid = 0 := by rw [coversUpToSeq, h]
  rw [coveredSeqs, hcovers, List.filter_eq_nil_iff]
  intro q hq hle
  obtain ⟨row, hrow⟩ := mem_seqs.mp hq
  obtain ⟨m, hm, rfl⟩ := (numbered_run sid ops).fromAppend q row hrow
  have hpos := (numbered_run sid ops).pos m hm
  rw [decide_eq_true_eq] at hle
  omega

theorem trim_of_no_summary {s : SessionStore} {sid : String}
    (hknown : s.sessions.contains sid = true) (h : s.summaries.get? sid = none) :
    s.trim sid = .ok (0, s) := by
  simp [trim, requireSession_ok hknown, h, bind, Except.bind, pure, Except.pure]

theorem trim_of_summary {s : SessionStore} {sid : String} {summary : Summary}
    (hknown : s.sessions.contains sid = true) (h : s.summaries.get? sid = some summary) :
    s.trim sid =
      .ok ((s.messages.keys.filter (coveredRow sid summary.coversUpToSeq)).length,
        s.deleteCovered sid summary.coversUpToSeq) := by
  simp [trim, requireSession_ok hknown, h, bind, Except.bind, pure, Except.pure]

/-- Trimming a session changes nothing that is read, returns how many rows of the session the
summary covers, and leaves nothing for the next one. -/
theorem trim_unseen (ops : List Op) (sid : String) :
    ((empty.after ops).sessions.contains sid = false ∧
      (empty.after ops).trim sid = .error (.sessionNotFound sid)) ∨
    ∃ n s', (empty.after ops).trim sid = .ok (n, s') ∧ Unseen (empty.after ops) s' sid ∧
      n = ((empty.after ops).coveredSeqs sid).length ∧
      ((empty.after ops).summaries.get? sid = none → n = 0) ∧
      s'.trim sid = .ok (0, s') := by
  have hnone := coveredSeqs_of_no_summary ops sid
  generalize empty.after ops = s at *
  cases hknown : s.sessions.contains sid with
  | false => exact Or.inl ⟨rfl, by simp [trim, requireSession_unknown hknown, bind, Except.bind]⟩
  | true =>
    right
    cases hsummary : s.summaries.get? sid with
    | none =>
      have htrim := trim_of_no_summary hknown hsummary
      refine ⟨0, s, htrim, ⟨fun _ => rfl, rfl, rfl, fun _ _ _ => rfl⟩, ?_, fun _ => rfl, htrim⟩
      rw [hnone hsummary]
      rfl
    | some summary =>
      have hcovers : s.coversUpToSeq sid = summary.coversUpToSeq := by
        rw [coversUpToSeq, hsummary]
      have hagain := trim_of_summary (s := s.deleteCovered sid summary.coversUpToSeq) hknown hsummary
      refine ⟨_, _, trim_of_summary hknown hsummary, unseen_deleteCovered hcovers, ?_, ?_, ?_⟩
      · rw [length_coveredRows, coveredSeqs, hcovers]
      · intro h
        cases h
      · rw [hagain, coveredRows_deleteCovered, deleteCovered_deleteCovered]
        rfl

end SessionStore

end LlmHomeLab
