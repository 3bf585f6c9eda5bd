import LlmHomeLab.Lib.Window
import LlmHomeLab.Observability.Readable

/-! # The completion log

`observability/completion_log.py`: the times of the completions of each host, and how many there
are an hour. Writing drops old times from the front of a queue that need not be in order. Times and
durations are microseconds.
-/

namespace LlmHomeLab

/-! ## Model -/

/-- `MIN_OBSERVED`. -/
def minObserved : Int := 60000000

/-- `timedelta(hours=1)`. -/
def oneHour : Int := 3600000000

structure CompletionLog where
  window : Int
  startedAt : Int
  completions : Dict String (List Int) := .empty

namespace CompletionLog

/-- `CompletionLog(window, clock)`, where the clock shows `startedAt`. -/
def new (window startedAt : Int) : Except NumError CompletionLog :=
  if window ≤ 0 then .error .valueError else .ok { window, startedAt }

variable (log : CompletionLog) (hostId : String) (now : Int)

def record : CompletionLog :=
  let cutoff := now - log.window
  let completions := (log.completions.get? hostId).getD [] ++ [now]
  { log with completions := log.completions.set hostId (completions.dropWhile (· ≤ cutoff)) }

def count : ℕ :=
  let cutoff := now - log.window
  ((log.completions.get? hostId).getD []).countP fun completedAt =>
    cutoff < completedAt && completedAt ≤ now

/-- `_observed`. -/
def observed : Int := min log.window (max (now - log.startedAt) minObserved)

def tasksPerHour (V : Type) [PyFloat V] : Except NumError V :=
  PyFloat.intDiv (log.count hostId now * oneHour) (log.observed now)

/-! ## Statement -/

/-- Completions of hosts, recorded one after the other. -/
def recordAll (records : List (String × Int)) : CompletionLog :=
  records.foldl (fun log record => log.record record.1 record.2) log

/-- The completions of a host in the window that ends now. -/
def inWindow (window : Int) (records : List (String × Int)) : ℕ :=
  records.countP fun record => record.1 = hostId ∧ now - window < record.2 ∧ record.2 ≤ now

/-- The counts and the rates are those of all the records. -/
structure Exact (V : Type) [PyFloat V] (window startedAt : Int) (records : List (String × Int)) :
    Prop where
  count : log.count hostId now = inWindow hostId now window records
  observed : log.observed now = min window (max (now - startedAt) minObserved)
  divisor : 0 < log.observed now ∧ log.observed now ≤ window
  rate : log.tasksPerHour hostId now V =
    PyFloat.intDiv (inWindow hostId now window records * oneHour) (log.observed now)
  steady : window ≤ now - startedAt → log.tasksPerHour hostId now V =
    PyFloat.intDiv (inWindow hostId now window records * oneHour) window

/-! ## What a query does not miss -/

/-- The time has left the window. -/
def left (window now completedAt : Int) : Bool := completedAt ≤ now - window

/-- The times recorded for a host. -/
def timesOf (records : List (String × Int)) : List Int :=
  (records.filter fun record => record.1 = hostId).map Prod.snd

variable {log hostId now} {window startedAt last : Int} {records : List (String × Int)}

theorem timesOf_append (more : List (String × Int)) :
    timesOf hostId (records ++ more) = timesOf hostId records ++ timesOf hostId more := by
  simp [timesOf]

/-- A record does not drop what a query not before it would count, whatever the order. -/
theorem covers_record {record : String × Int} (hwindow : log.window = window)
    (hle : record.2 ≤ last)
    (h : Window.Covers (left window) last (timesOf hostId records)
      ((log.completions.get? hostId).getD [])) :
    Window.Covers (left window) last (timesOf hostId (records ++ [record]))
      (((log.record record.1 record.2).completions.get? hostId).getD []) := by
  rw [timesOf_append]
  by_cases hid : hostId = record.1
  · subst hid
    have hmore : timesOf record.1 [record] = [record.2] := by simp [timesOf]
    have hold : ∀ t completedAt, last ≤ t → left window record.2 completedAt = true →
        left window t completedAt = true := by
      intro t completedAt ht hleft
      simp only [left, decide_eq_true_eq] at *
      omega
    rw [hmore, CompletionLog.record, Dict.get?_set_self, Option.getD_some, hwindow]
    exact (h.append [record.2]).evict hold
  · have hmore : timesOf hostId [record] = [] := by simp [timesOf, Ne.symm hid]
    rw [hmore, List.append_nil, CompletionLog.record, Dict.get?_set_of_ne _ hid]
    exact h

theorem recordAll_append (record : String × Int) :
    log.recordAll (records ++ [record]) = (log.recordAll records).record record.1 record.2 :=
  List.foldl_append

variable (log records) in
/-- Recording changes nothing but the times. -/
theorem recordAll_frame : (log.recordAll records).window = log.window ∧
    (log.recordAll records).startedAt = log.startedAt := by
  induction records using List.reverseRecOn with
  | nil => exact ⟨rfl, rfl⟩
  | append_singleton records record ih =>
    rw [recordAll_append]
    exact ih

variable (log hostId) in
theorem covers_recordAll (hempty : log.completions = .empty)
    (hlast : ∀ record ∈ records, record.2 ≤ last) :
    Window.Covers (left log.window) last (timesOf hostId records)
      (((log.recordAll records).completions.get? hostId).getD []) := by
  induction records using List.reverseRecOn with
  | nil =>
    rw [recordAll, List.foldl_nil, hempty]
    exact .nil
  | append_singleton records record ih =>
    rw [recordAll_append]
    refine covers_record (recordAll_frame log records).1 (hlast record (by simp))
      (ih fun record' h => ?_)
    exact hlast record' (List.mem_append_left _ h)

/-- What a query counts are the times that have not left the window and have come. -/
theorem count_eq : log.count hostId now = (((log.completions.get? hostId).getD []).filter
    (!left log.window now ·)).countP (· ≤ now) := by
  rw [count, List.countP_filter]
  refine List.countP_congr fun completedAt _ => ?_
  simp only [left, Bool.and_eq_true, decide_eq_true_eq, Bool.not_eq_true', decide_eq_false_iff_not,
    not_le]
  exact And.comm

theorem inWindow_eq : inWindow hostId now window records =
    ((timesOf hostId records).filter (!left window now ·)).countP (· ≤ now) := by
  rw [timesOf, List.countP_filter, List.countP_map, List.countP_filter]
  refine List.countP_congr fun record _ => ?_
  simp only [left, Function.comp_apply, Bool.and_eq_true, decide_eq_true_eq, Bool.not_eq_true',
    decide_eq_false_iff_not, not_le]
  tauto

variable (log now) in
/-- The observed time is positive and at most the window. -/
theorem observed_mem (hwindow : 0 < log.window) :
    0 < log.observed now ∧ log.observed now ≤ log.window := by
  unfold observed minObserved
  omega

theorem observed_of_le (h : log.window ≤ now - log.startedAt) : log.observed now = log.window := by
  unfold observed
  omega

end CompletionLog

end LlmHomeLab
