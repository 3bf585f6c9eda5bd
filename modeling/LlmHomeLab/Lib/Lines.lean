import LlmHomeLab.Lib.Json

/-! # Lines of a text

`str.splitlines()`. What ends a line is more than the newline: a carriage return, the other
vertical spaces, the ASCII separators and the two of Unicode.
-/

namespace Lines

def isBreak (c : Char) : Bool :=
  let n := c.toNat
  (10 ≤ n ∧ n ≤ 13) ∨ (28 ≤ n ∧ n ≤ 30) ∨ n = 0x85 ∨ n = 0x2028 ∨ n = 0x2029

/-- What separates lines is white space. -/
theorem isSpace_of_isBreak {c : Char} (h : isBreak c = true) : Json.isSpace c = true := by
  simp only [isBreak, Bool.decide_or, Bool.decide_and, Bool.or_eq_true, Bool.and_eq_true,
    decide_eq_true_eq] at h
  simp only [Json.isSpace, Bool.decide_or, Bool.decide_and, Bool.or_eq_true, Bool.and_eq_true,
    decide_eq_true_eq]
  omega

/-- The lines, after the beginning of one. A newline right after a carriage return belongs to
it. -/
def splitFrom (line : List Char) (afterCr : Bool) : List Char → List (List Char)
  | [] => if line = [] then [] else [line]
  | c :: rest =>
    if afterCr ∧ c = '\n' then splitFrom [] false rest
    else if isBreak c then line :: splitFrom [] (c = '\r') rest
    else splitFrom (line ++ [c]) false rest

/-- `text.splitlines()`. -/
def splitlines (text : List Char) : List (List Char) := splitFrom [] false text

/-- Characters that separate no lines belong to one. -/
theorem splitFrom_append {l : List Char} (hl : ∀ c ∈ l, isBreak c = false) (line rest : List Char) :
    splitFrom line false (l ++ rest) = splitFrom (line ++ l) false rest := by
  induction l generalizing line with
  | nil => simp
  | cons c l ih =>
    have hc := hl c (List.mem_cons_self ..)
    simp [splitFrom, hc, ih fun x hx => hl x (List.mem_cons_of_mem _ hx)]

/-- A text without separators is one line. -/
theorem splitlines_line {l : List Char} (hl : ∀ c ∈ l, isBreak c = false) :
    splitlines (l ++ ['\n']) = [l] := by
  have hbreak : isBreak '\n' = true := by decide
  rw [splitlines, splitFrom_append hl]
  simp [splitFrom, hbreak]

/-- The lines after a newline do not depend on what comes before it. -/
theorem splitFrom_newline (l rest line : List Char) {afterCr : Bool}
    (hline : afterCr = true → line = []) :
    splitFrom line afterCr (l ++ '\n' :: rest) =
      splitFrom line afterCr (l ++ ['\n']) ++ splitlines rest := by
  have hbreak : isBreak '\n' = true := by decide
  induction l generalizing line afterCr with
  | nil =>
    cases afterCr with
    | true => simp [splitFrom, splitlines]
    | false => simp [splitFrom, splitlines, hbreak]
  | cons c l ih =>
    simp only [List.cons_append, splitFrom]
    split
    · exact ih [] (by simp)
    · split
      · rw [ih [] (fun _ => rfl), List.cons_append]
      · exact ih _ (by simp)

/-- The lines of a text of lines. -/
theorem splitlines_flatMap (lines : List (List Char)) :
    splitlines (lines.flatMap (· ++ ['\n'])) = lines.flatMap fun l => splitlines (l ++ ['\n']) := by
  induction lines with
  | nil => rfl
  | cons l lines ih =>
    rw [List.flatMap_cons, List.flatMap_cons, ← ih, List.append_assoc, List.singleton_append,
      splitlines, splitFrom_newline l _ [] (by simp)]
    rfl

/-- A separator ends the line before it, and what comes then does not depend on the line. -/
theorem splitFrom_line {l : List Char} (hne : l ≠ []) (hl : ∀ c ∈ l, isBreak c = false) {d : Char}
    (hd : isBreak d = true) (afterCr : Bool) (rest : List Char) :
    splitFrom [] afterCr (l ++ d :: rest) = l :: splitFrom [] (d = '\r') rest := by
  have hstart : splitFrom [] afterCr (l ++ d :: rest) = splitFrom [] false (l ++ d :: rest) := by
    cases l with
    | nil => exact absurd rfl hne
    | cons c l =>
      have hc := hl c (List.mem_cons_self ..)
      have hnewline : c ≠ '\n' := by
        rintro rfl
        cases hc
      simp [splitFrom, hc, hnewline]
  rw [hstart, splitFrom_append hl]
  simp [splitFrom, hd]

/-- Newlines and carriage returns between lines make empty lines. -/
theorem splitFrom_ends {ends : List Char} (hends : ∀ c ∈ ends, c = '\n' ∨ c = '\r')
    (afterCr : Bool) (rest : List Char) :
    ∃ k afterCr', splitFrom [] afterCr (ends ++ rest) =
      List.replicate k [] ++ splitFrom [] afterCr' rest := by
  induction ends generalizing afterCr with
  | nil => exact ⟨0, afterCr, rfl⟩
  | cons c ends ih =>
    have hbreak : isBreak c = true := by
      rcases hends c (List.mem_cons_self ..) with rfl | rfl <;> decide
    have htail := fun d hd => hends d (List.mem_cons_of_mem _ hd)
    by_cases hpair : afterCr = true ∧ c = '\n'
    · -- the newline of a pair
      obtain ⟨k, afterCr', h⟩ := ih htail false
      exact ⟨k, afterCr', by rw [← h, List.cons_append, splitFrom, if_pos hpair]⟩
    · obtain ⟨k, afterCr', h⟩ := ih htail (c = '\r')
      refine ⟨k + 1, afterCr', ?_⟩
      rw [List.cons_append, splitFrom, if_neg hpair, if_pos hbreak, h]
      rfl

/-- No line has a separator in it. -/
theorem isBreak_of_mem_splitFrom {l line : List Char} {afterCr : Bool}
    (hline : ∀ c ∈ line, isBreak c = false) :
    ∀ x ∈ splitFrom line afterCr l, ∀ c ∈ x, isBreak c = false := by
  induction l generalizing line afterCr with
  | nil =>
    intro x hx
    unfold splitFrom at hx
    split at hx
    · cases hx
    · rw [List.mem_singleton.mp hx]
      exact hline
  | cons c l ih =>
    intro x hx
    unfold splitFrom at hx
    split at hx
    · exact ih (by simp) x hx
    · split at hx
      · rcases List.mem_cons.mp hx with rfl | hx
        · exact hline
        · exact ih (by simp) x hx
      · next hno =>
        refine ih ?_ x hx
        intro d hd
        rcases List.mem_append.mp hd with hd | hd
        · exact hline d hd
        · rw [List.mem_singleton.mp hd]
          exact Bool.eq_false_of_not_eq_true hno

theorem isBreak_of_mem_splitlines {text x : List Char} (hx : x ∈ splitlines text) :
    ∀ c ∈ x, isBreak c = false :=
  isBreak_of_mem_splitFrom (by simp) x hx

end Lines
