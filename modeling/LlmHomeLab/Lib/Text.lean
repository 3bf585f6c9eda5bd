import Mathlib

/-! # Python's string tests, and the path of a URL

`str.startswith`, and the path component `urllib.parse.urlsplit` computes. The checks
`urlsplit` makes on the authority only decide whether it raises; they are a parameter.
-/

namespace Text

/-- `s.startswith(p)`. -/
def startsWith (s p : String) : Bool := p.toList.isPrefixOf s.toList

theorem startsWith_iff {s p : String} : startsWith s p = true ↔ p.toList <+: s.toList :=
  List.isPrefixOf_iff_prefix

theorem startsWith_self (s : String) : startsWith s s = true :=
  startsWith_iff.mpr (List.prefix_refl _)

theorem startsWith_trans {s p q : String} (h : startsWith s p = true)
    (hq : startsWith p q = true) : startsWith s q = true :=
  startsWith_iff.mpr ((startsWith_iff.mp hq).trans (startsWith_iff.mp h))

/-- `s.removeprefix(p)`, for a prefix `p` of `s`. -/
def removeLeading (s p : String) : String := String.ofList (s.toList.drop p.toList.length)

theorem removeLeading_append (p s : String) : removeLeading (p ++ s) p = s := by
  simp [removeLeading]

theorem startsWith_append (p s : String) : startsWith (p ++ s) p = true :=
  startsWith_iff.mpr (by simp)

/-! ## `urlsplit` -/

/-- The characters `urlsplit` strips from the left. -/
def isControlOrSpace (c : Char) : Bool := c.toNat ≤ 32

/-- The characters `urlsplit` removes everywhere. -/
def isRemoved (c : Char) : Bool := c = '\t' ∨ c = '\r' ∨ c = '\n'

def isAsciiLetter (c : Char) : Bool := ('a' ≤ c ∧ c ≤ 'z') ∨ ('A' ≤ c ∧ c ≤ 'Z')

def isSchemeChar (c : Char) : Bool :=
  isAsciiLetter c ∨ ('0' ≤ c ∧ c ≤ '9') ∨ c = '+' ∨ c = '-' ∨ c = '.'

/-- What follows the scheme; everything, where there is none. -/
def afterScheme (url : List Char) : List Char :=
  match url with
  | [] => []
  | c :: _ =>
    if isAsciiLetter c ∧ ':' ∈ url ∧ (url.takeWhile (· ≠ ':')).all isSchemeChar then
      (url.dropWhile (· ≠ ':')).tail
    else url

/-- The characters that end an authority. -/
def endsNetloc (c : Char) : Bool := c = '/' ∨ c = '?' ∨ c = '#'

/-- The characters that end a path. -/
def endsPath (c : Char) : Bool := c = '?' ∨ c = '#'

/-- The authority and what follows it. -/
def splitNetloc : List Char → List Char × List Char
  | '/' :: '/' :: rest => (rest.takeWhile (!endsNetloc ·), rest.dropWhile (!endsNetloc ·))
  | url => ([], url)

/-- `urlsplit(url).path`; `none` where `urlsplit` raises `ValueError`. -/
def urlsplitPath (checkNetloc : List Char → Bool) (url : String) : Option String :=
  let cleaned := (url.toList.dropWhile isControlOrSpace).filter (!isRemoved ·)
  let (netloc, rest) := splitNetloc (afterScheme cleaned)
  if checkNetloc netloc then some (String.ofList (rest.takeWhile (!endsPath ·))) else none

/-! ## A URL put together from clean parts -/

theorem takeWhile_append_of_all {p : Char → Bool} {l r : List Char} (h : ∀ c ∈ l, p c = true)
    (hr : ∀ c, r.head? = some c → p c = false) :
    (l ++ r).takeWhile p = l ∧ (l ++ r).dropWhile p = r := by
  have hr' : r.takeWhile p = [] ∧ r.dropWhile p = r := by
    cases r with
    | nil => simp
    | cons c r => simp [hr c rfl]
  rw [List.takeWhile_append_of_pos h, List.dropWhile_append_of_pos h, hr'.1, hr'.2]
  simp

/-- A scheme of letters in front of `:` is recognised. -/
theorem afterScheme_letters {scheme rest : List Char} (hne : scheme ≠ [])
    (h : ∀ c ∈ scheme, isAsciiLetter c = true) : afterScheme (scheme ++ ':' :: rest) = rest := by
  have hcolon : ∀ c ∈ scheme, decide (c ≠ ':') = true := by
    intro c hc
    have := h c hc
    by_contra hnot
    simp only [ne_eq, decide_not, Bool.not_eq_true', decide_eq_false_iff_not, not_not] at hnot
    subst hnot
    simp [isAsciiLetter] at this
  have hsplit := takeWhile_append_of_all (p := fun c => decide (c ≠ ':')) (r := ':' :: rest) hcolon
    (by simp)
  obtain ⟨c, tail, rfl⟩ := List.exists_cons_of_ne_nil hne
  have hall : (c :: tail).all isSchemeChar = true := by
    refine List.all_eq_true.mpr fun d hd => ?_
    simp [isSchemeChar, h d hd]
  simp only [List.cons_append] at hsplit ⊢
  rw [afterScheme, if_pos, hsplit.2]
  · rfl
  · refine ⟨h c List.mem_cons_self, by simp, ?_⟩
    rw [hsplit.1]
    exact hall

theorem letter_kept {c : Char} (h : isAsciiLetter c = true) :
    isControlOrSpace c = false ∧ isRemoved c = false := by
  have h65 : 65 ≤ c.toNat := by
    simp only [isAsciiLetter, decide_eq_true_eq] at h
    rcases h with ⟨h, _⟩ | ⟨h, _⟩
    · exact le_trans (by decide) (Char.le_def.mp h)
    · exact Char.le_def.mp h
  constructor
  · simp only [isControlOrSpace, decide_eq_false_iff_not]
    omega
  · simp only [isRemoved, decide_eq_false_iff_not]
    rintro (rfl | rfl | rfl) <;> simp at h65

/-- The path of `scheme://netloc/path` is `/path`, if the scheme is made of letters, the
authority does not end early and is accepted, and nothing is cut out of the path. -/
theorem urlsplitPath_of_clean {checkNetloc : List Char → Bool} {scheme netloc path : String}
    (hne : scheme ≠ "") (hscheme : ∀ c ∈ scheme.toList, isAsciiLetter c = true)
    (hnetloc : ∀ c ∈ netloc.toList, endsNetloc c = false ∧ isRemoved c = false)
    (hroot : path.toList.head? = some '/')
    (hpath : ∀ c ∈ path.toList, endsPath c = false ∧ isRemoved c = false) :
    urlsplitPath checkNetloc (scheme ++ "://" ++ netloc ++ path) =
      if checkNetloc netloc.toList then some path else none := by
  have hscheme' : scheme.toList ≠ [] := by simpa using hne
  -- nothing is stripped or removed
  have hclean : (((scheme ++ "://" ++ netloc ++ path).toList.dropWhile isControlOrSpace).filter
      (!isRemoved ·)) = scheme.toList ++ ':' :: ('/' :: '/' :: (netloc.toList ++ path.toList)) := by
    have happ : (scheme ++ "://" ++ netloc ++ path).toList =
        scheme.toList ++ ':' :: ('/' :: '/' :: (netloc.toList ++ path.toList)) := by simp
    rw [happ]
    obtain ⟨c, tail, hc⟩ := List.exists_cons_of_ne_nil hscheme'
    have hdrop : (scheme.toList ++ ':' :: ('/' :: '/' :: (netloc.toList ++ path.toList))).dropWhile
        isControlOrSpace = scheme.toList ++ ':' :: ('/' :: '/' :: (netloc.toList ++ path.toList)) := by
      rw [hc]
      simp [(letter_kept (hscheme c (by rw [hc]; exact List.mem_cons_self))).1]
    rw [hdrop]
    refine List.filter_eq_self.mpr fun d hd => ?_
    simp only [List.mem_append, List.mem_cons] at hd
    rcases hd with hd | rfl | rfl | rfl | hd | hd
    · simp [(letter_kept (hscheme d hd)).2]
    · decide
    · decide
    · decide
    · simp [(hnetloc d hd).2]
    · simp [(hpath d hd).2]
  have hsplit := takeWhile_append_of_all (p := (!endsNetloc ·)) (l := netloc.toList)
    (r := path.toList) (fun c hc => by simp [(hnetloc c hc).1])
    (fun c hc => by rw [hroot] at hc; cases hc; decide)
  have htake : path.toList.takeWhile (!endsPath ·) = path.toList :=
    List.takeWhile_eq_self_iff.mpr fun c hc => by simp [(hpath c hc).1]
  rw [urlsplitPath, hclean, afterScheme_letters hscheme' hscheme]
  simp only [splitNetloc, hsplit.1, hsplit.2, htake, String.ofList_toList]

end Text
