import Mathlib

/-! # Lists written with a separator

A list of texts is written with a separator and a gap between its items, and read by splitting at
the separators, stripping the pieces and leaving out those that are blank. What is read of a list
are the items of its texts; it is the list itself exactly if every text is an item.
-/

universe u

namespace CommaList

variable {α : Type u} {space : α → Bool} {a : α} {l l' : List α}

/-! ## Stripping -/

/-- The text without the spaces at its ends. -/
def strip (space : α → Bool) (l : List α) : List α := (l.dropWhile space).rdropWhile space

theorem mem_of_mem_strip (h : a ∈ strip space l) : a ∈ l :=
  (List.dropWhile_sublist space).subset ((List.rdropWhile_prefix space _).subset h)

theorem strip_cons_of_space (ha : space a = true) : strip space (a :: l) = strip space l := by
  rw [strip, List.dropWhile_cons_of_pos ha, strip]

theorem strip_concat_of_space (ha : space a = true) : strip space (l ++ [a]) = strip space l := by
  rw [strip, strip, List.dropWhile_append]
  split
  · next hnil =>
    rw [List.isEmpty_iff.mp hnil, List.dropWhile_cons_of_pos ha]
    rfl
  · rw [List.rdropWhile_concat_pos _ _ _ ha]

theorem strip_of_visible (h : ∀ a ∈ l, space a = false) : strip space l = l := by
  have hdrop : l.dropWhile space = l := by
    cases l with
    | nil => rfl
    | cons a l => exact List.dropWhile_cons_of_neg (by simp [h a List.mem_cons_self])
  rw [strip, hdrop, List.rdropWhile_eq_self_iff]
  intro hl
  simp [h _ (List.getLast_mem hl)]

theorem strip_strip : strip space (strip space l) = strip space l := by
  have hdrop : (strip space l).dropWhile space = strip space l := by
    cases hstrip : strip space l with
    | nil => rfl
    | cons a rest =>
      -- the first that is left after the spaces at the front is no space
      have hprefix : a :: rest <+: l.dropWhile space := hstrip ▸ List.rdropWhile_prefix space _
      obtain ⟨more, hmore⟩ := hprefix
      have hne : l.dropWhile space ≠ [] := by simp [← hmore]
      have hhead := List.head_dropWhile_not space hne
      have ha : (l.dropWhile space).head hne = a := by simp [← hmore]
      rw [ha] at hhead
      exact List.dropWhile_cons_of_neg (by simp [hhead])
  have hdef : strip space (strip space l) =
      ((strip space l).dropWhile space).rdropWhile space := rfl
  rw [hdef, hdrop, strip, List.rdropWhile_idempotent]

/-! ## Splitting -/

variable [DecidableEq α] {sep : α}

/-- What is put at the end is put at the end of the last piece. -/
theorem splitOn_concat (ha : a ≠ sep) : ∃ early last, l.splitOn sep = early ++ [last] ∧
    (l ++ [a]).splitOn sep = early ++ [last ++ [a]] := by
  induction l with
  | nil => exact ⟨[], [], rfl, by
      rw [List.nil_append, List.splitOn_cons_eq_if_modifyHead, if_neg (by simpa using ha)]
      rfl⟩
  | cons b l ih =>
    obtain ⟨early, last, hl, hla⟩ := ih
    rw [List.cons_append, List.splitOn_cons_eq_if_modifyHead, List.splitOn_cons_eq_if_modifyHead,
      hl, hla]
    split
    · exact ⟨[] :: early, last, rfl, rfl⟩
    · cases early with
      | nil => exact ⟨[], b :: last, rfl, rfl⟩
      | cons first early => exact ⟨(b :: first) :: early, last, rfl, rfl⟩

theorem notMem_of_mem_splitOn {piece : List α} (h : piece ∈ l.splitOn sep) : sep ∉ piece := by
  induction l generalizing piece with
  | nil =>
    rw [List.mem_singleton.mp (h : piece ∈ [[]])]
    exact List.not_mem_nil
  | cons a l ih =>
    rw [List.splitOn_cons_eq_if_modifyHead] at h
    split at h
    · rcases List.mem_cons.mp h with rfl | h
      · exact List.not_mem_nil
      · exact ih h
    · next hne =>
      cases hl : l.splitOn sep with
      | nil => exact absurd hl (List.splitOn_ne_nil _ _)
      | cons first rest =>
        rw [hl, List.modifyHead_cons] at h
        rw [hl] at ih
        rcases List.mem_cons.mp h with rfl | h
        · rw [List.mem_cons, not_or]
          exact ⟨fun heq => hne (by simp [heq]), ih List.mem_cons_self⟩
        · exact ih (List.mem_cons_of_mem _ h)

/-! ## Items -/

/-- The pieces between the separators, stripped, without the blank ones. -/
def items (space : α → Bool) (sep : α) (l : List α) : List (List α) :=
  ((l.splitOn sep).map (strip space)).filter (· ≠ [])

/-- A text that is an item: not blank, with no space at its ends and no separator in it. -/
structure IsItem (space : α → Bool) (sep : α) (l : List α) : Prop where
  ne_nil : l ≠ []
  stripped : strip space l = l
  unsplit : sep ∉ l

theorem items_append :
    items space sep (l ++ sep :: l') = items space sep l ++ items space sep l' := by
  rw [items, List.splitOn_append_cons_self, List.map_append, List.filter_append, items, items]

theorem items_cons_of_space (ha : space a = true) (hsep : a ≠ sep) :
    items space sep (a :: l) = items space sep l := by
  rw [items, items, List.splitOn_cons_eq_if_modifyHead, if_neg (by simpa using hsep)]
  cases hl : l.splitOn sep with
  | nil => exact absurd hl (List.splitOn_ne_nil _ _)
  | cons first rest =>
    rw [List.modifyHead_cons, List.map_cons, List.map_cons, strip_cons_of_space ha]

theorem items_concat_of_space (ha : space a = true) (hsep : a ≠ sep) :
    items space sep (l ++ [a]) = items space sep l := by
  obtain ⟨early, last, hl, hla⟩ := splitOn_concat (l := l) hsep
  rw [items, items, hl, hla, List.map_append, List.map_append, List.map_singleton,
    List.map_singleton, strip_concat_of_space ha]

/-- Spaces at the ends of the text make no difference. -/
theorem items_strip (hsep : space sep = false) : items space sep (strip space l) =
    items space sep l := by
  have hne : ∀ {a}, space a = true → a ≠ sep := by
    rintro a ha rfl
    rw [hsep] at ha
    cases ha
  have hfront : ∀ l : List α, items space sep (l.dropWhile space) = items space sep l := by
    intro l
    induction l with
    | nil => rfl
    | cons a l ih =>
      rw [List.dropWhile_cons]
      split
      · next ha => rw [ih, items_cons_of_space ha (hne ha)]
      · rfl
  have hback : ∀ l : List α, items space sep (l.rdropWhile space) = items space sep l := by
    intro l
    induction l using List.reverseRecOn with
    | nil => rfl
    | append_singleton l a ih =>
      rw [List.rdropWhile_concat]
      split
      · next ha => rw [ih, items_concat_of_space ha (hne ha)]
      · rfl
  rw [strip, hback, hfront]

theorem IsItem.items_eq (h : IsItem space sep l) : items space sep l = [l] := by
  rw [items, List.splitOn_eq_singleton h.unsplit, List.map_singleton, h.stripped,
    List.filter_cons_of_pos (by simp [h.ne_nil]), List.filter_nil]

theorem isItem_of_mem_items {item : List α} (h : item ∈ items space sep l) :
    IsItem space sep item := by
  obtain ⟨hmem, hne⟩ := List.mem_filter.mp h
  obtain ⟨piece, hpiece, rfl⟩ := List.mem_map.mp hmem
  exact ⟨by simpa using hne, strip_strip,
    fun hsep => notMem_of_mem_splitOn hpiece (mem_of_mem_strip hsep)⟩

/-! ## Lists -/

/-- `glue.join(texts)`. -/
def joinWith (glue : List α) : List (List α) → List α
  | [] => []
  | [text] => text
  | text :: next :: rest => text ++ (glue ++ joinWith glue (next :: rest))

/-- What is read of a list are the items of its texts. -/
theorem items_joinWith {gap : α} (hgap : space gap = true) (hsep : gap ≠ sep)
    (texts : List (List α)) :
    items space sep (joinWith [sep, gap] texts) = texts.flatMap (items space sep) := by
  induction texts with
  | nil => rfl
  | cons text rest ih =>
    cases rest with
    | nil => simp [joinWith]
    | cons next rest =>
      have hjoin : joinWith [sep, gap] (text :: next :: rest) =
          text ++ sep :: gap :: joinWith [sep, gap] (next :: rest) := rfl
      rw [hjoin, items_append, items_cons_of_space hgap hsep, ih]
      rfl

/-- It is the list itself exactly if every text is an item. -/
theorem flatMap_items_eq_self_iff {texts : List (List α)} :
    texts.flatMap (items space sep) = texts ↔ ∀ text ∈ texts, IsItem space sep text := by
  constructor
  · intro h text htext
    rw [← h, List.mem_flatMap] at htext
    obtain ⟨other, -, hmem⟩ := htext
    exact isItem_of_mem_items hmem
  · intro h
    induction texts with
    | nil => rfl
    | cons text texts ih =>
      rw [List.forall_mem_cons] at h
      rw [List.flatMap_cons, h.1.items_eq, ih h.2, List.singleton_append]

end CommaList
