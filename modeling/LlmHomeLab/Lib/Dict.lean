import Mathlib

/-! # Insertion-ordered dictionaries

A finite map that iterates in insertion order: overwriting a key keeps its place, a
new key goes to the back. The keys are distinct by construction, so a lookup, a
membership test and an iteration all speak about the same entries.
-/

universe u v

/-- Key/value pairs in insertion order, each key once. -/
structure Dict (κ : Type u) (ν : Type v) where
  entries : List (κ × ν)
  nodup : (entries.map Prod.fst).Nodup

namespace Dict

variable {κ : Type u} {ν : Type v} {k k' : κ} {x y : ν}

/-! ## Operations -/

def empty : Dict κ ν := ⟨[], List.nodup_nil⟩

instance : Inhabited (Dict κ ν) := ⟨empty⟩

def keys (d : Dict κ ν) : List κ := d.entries.map Prod.fst

def values (d : Dict κ ν) : List ν := d.entries.map Prod.snd

theorem ext_entries {d e : Dict κ ν} (h : d.entries = e.entries) : d = e := by
  cases d
  cases e
  cases h
  rfl

instance [DecidableEq κ] [DecidableEq ν] : DecidableEq (Dict κ ν) := fun d e =>
  decidable_of_iff (d.entries = e.entries) ⟨ext_entries, fun h => by rw [h]⟩

/-- The entries that satisfy a test, in place. -/
def filter (d : Dict κ ν) (p : κ → ν → Bool) : Dict κ ν where
  entries := d.entries.filter fun kv => p kv.1 kv.2
  nodup := d.nodup.sublist (List.filter_sublist.map Prod.fst)

/-- `popitem(last=False)`. -/
def popFirst (d : Dict κ ν) : Dict κ ν where
  entries := d.entries.tail
  nodup := d.nodup.sublist ((List.tail_sublist _).map Prod.fst)

theorem keys_popFirst (d : Dict κ ν) : d.popFirst.keys = d.keys.tail := List.map_tail

variable [DecidableEq κ]

def lookupList (k : κ) : List (κ × ν) → Option ν
  | [] => none
  | (k', x) :: rest => if k' = k then some x else lookupList k rest

def insertList (k : κ) (x : ν) : List (κ × ν) → List (κ × ν)
  | [] => [(k, x)]
  | (k', y) :: rest => if k' = k then (k, x) :: rest else (k', y) :: insertList k x rest

/-- `d.get(k)`. -/
def get? (d : Dict κ ν) (k : κ) : Option ν := lookupList k d.entries

/-- `k in d`. -/
def contains (d : Dict κ ν) (k : κ) : Bool := (d.get? k).isSome

theorem mem_map_fst_insertList (l : List (κ × ν)) (a : κ) :
    a ∈ (insertList k x l).map Prod.fst ↔ a = k ∨ a ∈ l.map Prod.fst := by
  induction l with
  | nil => simp [insertList]
  | cons p rest ih =>
    obtain ⟨k', y⟩ := p
    by_cases h : k' = k
    · simp [insertList, h]
    · simp only [insertList, if_neg h, List.map_cons, List.mem_cons, ih]
      tauto

theorem nodup_insertList {l : List (κ × ν)} (h : (l.map Prod.fst).Nodup) :
    ((insertList k x l).map Prod.fst).Nodup := by
  induction l with
  | nil => simp [insertList]
  | cons p rest ih =>
    obtain ⟨k', y⟩ := p
    simp only [List.map_cons, List.nodup_cons] at h
    by_cases hk : k' = k
    · subst hk
      simpa [insertList] using h
    · simp only [insertList, if_neg hk, List.map_cons, List.nodup_cons]
      refine ⟨?_, ih h.2⟩
      rw [mem_map_fst_insertList]
      rintro (h' | h')
      · exact hk h'
      · exact h.1 h'

/-- `d[k] = x`. -/
def set (d : Dict κ ν) (k : κ) (x : ν) : Dict κ ν :=
  ⟨insertList k x d.entries, nodup_insertList d.nodup⟩

/-- `d.pop(k, None)`, as the dictionary that is left. -/
def pop (d : Dict κ ν) (k : κ) : Dict κ ν := d.filter fun k' _ => !decide (k' = k)

/-! ## Lookups after an update -/

@[simp] theorem get?_empty : (empty : Dict κ ν).get? k = none := rfl

theorem lookupList_insertList (l : List (κ × ν)) :
    lookupList k' (insertList k x l) = if k' = k then some x else lookupList k' l := by
  induction l with
  | nil => simp [insertList, lookupList, eq_comm]
  | cons p rest ih =>
    obtain ⟨a, y⟩ := p
    by_cases h : a = k
    · subst h
      by_cases h' : k' = a
      · simp [insertList, lookupList, h']
      · simp [insertList, lookupList, h', Ne.symm h']
    · simp only [insertList, if_neg h, lookupList, ih]
      by_cases h' : a = k'
      · subst h'
        simp [h]
      · simp [h']

theorem get?_set (d : Dict κ ν) :
    (d.set k x).get? k' = if k' = k then some x else d.get? k' :=
  lookupList_insertList d.entries

@[simp] theorem get?_set_self (d : Dict κ ν) : (d.set k x).get? k = some x := by
  simp [get?_set]

theorem get?_set_of_ne (d : Dict κ ν) (h : k' ≠ k) : (d.set k x).get? k' = d.get? k' := by
  simp [get?_set, h]

theorem lookupList_eq_some {l : List (κ × ν)} (h : (l.map Prod.fst).Nodup) :
    lookupList k l = some x ↔ (k, x) ∈ l := by
  induction l with
  | nil => simp [lookupList]
  | cons p rest ih =>
    obtain ⟨a, y⟩ := p
    simp only [List.map_cons, List.nodup_cons] at h
    by_cases hk : a = k
    · subst hk
      have hnot : (a, x) ∉ rest := fun hm => h.1 (List.mem_map_of_mem hm)
      simp [lookupList, hnot, eq_comm]
    · have hne : (k, x) ≠ (a, y) := fun he => hk (congrArg Prod.fst he).symm
      simp [lookupList, hk, hne, ih h.2]

theorem get?_eq_some (d : Dict κ ν) : d.get? k = some x ↔ (k, x) ∈ d.entries :=
  lookupList_eq_some d.nodup

theorem get?_filter (d : Dict κ ν) (p : κ → ν → Bool) :
    (d.filter p).get? k = (d.get? k).filter (p k) := by
  ext x
  rw [get?_eq_some, Option.filter_eq_some_iff, get?_eq_some]
  simp [filter]

theorem get?_pop (d : Dict κ ν) :
    (d.pop k).get? k' = if k' = k then none else d.get? k' := by
  rw [pop, get?_filter]
  by_cases h : k' = k
  · subst h
    cases d.get? k' <;> simp
  · cases d.get? k' <;> simp [h]

@[simp] theorem get?_pop_self (d : Dict κ ν) : (d.pop k).get? k = none := by
  simp [get?_pop]

theorem get?_pop_of_ne (d : Dict κ ν) (h : k' ≠ k) : (d.pop k).get? k' = d.get? k' := by
  simp [get?_pop, h]

/-! ## Keys and values -/

theorem mem_keys (d : Dict κ ν) : k ∈ d.keys ↔ ∃ x, d.get? k = some x := by
  simp only [keys, List.mem_map, Prod.exists, exists_and_right, exists_eq_right]
  exact exists_congr fun x => (get?_eq_some d).symm

theorem mem_values (d : Dict κ ν) : x ∈ d.values ↔ ∃ k, d.get? k = some x := by
  simp only [values, List.mem_map, Prod.exists, exists_eq_right]
  exact exists_congr fun k => (get?_eq_some d).symm

theorem contains_iff (d : Dict κ ν) : d.contains k = true ↔ ∃ x, d.get? k = some x := by
  rw [contains, Option.isSome_iff_exists]

theorem contains_eq_false (d : Dict κ ν) : d.contains k = false ↔ d.get? k = none := by
  simp [contains]

theorem contains_set_iff (d : Dict κ ν) :
    (d.set k x).contains k' = true ↔ k' = k ∨ d.contains k' = true := by
  simp only [contains_iff, get?_set]
  by_cases h : k' = k <;> simp [h]

theorem contains_pop_iff (d : Dict κ ν) :
    (d.pop k).contains k' = true ↔ k' ≠ k ∧ d.contains k' = true := by
  simp only [contains_iff, get?_pop]
  by_cases h : k' = k <;> simp [h]

theorem keys_eq_singleton {d : Dict κ ν} (h : d.contains k = true)
    (honly : ∀ k', d.contains k' = true → k' = k) : d.keys = [k] := by
  have hmem : ∀ k', k' ∈ d.keys ↔ d.contains k' = true := by
    intro k'
    rw [mem_keys, contains_iff]
  have hnodup : d.keys.Nodup := d.nodup
  cases hkeys : d.keys with
  | nil =>
    have hk := (hmem k).mpr h
    rw [hkeys] at hk
    cases hk
  | cons a rest =>
    rw [hkeys] at hnodup
    have ha : a = k := honly a ((hmem a).mp (by rw [hkeys]; exact List.mem_cons_self))
    cases rest with
    | nil => rw [ha]
    | cons b rest =>
      have hb : b = k := honly b ((hmem b).mp (by simp [hkeys]))
      rw [ha, hb] at hnodup
      simp at hnodup

/-! ## The entries after an update -/

theorem insertList_of_notMem {l : List (κ × ν)} (x : ν) (h : k ∉ l.map Prod.fst) :
    insertList k x l = l ++ [(k, x)] := by
  induction l with
  | nil => rfl
  | cons kv rest ih =>
    simp only [List.map_cons, List.mem_cons, not_or] at h
    rw [insertList, if_neg (Ne.symm h.1), ih h.2, List.cons_append]

theorem insertList_of_mem {l : List (κ × ν)} (x : ν)
    (hnodup : (l.map Prod.fst).Nodup) (h : k ∈ l.map Prod.fst) :
    insertList k x l = l.map fun kv => if kv.1 = k then (k, x) else kv := by
  induction l with
  | nil => simp at h
  | cons kv rest ih =>
    simp only [List.map_cons, List.nodup_cons] at hnodup
    simp only [insertList, List.map_cons]
    by_cases hk : kv.1 = k
    · -- the key does not come again
      have hrest : rest.map (fun kv => if kv.1 = k then (k, x) else kv) = rest := by
        have hid : ∀ kv' ∈ rest, (if kv'.1 = k then (k, x) else kv') = kv' := by
          intro kv' hkv'
          refine if_neg fun heq => hnodup.1 ?_
          rw [hk, ← heq]
          exact List.mem_map_of_mem hkv'
        rw [List.map_congr_left hid, List.map_id']
      rw [if_pos hk, if_pos hk, hrest]
    · have hin : k ∈ rest.map Prod.fst := by
        rw [List.map_cons, List.mem_cons] at h
        exact h.resolve_left (Ne.symm hk)
      rw [if_neg hk, if_neg hk, ih hnodup.2 hin]

/-- A new key goes to the back. -/
theorem entries_set_of_get?_eq_none (d : Dict κ ν) (h : d.get? k = none) :
    (d.set k x).entries = d.entries ++ [(k, x)] := by
  refine insertList_of_notMem x fun hk => ?_
  obtain ⟨y, hy⟩ := (mem_keys d).mp hk
  rw [h] at hy
  cases hy

theorem map_insertList {μ : Type*} (f : ν → μ) (k : κ) (x : ν) (l : List (κ × ν)) :
    (insertList k x l).map (fun kv => (kv.1, f kv.2)) =
      insertList k (f x) (l.map fun kv => (kv.1, f kv.2)) := by
  induction l with
  | nil => rfl
  | cons kv rest ih =>
    simp only [insertList, List.map_cons]
    split
    · rfl
    · rw [List.map_cons, ih]

/-! ## The order of the keys -/

theorem map_fst_insertList (l : List (κ × ν)) :
    (insertList k x l).map Prod.fst =
      if k ∈ l.map Prod.fst then l.map Prod.fst else l.map Prod.fst ++ [k] := by
  induction l with
  | nil => simp [insertList]
  | cons p rest ih =>
    obtain ⟨a, y⟩ := p
    by_cases h : a = k
    · simp [insertList, h]
    · simp only [insertList, if_neg h, List.map_cons, ih, List.mem_cons, Ne.symm h, false_or]
      split <;> rfl

theorem mem_keys_iff_contains (d : Dict κ ν) : k ∈ d.keys ↔ d.contains k = true := by
  rw [mem_keys, contains_iff]

/-- A new key goes to the back, an old one keeps its place. -/
theorem keys_set (d : Dict κ ν) :
    (d.set k x).keys = if d.contains k then d.keys else d.keys ++ [k] := by
  have hkeys : (d.set k x).keys = if k ∈ d.keys then d.keys else d.keys ++ [k] :=
    map_fst_insertList d.entries
  rw [hkeys]
  simp only [mem_keys_iff_contains]

theorem keys_pop (d : Dict κ ν) : (d.pop k).keys = d.keys.erase k := by
  have hnodup : d.keys.Nodup := d.nodup
  rw [hnodup.erase_eq_filter]
  simp only [keys, pop, filter, List.filter_map]
  congr 2

/-- `move_to_end(k)` of an ordered dictionary that has the key. -/
def moveToEnd (d : Dict κ ν) (k : κ) : Dict κ ν :=
  match d.get? k with
  | some x => (d.pop k).set k x
  | none => d

theorem get?_moveToEnd (d : Dict κ ν) : (d.moveToEnd k).get? k' = d.get? k' := by
  unfold moveToEnd
  cases h : d.get? k with
  | none => rfl
  | some x =>
    rw [get?_set, get?_pop]
    by_cases hk : k' = k
    · rw [if_pos hk, hk, h]
    · rw [if_neg hk, if_neg hk]

theorem keys_moveToEnd (d : Dict κ ν) (h : d.contains k = true) :
    (d.moveToEnd k).keys = d.keys.erase k ++ [k] := by
  rcases (contains_iff d).mp h with ⟨x, hx⟩
  have hgone : (d.pop k).contains k = false := by simp [contains]
  unfold moveToEnd
  rw [hx, keys_set, hgone, keys_pop]
  rfl

theorem get?_of_popFirst (d : Dict κ ν) (h : d.popFirst.get? k = some x) : d.get? k = some x :=
  (get?_eq_some d).mpr (List.mem_of_mem_tail ((get?_eq_some d.popFirst).mp h))

/-! ## Counting values -/

def mapValues {ξ : Type*} (d : Dict κ ν) (f : ν → ξ) : Dict κ ξ where
  entries := d.entries.map fun kv => (kv.1, f kv.2)
  nodup := by
    have hkeys : (d.entries.map fun kv => (kv.1, f kv.2)).map Prod.fst = d.entries.map Prod.fst := by
      simp [Function.comp_def]
    rw [hkeys]
    exact d.nodup

theorem get?_mapValues {ξ : Type*} (d : Dict κ ν) (f : ν → ξ) :
    (d.mapValues f).get? k = (d.get? k).map f := by
  have hlist : ∀ l : List (κ × ν),
      lookupList k (l.map fun kv => (kv.1, f kv.2)) = (lookupList k l).map f := by
    intro l
    induction l with
    | nil => rfl
    | cons kv l ih =>
      simp only [List.map_cons, lookupList, ih]
      split <;> rfl
  exact hlist d.entries

/-- What a function makes of the items of one key. -/
theorem filterMap_key {ξ : Type*} (d : Dict κ ν) (f : ν → Option ξ) :
    d.entries.filterMap (fun kv => if kv.1 = k then f kv.2 else none) =
      ((d.get? k).bind f).toList := by
  have hlist : ∀ l : List (κ × ν), (l.map Prod.fst).Nodup →
      l.filterMap (fun kv => if kv.1 = k then f kv.2 else none) =
        ((lookupList k l).bind f).toList := by
    intro l hnodup
    induction l with
    | nil => rfl
    | cons kv l ih =>
      rw [List.map_cons, List.nodup_cons] at hnodup
      by_cases hkey : kv.1 = k
      · -- the key does not come again
        have hrest : l.filterMap (fun kv => if kv.1 = k then f kv.2 else none) = [] := by
          refine List.filterMap_eq_nil_iff.mpr fun kv' hkv' => if_neg ?_
          rintro rfl
          exact hnodup.1 (hkey ▸ List.mem_map_of_mem hkv')
        cases hf : f kv.2 <;> simp [lookupList, hkey, hf, hrest]
      · simp [lookupList, hkey, ih hnodup.2]
  exact hlist d.entries d.nodup

/-- The number of values that pass a test. -/
def count (d : Dict κ ν) (p : ν → Bool) : Nat := d.entries.countP fun kv => p kv.2

theorem countP_insertList (p : ν → Bool) (l : List (κ × ν)) :
    (insertList k x l).countP (fun kv => p kv.2) + ((lookupList k l).elim 0 fun y => (p y).toNat) =
      l.countP (fun kv => p kv.2) + (p x).toNat := by
  induction l with
  | nil => cases h : p x <;> simp [insertList, lookupList, h]
  | cons kv rest ih =>
    obtain ⟨a, y⟩ := kv
    by_cases h : a = k
    · cases hx : p x <;> cases hy : p y <;> simp [insertList, lookupList, h, hx, hy]
    · simp only [insertList, lookupList, if_neg h, List.countP_cons]
      omega

/-- Setting a key replaces what was counted there. -/
theorem count_set (d : Dict κ ν) (p : ν → Bool) :
    (d.set k x).count p + ((d.get? k).elim 0 fun y => (p y).toNat) = d.count p + (p x).toNat :=
  countP_insertList p d.entries

theorem count_pos {d : Dict κ ν} {p : ν → Bool} (h : d.get? k = some x) (hp : p x = true) :
    0 < d.count p :=
  List.countP_pos_iff.mpr ⟨(k, x), (get?_eq_some d).mp h, hp⟩

/-- Where every key counted in one dict is counted in the other. -/
theorem count_le_count {μ : Type*} {d : Dict κ ν} {e : Dict κ μ} {p : ν → Bool} {q : μ → Bool}
    (h : ∀ k x, d.get? k = some x → p x = true → ∃ y, e.get? k = some y ∧ q y = true) :
    d.count p ≤ e.count q := by
  let counted := (d.entries.filter fun kv => p kv.2).map Prod.fst
  let those := (e.entries.filter fun kv => q kv.2).map Prod.fst
  have hnodup : counted.Nodup := d.nodup.sublist (List.filter_sublist.map _)
  have hsubset : counted ⊆ those := by
    intro k hk
    obtain ⟨⟨k, x⟩, hx, rfl⟩ := List.mem_map.mp hk
    obtain ⟨hmem, hp⟩ := List.mem_filter.mp hx
    obtain ⟨y, hy, hq⟩ := h k x ((get?_eq_some d).mpr hmem) hp
    exact List.mem_map.mpr ⟨(k, y), List.mem_filter.mpr ⟨(get?_eq_some e).mp hy, hq⟩, rfl⟩
  have hlength : counted.length ≤ those.length := (List.subperm_of_subset hnodup hsubset).length_le
  simpa [counted, those, count, List.countP_eq_length_filter] using hlength

/-! ## Gathering values -/

theorem mem_flatMap_values {α : Type*} (d : Dict κ ν) (f : ν → List α) (a : α) :
    a ∈ d.values.flatMap f ↔ ∃ k x, d.get? k = some x ∧ a ∈ f x := by
  simp only [List.mem_flatMap, mem_values]
  constructor
  · rintro ⟨x, ⟨k, hx⟩, ha⟩
    exact ⟨k, x, hx, ha⟩
  · rintro ⟨k, x, hx, ha⟩
    exact ⟨x, ⟨k, hx⟩, ha⟩

/-- What the values give has no duplicates if no value and no two keys give one. -/
theorem nodup_flatMap_values {α : Type*} {d : Dict κ ν} {f : ν → List α}
    (hown : ∀ k x, d.get? k = some x → (f x).Nodup)
    (hdisj : ∀ k k' x y, k ≠ k' → d.get? k = some x → d.get? k' = some y →
      ∀ a ∈ f x, a ∉ f y) : (d.values.flatMap f).Nodup := by
  unfold values
  rw [List.flatMap_map, List.nodup_flatMap]
  constructor
  · rintro ⟨k, x⟩ hmem
    exact hown k x ((get?_eq_some d).mpr hmem)
  · have hkeys : d.entries.Pairwise fun kv kv' => kv.1 ≠ kv'.1 := List.pairwise_map.mp d.nodup
    refine hkeys.imp_of_mem ?_
    rintro ⟨k, x⟩ ⟨k', y⟩ hmem hmem' hne a ha ha'
    exact hdisj k k' x y hne ((get?_eq_some d).mpr hmem) ((get?_eq_some d).mpr hmem') a ha ha'

/-- Items with keys, gathered in lists by their keys. -/
theorem perm_flatten_values {β : Type*} {d : Dict κ (List β)} {items : List (κ × β)}
    (h : ∀ k, (d.get? k).getD [] = (items.filter fun item => item.1 = k).map Prod.snd) :
    d.values.flatten.Perm (items.map Prod.snd) := by
  have hlist : ∀ (entries : List (κ × List β)) (items : List (κ × β)),
      (entries.map Prod.fst).Nodup → (∀ item ∈ items, item.1 ∈ entries.map Prod.fst) →
      (∀ kv ∈ entries, kv.2 = (items.filter fun item => item.1 = kv.1).map Prod.snd) →
      (entries.map Prod.snd).flatten.Perm (items.map Prod.snd) := by
    intro entries
    induction entries with
    | nil =>
      intro items _ hkeys _
      have hnil : items = [] :=
        List.eq_nil_iff_forall_not_mem.mpr fun item hitem => by simpa using hkeys item hitem
      rw [hnil]
      rfl
    | cons kv rest ih =>
      intro items hnodup hkeys hvalues
      rw [List.map_cons, List.nodup_cons] at hnodup
      rw [List.forall_mem_cons] at hvalues
      have hrest := ih (items.filter fun item => !decide (item.1 = kv.1)) hnodup.2 ?_ ?_
      · rw [List.map_cons, List.flatten_cons, hvalues.1]
        refine (hrest.append_left _).trans ?_
        rw [← List.map_append]
        exact (List.filter_append_perm _ items).map Prod.snd
      · intro item hitem
        rw [List.mem_filter, Bool.not_eq_true', decide_eq_false_iff_not] at hitem
        exact (List.mem_cons.mp (hkeys item hitem.1)).resolve_left hitem.2
      · intro kv' hkv'
        rw [hvalues.2 kv' hkv', List.filter_filter]
        congr 1
        refine List.filter_congr fun item _ => ?_
        by_cases hkey : item.1 = kv'.1
        · have hne : kv'.1 ≠ kv.1 := fun heq => hnodup.1 (heq ▸ List.mem_map_of_mem hkv')
          simp [hkey, hne]
        · simp [hkey]
  refine hlist d.entries items d.nodup ?_ ?_
  · intro item hitem
    by_contra hnot
    have hnone : d.get? item.1 = none := by
      cases hget : d.get? item.1 with
      | none => rfl
      | some x => exact absurd (d.mem_keys.mpr ⟨x, hget⟩) hnot
    have hnil := h item.1
    rw [hnone] at hnil
    have hmem : item.2 ∈ (items.filter fun item' => item'.1 = item.1).map Prod.snd :=
      List.mem_map_of_mem (List.mem_filter.mpr ⟨hitem, decide_eq_true rfl⟩)
    rw [← hnil] at hmem
    cases hmem
  · intro kv hkv
    rw [← h kv.1, (get?_eq_some d).mpr hkv]
    rfl

end Dict
