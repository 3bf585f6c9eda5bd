import LlmHomeLab.Lib.Dict
import LlmHomeLab.Lib.FirstFree
import LlmHomeLab.Lib.Runs

/-! # The widget ids of the load charts

`tui/app.py`: every host shown by the dashboard has a group of widgets, which
`_render_load_sparklines` mounts when the host is first seen and removes when it is gone. Widgets
need ids of their own, made of the host's id; no two may be the same, whatever the hosts are
called.
-/

namespace LlmHomeLab

/-! ## One id -/

/-- `[a-zA-Z0-9_-]`. -/
def isIdChar (c : Char) : Bool := c.isAlphanum || c == '_' || c == '-'

/-- `sanitized`: a letter or an underscore, and what else an id may have. -/
def sanitizeHostId (hostId : String) : String :=
  match hostId.toList.map fun c => if isIdChar c then c else '_' with
  | [] => "h_"
  | c :: rest =>
    if c.isAlpha || c == '_' then String.ofList (c :: rest) else "h_" ++ String.ofList (c :: rest)

/-- The loop of `_sparkline_widget_id`, for this many rounds. -/
def widgetIdLoop (base : String) (used : List String) : Nat → Nat → String → Option String
  | 0, _, _ => none
  | fuel + 1, suffix, candidate =>
    if candidate ∈ used then
      widgetIdLoop base used fuel (suffix + 1) (base ++ ("-" ++ toString suffix))
    else some candidate

/-- `_sparkline_widget_id`: the id, and the ids that are used now. The rounds suffice for the loop
to end (`widgetIdLoop_terminates`). -/
def sparklineWidgetId (hostId kind : String) (used : List String) :
    Option (String × List String) :=
  let base := kind ++ ("-" ++ sanitizeHostId hostId)
  (widgetIdLoop base used (used.length + 1) 2 base).map fun candidate =>
    (candidate, used ++ [candidate])

/-- The candidates, from the first on. -/
def candidate (base : String) (n : Nat) : String :=
  if n = 0 then base else base ++ ("-" ++ toString (n + 1))

theorem candidate_injective (base : String) : Function.Injective (candidate base) := by
  have hne : ∀ n : Nat, base ≠ base ++ ("-" ++ toString n) := by
    intro n heq
    have hlength := congrArg String.length heq
    rw [String.length_append, String.length_append] at hlength
    have hdash : "-".length = 1 := by decide
    omega
  intro m n heq
  unfold candidate at heq
  by_cases hm : m = 0 <;> by_cases hn : n = 0
  · rw [hm, hn]
  · rw [if_pos hm, if_neg hn] at heq
    exact absurd heq (hne _)
  · rw [if_neg hm, if_pos hn] at heq
    exact absurd heq.symm (hne _)
  · rw [if_neg hm, if_neg hn, String.append_right_inj, String.append_right_inj] at heq
    exact Nat.succ_injective (Nat.repr_injective heq)

theorem widgetIdLoop_eq (base : String) (used : List String) (fuel n : Nat) :
    widgetIdLoop base used fuel (n + 2) (candidate base n) =
      firstFree (candidate base) used fuel n := by
  induction fuel generalizing n with
  | zero => rfl
  | succ fuel ih =>
    have hnext : base ++ ("-" ++ toString (n + 2)) = candidate base (n + 1) := rfl
    rw [widgetIdLoop, firstFree, hnext, ih (n + 1)]

/-- The loop ends, at the latest one round after it has tried every used id. -/
theorem widgetIdLoop_terminates (base : String) (used : List String) :
    ∃ n, candidate base n ∉ used ∧ ∀ fuel, used.length < fuel →
      widgetIdLoop base used fuel 2 base = some (candidate base n) := by
  obtain ⟨n, hfree, hfound⟩ := FirstFree.terminates (candidate_injective base) used 0
  refine ⟨n, hfree, fun fuel hfuel => ?_⟩
  rw [← hfound fuel hfuel]
  exact widgetIdLoop_eq base used fuel 0

/-- An id starts with a letter and has only the characters an id may have. -/
structure ValidId (id : String) : Prop where
  startsWithLetter : ∃ c rest, id.toList = c :: rest ∧ c.isAlpha = true
  characters : ∀ c ∈ id.toList, isIdChar c = true

theorem isIdChar_sanitizeHostId (hostId : String) :
    ∀ c ∈ (sanitizeHostId hostId).toList, isIdChar c = true := by
  have hmapped : ∀ c ∈ hostId.toList.map (fun c => if isIdChar c then c else '_'),
      isIdChar c = true := by
    intro c hc
    obtain ⟨d, -, rfl⟩ := List.mem_map.mp hc
    split
    · assumption
    · decide
  have hmade : ∀ c ∈ "h_".toList, isIdChar c = true := by
    intro c hc
    rcases List.mem_pair.mp (hc : c ∈ ['h', '_']) with rfl | rfl <;> decide
  unfold sanitizeHostId
  split
  · exact hmade
  · next c rest heq =>
    rw [heq] at hmapped
    split
    · simpa using hmapped
    · intro d hd
      rw [String.toList_append, List.mem_append] at hd
      rcases hd with hd | hd
      · exact hmade d hd
      · exact hmapped d (by simpa using hd)

theorem isIdChar_toString {n : Nat} {c : Char} (hc : c ∈ (toString n).toList) :
    isIdChar c = true := by
  have hdigit : c.isDigit = true := by
    rw [Nat.toString_eq_repr, Nat.toList_repr] at hc
    exact Nat.isDigit_of_mem_toDigits (by decide) (by decide) hc
  simp [isIdChar, Char.isAlphanum, hdigit]

/-! ## The ids of all hosts -/

/-- What a host has widgets for. -/
inductive WidgetKind where
  | load
  | group
  | label
deriving DecidableEq, Repr

/-- The first part of the ids. -/
def WidgetKind.stem : WidgetKind → String
  | .load => "load"
  | .group => "group"
  | .label => "label"

theorem valid_candidate (kind : WidgetKind) (hostId : String) (n : Nat) :
    ValidId (candidate (kind.stem ++ ("-" ++ sanitizeHostId hostId)) n) := by
  have hstem : ∃ c rest, kind.stem.toList = c :: rest ∧ c.isAlpha = true ∧
      ∀ d ∈ c :: rest, isIdChar d = true := by
    cases kind with
    | load => exact ⟨'l', ['o', 'a', 'd'], rfl, by decide, by simp; decide⟩
    | group => exact ⟨'g', ['r', 'o', 'u', 'p'], rfl, by decide, by simp; decide⟩
    | label => exact ⟨'l', ['a', 'b', 'e', 'l'], rfl, by decide, by simp; decide⟩
  have hdash : ∀ c ∈ "-".toList, isIdChar c = true := by
    intro c hc
    rw [List.mem_singleton.mp (hc : c ∈ ['-'])]
    decide
  have hbase : ∀ c ∈ (kind.stem ++ ("-" ++ sanitizeHostId hostId)).toList, isIdChar c = true := by
    obtain ⟨c, rest, heq, -, hchars⟩ := hstem
    simp only [String.toList_append, List.mem_append, heq]
    rintro d (hd | hd | hd)
    · exact hchars d hd
    · exact hdash d hd
    · exact isIdChar_sanitizeHostId hostId d hd
  obtain ⟨c, rest, heq, halpha, -⟩ := hstem
  unfold candidate
  split
  · refine ⟨⟨c, rest ++ ("-" ++ sanitizeHostId hostId).toList, ?_, halpha⟩, hbase⟩
    rw [String.toList_append, heq, List.cons_append]
  · refine ⟨⟨c, rest ++ ("-" ++ sanitizeHostId hostId).toList ++ ("-" ++ toString (n + 1)).toList,
      ?_, halpha⟩, ?_⟩
    · rw [String.toList_append, String.toList_append, heq, List.cons_append, List.cons_append]
    · simp only [String.toList_append (s := kind.stem ++ ("-" ++ sanitizeHostId hostId)),
        List.mem_append]
      rintro d (hd | hd)
      · exact hbase d hd
      · rw [String.toList_append, List.mem_append] at hd
        exact hd.elim (hdash d) isIdChar_toString

/-- An id that is made is a valid one that was not used. -/
theorem sparklineWidgetId_spec (hostId : String) (kind : WidgetKind) (used : List String) :
    ∃ id, sparklineWidgetId hostId kind.stem used = some (id, used ++ [id]) ∧ id ∉ used ∧
      ValidId id := by
  obtain ⟨n, hfree, hloop⟩ :=
    widgetIdLoop_terminates (kind.stem ++ ("-" ++ sanitizeHostId hostId)) used
  refine ⟨_, ?_, hfree, valid_candidate kind hostId n⟩
  rw [sparklineWidgetId, hloop _ (Nat.lt_succ_self _)]
  rfl

/-- Where `_render_load_sparklines` waits: for the group of a stale host to be removed, or for that
of a new one to be mounted. -/
inductive RenderPhase where
  | idle
  | removing (stale : List String)
  | adding (hosts used : List String)
deriving DecidableEq, Repr

/-- What the dashboard has widgets for. `hosts` are those of the poll that is rendered, or was
last. -/
structure Sparklines where
  groupIds : Dict String String := .empty
  sparklineIds : Dict String String := .empty
  labelIds : Dict String String := .empty
  hosts : List String := []
  phase : RenderPhase := .idle

inductive RenderEvent where
  /-- The nodes of a response are rendered. -/
  | poll (nodes : List String)
  /-- The rendering goes on to its next await. -/
  | next
  /-- It ends with an exception instead. -/
  | raised
deriving DecidableEq, Repr

namespace Sparklines

variable {s t u : Sparklines} {e : RenderEvent} {kind kind' : WidgetKind}
  {hostId hostId' id : String}

def ids (s : Sparklines) : WidgetKind → Dict String String
  | .load => s.sparklineIds
  | .group => s.groupIds
  | .label => s.labelIds

def usedIds (s : Sparklines) : List String :=
  s.groupIds.values ++ s.sparklineIds.values ++ s.labelIds.values

/-- The keys of `ratios`. -/
def ratioHosts (nodes : List String) : List String :=
  (nodes.foldl (fun ratios hostId => ratios.set hostId ()) Dict.empty).keys

def removeHost (s : Sparklines) (hostId : String) : Sparklines :=
  { s with
    groupIds := s.groupIds.pop hostId
    sparklineIds := s.sparklineIds.pop hostId
    labelIds := s.labelIds.pop hostId }

/-- The body of the loop over the hosts. -/
def addHost (s : Sparklines) (hostId : String) (rest used : List String) : Option Sparklines :=
  if s.groupIds.contains hostId then some { s with phase := .adding rest used }
  else do
    let (loadId, used) ← sparklineWidgetId hostId "load" used
    let (groupId, used) ← sparklineWidgetId hostId "group" used
    let (labelId, used) ← sparklineWidgetId hostId "label" used
    some { s with
      labelIds := s.labelIds.set hostId labelId
      sparklineIds := s.sparklineIds.set hostId loadId
      groupIds := s.groupIds.set hostId groupId
      phase := .adding rest used }

/-- Polls do not overlap, so one is rendered only where no other is. -/
def step (s : Sparklines) : RenderEvent → Option Sparklines
  | .poll nodes =>
    match s.phase with
    | .idle =>
      let hosts := ratioHosts nodes
      some { s with
        hosts, phase := .removing (s.groupIds.keys.filter fun hostId => hostId ∉ hosts) }
    | _ => none
  | .next =>
    match s.phase with
    | .idle => none
    | .removing [] => some { s with phase := .adding s.hosts s.usedIds }
    | .removing (hostId :: rest) => some { s.removeHost hostId with phase := .removing rest }
    | .adding [] _ => some { s with phase := .idle }
    | .adding (hostId :: rest) used => s.addHost hostId rest used
  | .raised =>
    match s.phase with
    | .idle => none
    | _ => some { s with phase := .idle }

/-! ## What a step does -/

theorem mem_ratioHosts {nodes : List String} : hostId ∈ ratioHosts nodes ↔ hostId ∈ nodes := by
  have hfold : ∀ (nodes : List String) (d : Dict String Unit),
      hostId ∈ (nodes.foldl (fun ratios hostId => ratios.set hostId ()) d).keys ↔
        hostId ∈ nodes ∨ hostId ∈ d.keys := by
    intro nodes
    induction nodes with
    | nil => simp
    | cons first nodes ih =>
      intro d
      rw [List.foldl_cons, ih, Dict.mem_keys_iff_contains, Dict.mem_keys_iff_contains,
        Dict.contains_set_iff, List.mem_cons]
      tauto
  rw [ratioHosts, hfold]
  simp [Dict.empty, Dict.keys]

theorem mem_usedIds : id ∈ s.usedIds ↔ ∃ kind hostId, (s.ids kind).get? hostId = some id := by
  simp only [usedIds, List.mem_append, Dict.mem_values]
  constructor
  · rintro ((⟨hostId, h⟩ | ⟨hostId, h⟩) | ⟨hostId, h⟩)
    · exact ⟨.group, hostId, h⟩
    · exact ⟨.load, hostId, h⟩
    · exact ⟨.label, hostId, h⟩
  · rintro ⟨kind, hostId, h⟩
    cases kind with
    | load => exact Or.inl (Or.inr ⟨hostId, h⟩)
    | group => exact Or.inl (Or.inl ⟨hostId, h⟩)
    | label => exact Or.inr ⟨hostId, h⟩

theorem ids_removeHost : ((s.removeHost hostId).ids kind).get? hostId' =
    if hostId' = hostId then none else (s.ids kind).get? hostId' := by
  cases kind <;> exact Dict.get?_pop _

/-- What a host that is added gets: an id of each kind, new and different from each other. -/
theorem addHost_new (rest used : List String) (h : s.groupIds.contains hostId = false) :
    ∃ (new : WidgetKind → String) (used' : List String) (t : Sparklines),
      s.addHost hostId rest used = some t ∧
      (∀ kind, ValidId (new kind) ∧ new kind ∉ used ∧ new kind ∈ used') ∧
      Function.Injective new ∧ (∀ id ∈ used, id ∈ used') ∧
      (∀ kind hostId', (t.ids kind).get? hostId' =
        if hostId' = hostId then some (new kind) else (s.ids kind).get? hostId') ∧
      t.hosts = s.hosts ∧ t.phase = .adding rest used' := by
  obtain ⟨loadId, hload, hloadFree, hloadValid⟩ := sparklineWidgetId_spec hostId .load used
  obtain ⟨groupId, hgroup, hgroupFree, hgroupValid⟩ :=
    sparklineWidgetId_spec hostId .group (used ++ [loadId])
  obtain ⟨labelId, hlabel, hlabelFree, hlabelValid⟩ :=
    sparklineWidgetId_spec hostId .label (used ++ [loadId] ++ [groupId])
  simp only [List.mem_append, List.mem_singleton, not_or] at hgroupFree hlabelFree
  obtain ⟨hgroupFree, hgroupLoad⟩ := hgroupFree
  obtain ⟨⟨hlabelFree, hlabelLoad⟩, hlabelGroup⟩ := hlabelFree
  let new : WidgetKind → String
    | .load => loadId
    | .group => groupId
    | .label => labelId
  let used' := used ++ [loadId] ++ [groupId] ++ [labelId]
  let t : Sparklines := { s with
    labelIds := s.labelIds.set hostId labelId
    sparklineIds := s.sparklineIds.set hostId loadId
    groupIds := s.groupIds.set hostId groupId
    phase := .adding rest used' }
  refine ⟨new, used', t, ?_, ?_, ?_, ?_, ?_, rfl, rfl⟩
  · simp only [WidgetKind.stem] at hload hgroup hlabel
    rw [addHost, h, hload]
    simp only [Option.bind_eq_bind, Option.bind_some, hgroup, hlabel, Bool.false_eq_true, if_false]
    rfl
  · intro kind
    cases kind with
    | load => exact ⟨hloadValid, hloadFree, by simp [new, used']⟩
    | group => exact ⟨hgroupValid, hgroupFree, by simp [new, used']⟩
    | label => exact ⟨hlabelValid, hlabelFree, by simp [new, used']⟩
  · intro kind kind' heq
    cases kind <;> cases kind' <;> simp_all [new]
  · intro id hid
    simp [used', hid]
  · intro kind hostId'
    cases kind <;> exact Dict.get?_set _

/-- What a step does to the ids: a poll begins, a host loses its ids, the used ids are gathered, a
host is passed over because it has ids, a host gets ids, or the poll is over. -/
inductive Change (s : Sparklines) : RenderEvent → Sparklines → Prop
  | poll (nodes : List String) (t : Sparklines) (hphase : s.phase = .idle)
      (hids : t.ids = s.ids) (hhosts : t.hosts = ratioHosts nodes)
      (hnext : t.phase = .removing (s.groupIds.keys.filter fun hostId => hostId ∉ t.hosts)) :
      Change s (.poll nodes) t
  | remove (hostId : String) (rest : List String) (t : Sparklines)
      (hphase : s.phase = .removing (hostId :: rest))
      (hids : ∀ kind hostId', (t.ids kind).get? hostId' =
        if hostId' = hostId then none else (s.ids kind).get? hostId')
      (hhosts : t.hosts = s.hosts) (hnext : t.phase = .removing rest) : Change s .next t
  | gather (t : Sparklines) (hphase : s.phase = .removing []) (hids : t.ids = s.ids)
      (hhosts : t.hosts = s.hosts) (hnext : t.phase = .adding s.hosts s.usedIds) : Change s .next t
  | keep (hostId : String) (rest used : List String) (t : Sparklines)
      (hphase : s.phase = .adding (hostId :: rest) used)
      (hhas : s.groupIds.contains hostId = true) (hids : t.ids = s.ids)
      (hhosts : t.hosts = s.hosts) (hnext : t.phase = .adding rest used) : Change s .next t
  | add (hostId : String) (rest used used' : List String) (new : WidgetKind → String)
      (t : Sparklines) (hphase : s.phase = .adding (hostId :: rest) used)
      (hnew : s.groupIds.contains hostId = false)
      (hfree : ∀ kind, ValidId (new kind) ∧ new kind ∉ used ∧ new kind ∈ used')
      (hinj : Function.Injective new) (hused : ∀ id ∈ used, id ∈ used')
      (hids : ∀ kind hostId', (t.ids kind).get? hostId' =
        if hostId' = hostId then some (new kind) else (s.ids kind).get? hostId')
      (hhosts : t.hosts = s.hosts) (hnext : t.phase = .adding rest used') : Change s .next t
  | done (e : RenderEvent) (t : Sparklines) (hids : t.ids = s.ids) (hhosts : t.hosts = s.hosts)
      (hnext : t.phase = .idle) : Change s e t

theorem change_of_step (h : s.step e = some t) : s.Change e t := by
  cases e with
  | poll nodes =>
    simp only [step] at h
    split at h
    · next hphase =>
      cases h
      exact .poll nodes _ hphase rfl rfl rfl
    · cases h
  | next =>
    simp only [step] at h
    split at h
    · cases h
    · next hphase =>
      cases h
      exact .gather _ hphase rfl rfl rfl
    · next hostId rest hphase =>
      cases h
      exact .remove hostId rest _ hphase (fun _ _ => ids_removeHost) rfl rfl
    · cases h
      exact .done _ _ rfl rfl rfl
    · next hostId rest used hphase =>
      cases hcontains : s.groupIds.contains hostId with
      | true =>
        rw [addHost, hcontains, if_pos rfl] at h
        cases h
        exact .keep hostId rest used _ hphase hcontains rfl rfl rfl
      | false =>
        obtain ⟨new, used', t', hadd, hfree, hinj, hused, hids, hhosts, hnext⟩ :=
          addHost_new rest used hcontains
        rw [hadd] at h
        cases h
        exact .add hostId rest used used' new _ hphase hcontains hfree hinj hused hids hhosts hnext
  | raised =>
    simp only [step] at h
    split at h
    · cases h
    · cases h
      exact .done _ _ rfl rfl rfl

/-- A poll that has begun goes on: no id is sought forever. -/
theorem goes_on (h : s.phase ≠ .idle) : ∃ t, s.step .next = some t := by
  simp only [step]
  split
  · contradiction
  · exact ⟨_, rfl⟩
  · exact ⟨_, rfl⟩
  · exact ⟨_, rfl⟩
  · next hostId rest used _ =>
    cases hcontains : s.groupIds.contains hostId with
    | true => exact ⟨_, by rw [addHost, hcontains, if_pos rfl]⟩
    | false =>
      obtain ⟨_, _, t, hadd, -⟩ := addHost_new rest used hcontains
      exact ⟨t, hadd⟩

/-! ## The invariant -/

/-- The ids are valid and all different, a host has all of its ids or none, the ids in use are among
those gathered, and no host of the poll is to be removed or has been passed over without ids. -/
structure Inv (s : Sparklines) : Prop where
  distinct : ∀ kind kind' hostId hostId' id, (s.ids kind).get? hostId = some id →
    (s.ids kind').get? hostId' = some id → kind = kind' ∧ hostId = hostId'
  valid : ∀ kind hostId id, (s.ids kind).get? hostId = some id → ValidId id
  together : ∀ kind hostId, (s.ids kind).get? hostId = none ↔ (s.ids .group).get? hostId = none
  gathered : ∀ hosts used, s.phase = .adding hosts used →
    ∀ kind hostId id, (s.ids kind).get? hostId = some id → id ∈ used
  stale : ∀ stale, s.phase = .removing stale → ∀ hostId ∈ stale, hostId ∉ s.hosts
  tracked : ∀ hosts used, s.phase = .adding hosts used →
    ∀ hostId ∈ s.hosts, hostId ∈ hosts ∨ (s.ids .group).contains hostId = true

theorem inv_initial : Inv {} where
  distinct := fun kind _ _ _ _ h => by cases kind <;> cases h
  valid := fun kind _ _ h => by cases kind <;> cases h
  together := fun kind _ => by cases kind <;> rfl
  gathered := fun _ _ h => by cases h
  stale := fun _ h => by cases h
  tracked := fun _ _ h => by cases h

/-- Where the ids stay, it is the phase that counts. -/
theorem Inv.of_ids_eq (h : s.Inv) (hids : t.ids = s.ids)
    (hgathered : ∀ hosts used, t.phase = .adding hosts used →
      ∀ kind hostId id, (s.ids kind).get? hostId = some id → id ∈ used)
    (hstale : ∀ stale, t.phase = .removing stale → ∀ hostId ∈ stale, hostId ∉ t.hosts)
    (htracked : ∀ hosts used, t.phase = .adding hosts used →
      ∀ hostId ∈ t.hosts, hostId ∈ hosts ∨ (s.ids .group).contains hostId = true) : t.Inv where
  distinct := by rw [hids]; exact h.distinct
  valid := by rw [hids]; exact h.valid
  together := by rw [hids]; exact h.together
  gathered := by rw [hids]; exact hgathered
  stale := hstale
  tracked := by rw [hids]; exact htracked

theorem inv_change (h : s.Inv) (hchange : s.Change e t) : t.Inv := by
  cases hchange with
  | poll nodes _ hphase hids hhosts hnext =>
    refine h.of_ids_eq hids (fun _ _ ht => ?_) (fun stale ht hostId hmem => ?_) fun _ _ ht => ?_
    · rw [hnext] at ht; cases ht
    · rw [hnext] at ht
      cases ht
      simpa using (List.mem_filter.mp hmem).2
    · rw [hnext] at ht; cases ht
  | remove gone rest _ hphase hids hhosts hnext =>
    have hget : ∀ {kind hostId id}, (t.ids kind).get? hostId = some id →
        (s.ids kind).get? hostId = some id := by
      intro kind hostId id ht
      rw [hids] at ht
      split at ht
      · cases ht
      · exact ht
    refine ⟨fun kind kind' hostId hostId' id ht ht' => ?_, fun kind hostId id ht => ?_,
      fun kind hostId => ?_, fun _ _ ht => ?_, fun stale ht hostId hmem => ?_, fun _ _ ht => ?_⟩
    · exact h.distinct kind kind' hostId hostId' id (hget ht) (hget ht')
    · exact h.valid kind hostId id (hget ht)
    · rw [hids, hids]
      split
      · rfl
      · exact h.together kind hostId
    · rw [hnext] at ht; cases ht
    · rw [hnext] at ht
      cases ht
      rw [hhosts]
      exact h.stale _ hphase hostId (List.mem_cons_of_mem _ hmem)
    · rw [hnext] at ht; cases ht
  | gather _ hphase hids hhosts hnext =>
    refine h.of_ids_eq hids (fun hosts used ht kind hostId id hget => ?_) (fun _ ht => ?_)
      fun hosts used ht hostId hmem => ?_
    · rw [hnext] at ht
      cases ht
      exact mem_usedIds.mpr ⟨kind, hostId, hget⟩
    · rw [hnext] at ht; cases ht
    · rw [hnext] at ht
      cases ht
      rw [hhosts] at hmem
      exact Or.inl hmem
  | keep first rest used _ hphase hhas hids hhosts hnext =>
    refine h.of_ids_eq hids (fun hosts used' ht kind hostId id hget => ?_) (fun _ ht => ?_)
      fun hosts used' ht hostId hmem => ?_
    · rw [hnext] at ht
      cases ht
      exact h.gathered _ _ hphase kind hostId id hget
    · rw [hnext] at ht; cases ht
    · rw [hnext] at ht
      cases ht
      rw [hhosts] at hmem
      rcases h.tracked _ _ hphase hostId hmem with hmem | hmem
      · rcases List.mem_cons.mp hmem with rfl | hmem
        · exact Or.inr hhas
        · exact Or.inl hmem
      · exact Or.inr hmem
  | add first rest used used' new _ hphase hnew hfree hinj hused hids hhosts hnext =>
    -- what is gathered has the old ids, so a new one is none of them
    have hcases : ∀ {kind hostId id}, (t.ids kind).get? hostId = some id →
        (hostId = first ∧ id = new kind) ∨
          (hostId ≠ first ∧ (s.ids kind).get? hostId = some id ∧ id ∈ used) := by
      intro kind hostId id ht
      rw [hids] at ht
      split at ht
      · next heq =>
        cases ht
        exact Or.inl ⟨heq, rfl⟩
      · next hne => exact Or.inr ⟨hne, ht, h.gathered _ _ hphase kind hostId id ht⟩
    refine ⟨fun kind kind' hostId hostId' id ht ht' => ?_, fun kind hostId id ht => ?_,
      fun kind hostId => ?_, fun hosts _ ht kind hostId id hget => ?_, fun _ ht => ?_,
      fun hosts _ ht hostId hmem => ?_⟩
    · rcases hcases ht with ⟨rfl, rfl⟩ | ⟨-, hget, hmem⟩
      · rcases hcases ht' with ⟨rfl, heq⟩ | ⟨-, -, hmem'⟩
        · exact ⟨hinj heq, rfl⟩
        · exact absurd hmem' (hfree kind).2.1
      · rcases hcases ht' with ⟨rfl, rfl⟩ | ⟨-, hget', -⟩
        · exact absurd hmem (hfree kind').2.1
        · exact h.distinct kind kind' hostId hostId' id hget hget'
    · rcases hcases ht with ⟨-, rfl⟩ | ⟨-, hget, -⟩
      · exact (hfree kind).1
      · exact h.valid kind hostId id hget
    · rw [hids, hids]
      split
      · simp
      · exact h.together kind hostId
    · rw [hnext] at ht
      cases ht
      rcases hcases hget with ⟨-, rfl⟩ | ⟨-, -, hmem⟩
      · exact (hfree kind).2.2
      · exact hused id hmem
    · rw [hnext] at ht; cases ht
    · rw [hnext] at ht
      cases ht
      rw [hhosts] at hmem
      rw [Dict.contains_iff, hids]
      rcases h.tracked _ _ hphase hostId hmem with hmem | hmem
      · rcases List.mem_cons.mp hmem with rfl | hmem
        · exact Or.inr ⟨new .group, if_pos rfl⟩
        · exact Or.inl hmem
      · obtain ⟨id, hid⟩ := (Dict.contains_iff _).mp hmem
        refine Or.inr ?_
        split
        · exact ⟨_, rfl⟩
        · exact ⟨id, hid⟩
  | done _ _ hids hhosts hnext =>
    refine h.of_ids_eq hids (fun _ _ ht => ?_) (fun _ ht => ?_) fun _ _ ht => ?_
    all_goals rw [hnext] at ht; cases ht

/-- The ids of a host stay where it is one of the hosts of the poll. -/
theorem ids_kept (h : s.Inv) (hchange : s.Change e t) (hhost : hostId ∈ s.hosts)
    (hpolls : ∀ nodes, e = .poll nodes → hostId ∈ nodes)
    (hid : (s.ids kind).get? hostId = some id) :
    hostId ∈ t.hosts ∧ (t.ids kind).get? hostId = some id := by
  cases hchange with
  | poll nodes _ _ hids hhosts _ =>
    rw [hids, hhosts]
    exact ⟨mem_ratioHosts.mpr (hpolls nodes rfl), hid⟩
  | remove gone rest _ hphase hids hhosts _ =>
    have hne : hostId ≠ gone := by
      rintro rfl
      exact h.stale _ hphase hostId List.mem_cons_self hhost
    rw [hids, hhosts, if_neg hne]
    exact ⟨hhost, hid⟩
  | gather _ _ hids hhosts _ =>
    rw [hids, hhosts]
    exact ⟨hhost, hid⟩
  | keep _ _ _ _ _ _ hids hhosts _ =>
    rw [hids, hhosts]
    exact ⟨hhost, hid⟩
  | add first rest used used' new _ _ hnew _ _ _ hids hhosts _ =>
    -- a host without a group has no ids at all
    have hne : hostId ≠ first := by
      rintro rfl
      have hnone := (h.together kind hostId).mpr ((Dict.contains_eq_false _).mp hnew)
      rw [hid] at hnone
      cases hnone
    rw [hids, hhosts, if_neg hne]
    exact ⟨hhost, hid⟩
  | done _ _ hids hhosts _ =>
    rw [hids, hhosts]
    exact ⟨hhost, hid⟩

/-! ## Runs -/

theorem inv_run {es : List RenderEvent} (hrun : Run (Fires step) s es t) (h : s.Inv) : t.Inv :=
  hrun.invariant Inv h fun _ _ _ hstep hinv => inv_change hinv (change_of_step hstep)

theorem ids_kept_run {es : List RenderEvent} (hrun : Run (Fires step) s es t) (h : s.Inv)
    (hhost : hostId ∈ s.hosts) (hpolls : ∀ nodes, RenderEvent.poll nodes ∈ es → hostId ∈ nodes)
    (hid : (s.ids kind).get? hostId = some id) :
    hostId ∈ t.hosts ∧ (t.ids kind).get? hostId = some id := by
  induction hrun with
  | nil => exact ⟨hhost, hid⟩
  | snoc hprev hnext ih =>
    obtain ⟨hhost', hid'⟩ := ih fun nodes hmem => hpolls nodes (List.mem_append_left _ hmem)
    refine ids_kept (inv_run hprev h) (change_of_step hnext) hhost' (fun nodes heq => ?_) hid'
    exact hpolls nodes (List.mem_append_right _ (heq ▸ List.mem_cons_self))

/-- The search for an id always ends. In every state of every run of polls, also between the steps
of one, the ids of all hosts and kinds are different and valid; a poll that is about to end has
given ids to all of its hosts; and a host keeps its ids as long as every poll has it. -/
theorem widget_ids_never_collide :
    (∀ base used, ∃ id, id ∉ used ∧
      ∀ fuel, used.length < fuel → widgetIdLoop base used fuel 2 base = some id) ∧
    ∀ es t, Run (Fires step) {} es t →
      (t.phase ≠ .idle → ∃ u, t.step .next = some u) ∧
      (∀ kind kind' hostId hostId' id, (t.ids kind).get? hostId = some id →
        (t.ids kind').get? hostId' = some id → kind = kind' ∧ hostId = hostId') ∧
      (∀ kind hostId id, (t.ids kind).get? hostId = some id → ValidId id) ∧
      (∀ used, t.phase = .adding [] used →
        ∀ hostId ∈ t.hosts, ∀ kind, (t.ids kind).contains hostId = true) ∧
      ∀ fs u, Run (Fires step) t fs u → ∀ hostId ∈ t.hosts,
        (∀ nodes, RenderEvent.poll nodes ∈ fs → hostId ∈ nodes) →
        ∀ kind id, (t.ids kind).get? hostId = some id → (u.ids kind).get? hostId = some id := by
  refine ⟨fun base used => ?_, fun es t hrun => ?_⟩
  · obtain ⟨n, hfree, hloop⟩ := widgetIdLoop_terminates base used
    exact ⟨candidate base n, hfree, hloop⟩
  · have h := inv_run hrun inv_initial
    refine ⟨goes_on, h.distinct, h.valid, fun used hphase hostId hmem kind => ?_,
      fun fs u hrest hostId hmem hpolls kind id hid =>
        (ids_kept_run hrest h hmem hpolls hid).2⟩
    obtain ⟨id, hgroup⟩ := (Dict.contains_iff _).mp
      ((h.tracked _ _ hphase hostId hmem).resolve_left (by simp))
    rw [Dict.contains, Option.isSome_iff_ne_none, ne_eq, h.together kind hostId, hgroup]
    simp

/-- Two hosts whose ids are sanitized to the same text. -/
example : sparklineWidgetId "node.1" "load" ["load-node_1", "load-node_1-2"] =
    some ("load-node_1-3", ["load-node_1", "load-node_1-2", "load-node_1-3"]) := by decide +kernel

end Sparklines

end LlmHomeLab
