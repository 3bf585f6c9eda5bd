import LlmHomeLab.Context.Cache

/-! # What context assembly keeps

`assemble_context` against its definition: the messages it keeps are the ones a budget allows,
counted message by message from the last one on. The budget test itself counts a whole list, so
the two part where rounding up each message costs more than rounding up their sum.
-/

namespace LlmHomeLab

/-! ## Statement -/

/-- The messages of a session, as they are sent. -/
def rawMessages (session : Session) : List Message :=
  session.messages.map fun m => ⟨m.role, m.content⟩

/-- The summary, if there is one, and all messages. -/
def fullMessages (session : Session) : List Message :=
  (summaryMessage session).toList ++ rawMessages session

/-- What the summary leaves of the budget. -/
def remainingBudget (session : Session) (tokenBudget : Int) : Int :=
  tokenBudget - estimateTokens (summaryMessage session).toList

/-- What `assemble_context` returns behind the summary. -/
def keptMessages (session : Session) (tokenBudget : Int) : List Message :=
  (assembleContext session tokenBudget).messages.drop (summaryMessage session).toList.length

/-- The messages one by one. -/
def separateEstimate (messages : List Message) : Int :=
  (messages.map fun message => estimateTokens [message]).sum

/-- The result for a session and a budget, of which `kept` are the messages. -/
structure AssembledContext.Sound (result : AssembledContext) (session : Session)
    (tokenBudget : Int) (kept : List Message) : Prop where
  messages : result.messages = (summaryMessage session).toList ++ kept
  suffix : kept <:+ rawMessages session
  latest : kept.getLast? = (rawMessages session).getLast?
  dropped : result.droppedMessageCount + kept.length = (rawMessages session).length
  compacted : result.compacted = true ↔ 0 < result.droppedMessageCount
  whole : estimateTokens (fullMessages session) ≤ tokenBudget →
    result.droppedMessageCount = 0 ∧ result.messages = fullMessages session
  within : 1 < kept.length → estimateTokens result.messages ≤ tokenBudget

/-- A suffix of the messages, not an empty one where there are any, of which the estimate is
within the limit. -/
structure FittingSuffix (raw : List Message) (limit : Int) (kept : List Message) : Prop where
  suffix : kept <:+ raw
  latest : raw ≠ [] → kept ≠ []
  fits : estimateTokens kept ≤ limit

/-- The longest fitting suffix, or the last message where there is none. -/
structure KeepsLongest (raw : List Message) (limit : Int) (kept : List Message) : Prop where
  longest : (∃ s, FittingSuffix raw limit s) →
    FittingSuffix raw limit kept ∧ ∀ s, FittingSuffix raw limit s → s.length ≤ kept.length
  otherwise : (¬ ∃ s, FittingSuffix raw limit s) → kept = raw.getLast?.toList

/-! ## Estimates -/

theorem estimateTokens_nonneg (messages : List Message) : 0 ≤ estimateTokens messages :=
  Int.natCast_nonneg _

theorem estimateTokens_append_le (a b : List Message) :
    estimateTokens (a ++ b) ≤ estimateTokens a + estimateTokens b := by
  simp only [estimateTokens, List.map_append, List.sum_append]
  omega

theorem estimateTokens_le_append (a b : List Message) :
    estimateTokens b ≤ estimateTokens (a ++ b) := by
  simp only [estimateTokens, List.map_append, List.sum_append]
  omega

theorem separateEstimate_append (a b : List Message) :
    separateEstimate (a ++ b) = separateEstimate a + separateEstimate b := by
  simp [separateEstimate]

theorem separateEstimate_concat (messages : List Message) (message : Message) :
    separateEstimate (messages ++ [message]) =
      separateEstimate messages + estimateTokens [message] := by
  simp [separateEstimate]

theorem separateEstimate_nonneg (messages : List Message) : 0 ≤ separateEstimate messages := by
  refine List.sum_nonneg fun cost hcost => ?_
  obtain ⟨message, -, rfl⟩ := List.mem_map.mp hcost
  exact estimateTokens_nonneg _

/-- Rounding up each message rounds up at least as much. -/
theorem estimateTokens_le_separate (messages : List Message) :
    estimateTokens messages ≤ separateEstimate messages := by
  induction messages with
  | nil => exact le_refl _
  | cons message rest ih =>
    have happend := estimateTokens_append_le [message] rest
    have hsplit := separateEstimate_append [message] rest
    have hone : separateEstimate [message] = estimateTokens [message] := by
      simp [separateEstimate]
    simp only [List.singleton_append] at happend hsplit
    omega

theorem separateEstimate_le_of_suffix {a b : List Message} (h : a <:+ b) :
    separateEstimate a ≤ separateEstimate b := by
  obtain ⟨front, rfl⟩ := h
  have hfront := separateEstimate_nonneg front
  rw [separateEstimate_append]
  omega

theorem estimateTokens_le_of_suffix {a b : List Message} (h : a <:+ b) :
    estimateTokens a ≤ estimateTokens b := by
  obtain ⟨front, rfl⟩ := h
  exact estimateTokens_le_append front a

/-! ## The loop -/

/-- With one message more, the suffixes that fit end in it. -/
theorem longest_concat {front more : List Message} {message : Message} {limit : Int}
    (hlongest : ∀ t, t <:+ front → separateEstimate t ≤ limit - estimateTokens [message] →
      t <:+ more) (s : List Message) (hs : s <:+ front ++ [message])
    (hfits : separateEstimate s ≤ limit) : s <:+ more ++ [message] := by
  rcases List.suffix_concat_iff.mp hs with rfl | ⟨t, rfl, ht⟩
  · exact List.nil_suffix
  · rw [separateEstimate_concat] at hfits
    have htmore := hlongest t ht (by omega)
    exact List.suffix_concat_iff.mpr (Or.inr ⟨t, rfl, htmore⟩)

/-- What the loop adds to a list that is not empty: the longest suffix the budget pays for
message by message. -/
theorem keepRecent_spec (budget : Int) {kept : List Message} (hkept : kept ≠ [])
    (reversed : List Message) :
    ∃ more, keepRecent budget kept reversed = more ++ kept ∧ more <:+ reversed.reverse ∧
      (more ≠ [] → separateEstimate more ≤ budget) ∧
      ∀ s, s <:+ reversed.reverse → separateEstimate s ≤ budget → s <:+ more := by
  induction reversed generalizing budget kept with
  | nil => exact ⟨[], rfl, List.suffix_refl _, fun h => absurd rfl h, fun s hs _ => hs⟩
  | cons message rest ih =>
    have hempty : kept.isEmpty = false := by simpa using hkept
    unfold keepRecent
    simp only [hempty, Bool.not_false, Bool.true_and, decide_eq_true_eq, List.reverse_cons]
    by_cases hcost : budget < estimateTokens [message]
    · -- the message is too much, and with it every longer suffix
      rw [if_pos hcost]
      refine ⟨[], rfl, List.nil_suffix, fun h => absurd rfl h, ?_⟩
      intro s hs hfits
      rcases List.suffix_concat_iff.mp hs with rfl | ⟨t, rfl, ht⟩
      · exact List.suffix_refl _
      · have hnonneg := separateEstimate_nonneg t
        rw [separateEstimate_concat] at hfits
        omega
    · rw [if_neg hcost]
      obtain ⟨more, heq, hsuffix, hpaid, hlongest⟩ :=
        ih (budget - estimateTokens [message]) (List.cons_ne_nil message kept)
      refine ⟨more ++ [message], by simp [heq], ?_, ?_, ?_⟩
      · exact List.suffix_concat_iff.mpr (Or.inr ⟨more, rfl, hsuffix⟩)
      · intro _
        rw [separateEstimate_concat]
        by_cases hnil : more = []
        · subst hnil
          have hzero : separateEstimate [] = 0 := rfl
          omega
        · have := hpaid hnil
          omega
      · exact longest_concat hlongest

/-- What the loop keeps of a list of messages. -/
structure Greedy (raw : List Message) (limit : Int) (kept : List Message) : Prop where
  suffix : kept <:+ raw
  latest : raw ≠ [] → kept ≠ []
  paid : 1 < kept.length → separateEstimate kept ≤ limit
  longest : ∀ s, s <:+ raw → separateEstimate s ≤ limit → s <:+ kept

theorem greedy_keepRecent (raw : List Message) (limit : Int) :
    Greedy raw limit (keepRecent limit [] raw.reverse) := by
  rcases List.eq_nil_or_concat raw with rfl | ⟨front, message, rfl⟩
  · exact ⟨List.suffix_refl _, fun h => absurd rfl h, fun h => absurd h (by simp [keepRecent]),
      fun s hs _ => hs⟩
  · -- the last message is kept whatever it costs
    obtain ⟨more, heq, hsuffix, hpaid, hlongest⟩ :=
      keepRecent_spec (limit - estimateTokens [message]) (List.cons_ne_nil message [])
        front.reverse
    rw [List.reverse_reverse] at hsuffix hlongest
    have hkept : keepRecent limit [] (front ++ [message]).reverse = more ++ [message] := by
      rw [List.reverse_append, List.reverse_singleton, List.singleton_append, keepRecent]
      simpa using heq
    rw [List.concat_eq_append, hkept]
    refine ⟨List.suffix_concat_iff.mpr (Or.inr ⟨more, rfl, hsuffix⟩), by simp, ?_, ?_⟩
    · intro hlength
      have hmore : more ≠ [] := by
        rintro rfl
        exact absurd hlength (by simp)
      have := hpaid hmore
      rw [separateEstimate_concat]
      omega
    · exact longest_concat hlongest

/-! ## The result -/

section

variable {session : Session} {tokenBudget : Int}

theorem assembleContext_fits (h : estimateTokens (fullMessages session) ≤ tokenBudget) :
    assembleContext session tokenBudget = ⟨fullMessages session, false, 0⟩ :=
  if_pos h

theorem assembleContext_compacts (h : tokenBudget < estimateTokens (fullMessages session)) :
    assembleContext session tokenBudget =
      let kept := keepRecent (remainingBudget session tokenBudget) []
        (rawMessages session).reverse
      let dropped := (rawMessages session).length - kept.length
      ⟨(summaryMessage session).toList ++ kept, 0 < dropped, dropped⟩ :=
  if_neg (not_le.mpr h)

theorem keptMessages_fits (h : estimateTokens (fullMessages session) ≤ tokenBudget) :
    keptMessages session tokenBudget = rawMessages session := by
  rw [keptMessages, assembleContext_fits h]
  exact List.drop_left

theorem keptMessages_compacts (h : tokenBudget < estimateTokens (fullMessages session)) :
    keptMessages session tokenBudget =
      keepRecent (remainingBudget session tokenBudget) [] (rawMessages session).reverse := by
  rw [keptMessages, assembleContext_compacts h]
  exact List.drop_left

theorem greedy_keptMessages (h : tokenBudget < estimateTokens (fullMessages session)) :
    Greedy (rawMessages session) (remainingBudget session tokenBudget)
      (keptMessages session tokenBudget) := by
  rw [keptMessages_compacts h]
  exact greedy_keepRecent _ _

theorem keptMessages_suffix (session : Session) (tokenBudget : Int) :
    keptMessages session tokenBudget <:+ rawMessages session := by
  by_cases h : estimateTokens (fullMessages session) ≤ tokenBudget
  · rw [keptMessages_fits h]
  · exact (greedy_keptMessages (not_le.mp h)).suffix

/-- A suffix that is not empty ends as the whole does. -/
theorem getLast?_of_suffix {α : Type} {a b : List α} (h : a <:+ b) (hne : b ≠ [] → a ≠ []) :
    a.getLast? = b.getLast? := by
  obtain ⟨front, rfl⟩ := h
  cases a with
  | nil =>
    by_cases hfront : front = []
    · rw [hfront]
      rfl
    · exact absurd rfl (hne (by simpa using hfront))
  | cons x rest => rw [List.getLast?_append, List.getLast?_cons, Option.some_or]

/-- For every session and budget: the summary and a suffix of the messages that has the latest
one; the numbers are right; nothing is dropped where everything fits; and the result is within
the budget unless one message is left, or none. -/
theorem assembleContext_sound (session : Session) (tokenBudget : Int) :
    (assembleContext session tokenBudget).Sound session tokenBudget
      (keptMessages session tokenBudget) := by
  by_cases h : estimateTokens (fullMessages session) ≤ tokenBudget
  · rw [keptMessages_fits h, assembleContext_fits h]
    exact ⟨rfl, List.suffix_refl _, rfl, Nat.zero_add _, by simp, fun _ => ⟨rfl, rfl⟩, fun _ => h⟩
  · have hover := not_le.mp h
    have hgreedy := greedy_keptMessages hover
    have hlength := hgreedy.suffix.length_le
    have hresult : assembleContext session tokenBudget =
        ⟨(summaryMessage session).toList ++ keptMessages session tokenBudget,
          0 < (rawMessages session).length - (keptMessages session tokenBudget).length,
          (rawMessages session).length - (keptMessages session tokenBudget).length⟩ := by
      rw [keptMessages_compacts hover]
      exact assembleContext_compacts hover
    rw [hresult]
    refine ⟨rfl, hgreedy.suffix, getLast?_of_suffix hgreedy.suffix hgreedy.latest,
      Nat.sub_add_cancel hlength, by simp, fun hfits => absurd hfits h, fun hmany => ?_⟩
    have hpaid := hgreedy.paid hmany
    have hsum := estimateTokens_append_le (summaryMessage session).toList
      (keptMessages session tokenBudget)
    have hround := estimateTokens_le_separate (keptMessages session tokenBudget)
    simp only [remainingBudget] at hpaid ⊢
    omega

/-! ## Another budget -/

/-- A larger budget keeps at least the same messages. -/
theorem keptMessages_mono (session : Session) {tokenBudget tokenBudget' : Int}
    (h : tokenBudget ≤ tokenBudget') :
    keptMessages session tokenBudget <:+ keptMessages session tokenBudget' := by
  by_cases hfits : estimateTokens (fullMessages session) ≤ tokenBudget'
  · rw [keptMessages_fits hfits]
    exact keptMessages_suffix session tokenBudget
  · -- both runs go through the loop
    have hover := not_le.mp hfits
    have hless := greedy_keptMessages (lt_of_le_of_lt h hover)
    have hmore := greedy_keptMessages hover
    rcases List.suffix_or_suffix_of_suffix hless.suffix hmore.suffix with hle | hge
    · exact hle
    · by_cases hmany : 1 < (keptMessages session tokenBudget).length
      · refine hmore.longest _ hless.suffix ((hless.paid hmany).trans ?_)
        simp only [remainingBudget]
        omega
      · -- at most the last message, which is always kept
        have hsame : keptMessages session tokenBudget' = keptMessages session tokenBudget := by
          refine hge.eq_of_length_le ?_
          by_cases hraw : rawMessages session = []
          · have hnil := hless.suffix
            rw [hraw, List.suffix_nil] at hnil
            simp [hnil]
          · have hpos := List.length_pos_of_ne_nil (hmore.latest hraw)
            omega
        rw [hsame]

/-! ## The longest suffix -/

/-- The loop finds the longest fitting suffix exactly where no suffix of two messages or more
fits as a list and not message by message. -/
theorem keeps_longest_iff (session : Session) (tokenBudget : Int)
    (h : tokenBudget < estimateTokens (fullMessages session)) :
    KeepsLongest (rawMessages session) (remainingBudget session tokenBudget)
        (keptMessages session tokenBudget) ↔
      ∀ s, s <:+ rawMessages session → 1 < s.length →
        estimateTokens s ≤ remainingBudget session tokenBudget →
          separateEstimate s ≤ remainingBudget session tokenBudget := by
  have hgreedy := greedy_keptMessages h
  generalize remainingBudget session tokenBudget = limit at hgreedy ⊢
  generalize rawMessages session = raw at hgreedy ⊢
  generalize keptMessages session tokenBudget = kept at hgreedy ⊢
  have hround := estimateTokens_le_separate kept
  constructor
  · intro hkeeps s hs hmany hfits
    have hfit : FittingSuffix raw limit s :=
      ⟨hs, fun _ hnil => by simp [hnil] at hmany, hfits⟩
    obtain ⟨_, hlongest⟩ := hkeeps.longest ⟨s, hfit⟩
    have hle := hlongest s hfit
    have hsub := List.suffix_of_suffix_length_le hs hgreedy.suffix hle
    exact (separateEstimate_le_of_suffix hsub).trans (hgreedy.paid (lt_of_lt_of_le hmany hle))
  · intro hsame
    refine ⟨?_, fun hnone => ?_⟩
    · rintro ⟨s, hs⟩
      have hall : ∀ t, FittingSuffix raw limit t → t.length ≤ kept.length := by
        intro t ht
        by_cases hmany : 1 < t.length
        · exact (hgreedy.longest t ht.suffix (hsame t ht.suffix hmany ht.fits)).length_le
        · by_cases hraw : raw = []
          · have hnil := ht.suffix
            rw [hraw, List.suffix_nil] at hnil
            simp [hnil]
          · have hpos := List.length_pos_of_ne_nil (hgreedy.latest hraw)
            omega
      refine ⟨⟨hgreedy.suffix, hgreedy.latest, ?_⟩, hall⟩
      by_cases hmany : 1 < kept.length
      · exact hround.trans (hgreedy.paid hmany)
      · -- a single message, which every fitting suffix has
        have hle : kept.length ≤ s.length := by
          by_cases hraw : raw = []
          · have hnil := hgreedy.suffix
            rw [hraw, List.suffix_nil] at hnil
            simp [hnil]
          · have hpos := List.length_pos_of_ne_nil (hs.latest hraw)
            omega
        have hsub := List.suffix_of_suffix_length_le hgreedy.suffix hs.suffix hle
        exact (estimateTokens_le_of_suffix hsub).trans hs.fits
    · have hfew : ¬ 1 < kept.length := fun hmany =>
        hnone ⟨kept, hgreedy.suffix, hgreedy.latest, hround.trans (hgreedy.paid hmany)⟩
      have hlast := getLast?_of_suffix hgreedy.suffix hgreedy.latest
      rw [← hlast]
      match kept, hfew with
      | [], _ => rfl
      | [_], _ => rfl
      | _ :: _ :: _, hfew => exact absurd (by simp) hfew

end

/-! ## Short messages -/

private def sayings (contents : List String) : Session where
  sessionId := "s1"
  messages := contents.map fun content => ⟨1, "user", content, "2026-01-01T00:00:00Z"⟩
  summary := none

theorem keptMessages_mono_three :
    keptMessages (sayings ["xxxx", "yyyy", "zzzz"]) 1 <:+
      keptMessages (sayings ["xxxx", "yyyy", "zzzz"]) 2 :=
  keptMessages_mono _ (by decide)

theorem keeps_longest_iff_three :
    KeepsLongest (rawMessages (sayings ["xxxx", "yyyy", "zzzz"]))
        (remainingBudget (sayings ["xxxx", "yyyy", "zzzz"]) 2)
        (keptMessages (sayings ["xxxx", "yyyy", "zzzz"]) 2) ↔
      ∀ s, s <:+ rawMessages (sayings ["xxxx", "yyyy", "zzzz"]) → 1 < s.length →
        estimateTokens s ≤ remainingBudget (sayings ["xxxx", "yyyy", "zzzz"]) 2 →
          separateEstimate s ≤ remainingBudget (sayings ["xxxx", "yyyy", "zzzz"]) 2 :=
  keeps_longest_iff _ 2 (by decide)

/-- Five messages of one letter and a budget of one token: four of them fit, one is kept. -/
theorem short_messages_dropped :
    (1 : Int) < estimateTokens (fullMessages (sayings ["a", "b", "c", "d", "e"])) ∧
      keptMessages (sayings ["a", "b", "c", "d", "e"]) 1 = [⟨"user", "e"⟩] ∧
      ¬ KeepsLongest (rawMessages (sayings ["a", "b", "c", "d", "e"]))
        (remainingBudget (sayings ["a", "b", "c", "d", "e"]) 1)
        (keptMessages (sayings ["a", "b", "c", "d", "e"]) 1) := by
  have hkept : keptMessages (sayings ["a", "b", "c", "d", "e"]) 1 = [⟨"user", "e"⟩] := by decide
  refine ⟨by decide, hkept, fun hkeeps => ?_⟩
  have hfour : FittingSuffix (rawMessages (sayings ["a", "b", "c", "d", "e"]))
      (remainingBudget (sayings ["a", "b", "c", "d", "e"]) 1)
      [⟨"user", "b"⟩, ⟨"user", "c"⟩, ⟨"user", "d"⟩, ⟨"user", "e"⟩] :=
    ⟨⟨[⟨"user", "a"⟩], rfl⟩, fun _ => List.cons_ne_nil _ _, by decide⟩
  have hlength := (hkeeps.longest ⟨_, hfour⟩).2 _ hfour
  rw [hkept] at hlength
  exact absurd hlength (by decide)

end LlmHomeLab
