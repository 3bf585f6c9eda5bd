import LlmHomeLab.Lib.Rotation
import LlmHomeLab.Scheduling.Conservation

/-! # Round-robin fairness

Between two dispatches of one session every other session of the tier that keeps waiting, and
whose head could be served, has had a turn: after its turn a session stands behind the others,
and the scan of a later `dispatch` meets them first.
-/

namespace LlmHomeLab

namespace SchedulingQueue

variable {ε σ : Type} {eval : ε → σ → Except Exn (List String) × σ}

/-- The states that evaluating callbacks leads to. -/
def Asked (eval : ε → σ → Except Exn (List String) × σ) : σ → σ → Prop :=
  Relation.ReflTransGen fun a b => ∃ cb, b = (eval cb a).2

/-- The call is a `dispatch` that took the head of this session in this tier. -/
def Takes (eval : ε → σ → Except Exn (List String) × σ) (q : SchedulingQueue ε) (c : Call ε σ)
    (q' : SchedulingQueue ε) (priority : Int) (sessionId : String) : Prop :=
  Calls eval q c q' ∧ ∃ entry rest, c.Dispatches entry.requestId ∧
    (q.tier priority).get? sessionId = some (entry :: rest) ∧
    q' = q.popHead priority sessionId entry

/-- The head of a session may be served by this `dispatch`: whenever its callback is asked
during the call, a host it allows has a free slot. -/
def HeadAdmissible (eval : ε → σ → Except Exn (List String) × σ) (q : SchedulingQueue ε)
    (priority : Int) (sessionId : String) : Call ε σ → Prop
  | .dispatch hosts available _ st _ =>
    ∃ head rest, (q.tier priority).get? sessionId = some (head :: rest) ∧
      ∀ a, Asked eval st a → ∃ allowed, (allowedFor eval available q head a).1 = .ok allowed ∧
        hasFreeCapacity allowed hosts = .ok true
  | _ => False

/-! ## Rotations after a call -/

section

variable {q : SchedulingQueue ε} {priority p : Int} {sessionId s t : String}
  {entry e : QueueEntry}

theorem mem_rotation_iff (hwf : q.WF) : s ∈ q.rotation p ↔ q.deque p s ≠ [] := by
  have hcontains : (q.tier p).contains s = true ↔ q.deque p s ≠ [] := by
    unfold deque
    rw [Dict.contains_iff]
    cases hs : (q.tier p).get? s with
    | none => simp
    | some dq =>
      have hne : dq ≠ [] := by
        rintro rfl
        exact hwf.nonempty hs
      simpa using hne
  rw [← hcontains]
  unfold rotation
  cases hp : q.tiers.contains p with
  | true =>
    rcases hwf.rotation hp with ⟨r, hr, _, hmem⟩
    rw [hr]
    exact hmem s
  | false =>
    -- no tier, no rotation and no deque
    rw [hwf.noRotation hp]
    constructor
    · intro h
      cases h
    · intro h
      rw [contains_tiers_of_holds h] at hp
      cases hp

theorem nodup_rotation (hwf : q.WF) (p : Int) : (q.rotation p).Nodup := by
  unfold rotation
  cases hp : q.tiers.contains p with
  | true =>
    rcases hwf.rotation hp with ⟨r, hr, hnodup, _⟩
    rw [hr]
    exact hnodup
  | false =>
    rw [hwf.noRotation hp]
    exact List.nodup_nil

theorem rotation_push (q : SchedulingQueue ε) (entry : QueueEntry) (p : Int) :
    ∃ l, (q.push entry).rotation p = q.rotation p ++ l := by
  unfold push rotation
  simp only
  split
  · exact ⟨[], by simp⟩
  · by_cases hp : p = entry.priority
    · subst hp
      exact ⟨[entry.sessionId], by simp⟩
    · refine ⟨[], ?_⟩
      simp only [Dict.get?_set_of_ne _ hp, List.append_nil]

theorem rotation_popHead (q : SchedulingQueue ε) (priority p : Int) (sessionId : String)
    (entry : QueueEntry) :
    (q.popHead priority sessionId entry).rotation p = q.rotation p ∨
      p = priority ∧ ∃ l, (q.popHead priority sessionId entry).rotation p =
        (q.rotation p).erase sessionId ++ l ∧ (l = [] ∨ l = [sessionId]) := by
  unfold popHead replaceSession rotation
  simp only
  cases hr : q.rotations.get? priority with
  | none => exact Or.inl rfl
  | some r =>
    by_cases hp : p = priority
    · subst hp
      refine Or.inr ⟨rfl, ?_⟩
      simp only [Dict.get?_set_self, hr, Option.getD_some]
      split
      · exact ⟨[], by simp, Or.inl rfl⟩
      · exact ⟨[sessionId], rfl, Or.inr rfl⟩
    · left
      simp only [Dict.get?_set_of_ne _ hp]

/-! ## Staying ahead -/

/-- While `t` keeps waiting and is not served, no call puts `s` before it. -/
theorem ahead_call {c : Call ε σ} {q' : SchedulingQueue ε} (hcall : Calls eval q c q')
    (hkept : q'.deque p t ≠ []) (hnot : ¬ Takes eval q c q' p t) (h : Ahead t s (q.rotation p)) :
    Ahead t s (q'.rotation p) := by
  cases c with
  | enqueue entry eligible =>
    rcases hcall with rfl
    rcases rotation_push { q with eligibility := _ } entry p with ⟨l, hl⟩
    show Ahead t s ((SchedulingQueue.push _ entry).rotation p)
    rw [hl]
    exact h.join l
  | cancel requestId sessionId priority =>
    rcases hcall with rfl
    rcases rotation_cancel q requestId sessionId priority p with hsame | ⟨herase, hempty⟩
    · rw [hsame]
      exact h
    · -- the session that leaves is not `t`, which still has an entry
      rw [herase]
      refine h.leave ?_
      rintro rfl
      exact hkept hempty
  | dispatch hosts available scope st result =>
    have hcall' := hcall
    rcases hcall with ⟨st', hd⟩
    rcases dispatch_cases hd with ⟨_, rfl⟩ | ⟨priority, sessionId, entry, rest, hhead, _, rfl, rfl⟩
    · exact h
    · rcases rotation_popHead q priority p sessionId entry with hsame | ⟨rfl, l, hl, _⟩
      · rw [hsame]
        exact h
      · -- the session that goes to the back is not `t`, which was not taken
        rw [hl]
        refine (h.leave ?_).join l
        rintro rfl
        exact hnot ⟨hcall', entry, rest, ⟨_, _, _, _, rfl⟩, hhead, rfl⟩

/-- After its turn `s` stands behind every other session of the tier. -/
theorem ahead_of_takes {c : Call ε σ} {q' : SchedulingQueue ε} (hwf : q.WF)
    (htakes : Takes eval q c q' p s) (hts : t ≠ s) (ht : q'.deque p t ≠ []) :
    Ahead t s (q'.rotation p) := by
  rcases htakes with ⟨_, entry, rest, _, hhead, rfl⟩
  rw [deque_popHead hhead, if_neg (by simp [hts])] at ht
  have hmem : t ∈ q.rotation p := (mem_rotation_iff hwf).mpr ht
  have hturn := Ahead.of_turn (s := s) (nodup_rotation hwf p) hmem hts
  unfold popHead replaceSession rotation
  simp only
  cases hr : q.rotations.get? p with
  | none =>
    unfold rotation at hmem
    rw [hr] at hmem
    cases hmem
  | some r =>
    unfold rotation at hturn
    rw [hr] at hturn
    simp only [Dict.get?_set_self, Option.getD_some]
    split
    · exact hturn
    · exact hturn.join [s]

theorem wf_call {c : Call ε σ} {q' : SchedulingQueue ε} (hwf : q.WF) (hcall : Calls eval q c q') :
    q'.WF := by
  cases c with
  | enqueue entry eligible =>
    rcases hcall with rfl
    exact wf_enqueue hwf _ _ _ _ _
  | cancel requestId sessionId priority =>
    rcases hcall with rfl
    exact wf_cancel hwf _ _ _
  | dispatch hosts available scope st result =>
    rcases hcall with ⟨st', hd⟩
    exact wf_dispatch hwf hd

/-! ## The scan -/

variable {free : Option (List String) → Except PyError Bool} {available : Option (List String)}
  {scope : Option String}

theorem asked_allowedFor (entry : QueueEntry) (st : σ) :
    Asked eval st (allowedFor eval available q entry st).2 := by
  unfold allowedFor
  split
  · next cb _ => exact Relation.ReflTransGen.single ⟨cb, rfl⟩
  · exact Relation.ReflTransGen.refl

theorem asked_scanRotation (tier : Dict String (List QueueEntry)) (rotation : List String)
    (st : σ) : Asked eval st (scanRotation free eval available scope q tier rotation st).2 :=
  scanRotation_along (Asked eval) (fun _ => .refl) (fun _ _ _ hab hbc => hab.trans hbc)
    (fun _ cb _ _ => .single ⟨cb, rfl⟩) tier rotation st

/-- If the scan takes a session, it has found the head of every session before it not
admissible. -/
theorem scanRotation_passes {tier : Dict String (List QueueEntry)} {l₁ l₂ : List String}
    {head : QueueEntry} {rest : List QueueEntry} {st st' : σ}
    (hscan : scanRotation free eval available scope q tier (l₁ ++ t :: l₂) st =
      (.ok (.take s entry), st'))
    (hs : s ∉ l₁) (hts : t ≠ s) (hhead : tier.get? t = some (head :: rest)) :
    ∃ a allowed, Asked eval st a ∧ (allowedFor eval available q head a).1 = .ok allowed ∧
      free allowed = .ok false := by
  induction l₁ generalizing st with
  | nil =>
    refine ⟨st, ?_⟩
    simp only [List.nil_append, scanRotation, hhead] at hscan
    split at hscan
    · cases hscan
    · next allowed _ hallowed =>
      split at hscan
      · cases hscan
      · next hfree => exact ⟨allowed, .refl, by rw [hallowed], hfree⟩
      · -- `t` itself would have been taken
        split at hscan
        · cases hscan
          exact absurd rfl hts
        · cases hscan
  | cons x l₁ ih =>
    -- the scan passes a session that stands before `t`
    rw [List.cons_append] at hscan
    unfold scanRotation at hscan
    split at hscan
    · cases hscan
    · cases hscan
    · next other _ _ =>
      have hasked : Asked eval st (allowedFor eval available q other st).2 :=
        asked_allowedFor other st
      split at hscan
      · cases hscan
      · next hallowed =>
        rw [hallowed] at hasked
        split at hscan
        · cases hscan
        · rcases ih hscan (fun h => hs (List.mem_cons_of_mem _ h)) with ⟨a, allowed, ha, hfree⟩
          exact ⟨a, allowed, hasked.trans ha, hfree⟩
        · -- it would have taken that session, which is not `s`
          split at hscan
          · cases hscan
            exact absurd List.mem_cons_self hs
          · cases hscan

theorem scanTiers_take {priorities : List Int} {st st' : σ}
    (h : scanTiers free eval available scope q priorities st =
      (.ok (some (priority, sessionId, entry)), st')) :
    ∃ a, Asked eval st a ∧ scanRotation free eval available scope q (q.tier priority)
      (q.rotation priority) a = (.ok (.take sessionId entry), st') := by
  induction priorities generalizing st with
  | nil => cases h
  | cons x rest ih =>
    unfold scanTiers at h
    split at h
    · cases h
    · next r hr =>
      have hasked : Asked eval st
          (scanRotation free eval available scope q (q.tier x) r st).2 :=
        asked_scanRotation (q.tier x) r st
      split at h
      · cases h
      · next hscan =>
        -- nothing in this tier
        rw [hscan] at hasked
        rcases ih h with ⟨a, ha, htake⟩
        exact ⟨a, hasked.trans ha, htake⟩
      · cases h
      · next hscan =>
        cases h
        refine ⟨st, .refl, ?_⟩
        unfold rotation
        rw [hr]
        exact hscan

/-- A session that stands ahead of the one a `dispatch` took had no admissible head. -/
theorem not_admissible_of_takes {c : Call ε σ} {q' : SchedulingQueue ε}
    (htakes : Takes eval q c q' p s) (hts : t ≠ s) (hahead : Ahead t s (q.rotation p)) :
    ¬ HeadAdmissible eval q p t c := by
  rcases htakes with ⟨hcall, entry, rest, ⟨hosts, available, scope, st, rfl⟩, hhead, hq'⟩
  rintro ⟨head, others, hget, hadm⟩
  rcases hcall with ⟨st', hd⟩
  unfold dispatch at hd
  split at hd
  · cases hd
  · cases hd
  · split at hd
    · cases hd
    · cases hd
    · next priority sessionId taken _ hscan =>
      have hpop : q.popHead priority sessionId taken = q' := congrArg (·.2.1) hd
      rcases scanTiers_some hscan with ⟨⟨left, hleft⟩, _⟩
      -- only the deque the entry was taken from got shorter
      have hsame : priority = p ∧ sessionId = s := by
        by_contra hne
        have hdeque : q'.deque priority sessionId = left := by
          rw [← hpop, deque_popHead hleft, if_pos ⟨rfl, rfl⟩]
        rw [hq', deque_popHead hhead, if_neg hne, deque_of_get? hleft] at hdeque
        exact absurd hdeque (List.cons_ne_self taken left)
      rcases hsame with ⟨rfl, rfl⟩
      rcases scanTiers_take hscan with ⟨a, ha, htake⟩
      rcases hahead with ⟨l₁, l₂, hr, hs⟩
      rw [hr] at htake
      rcases scanRotation_passes htake hs hts hget with ⟨b, allowed, hb, hallowed, hfree⟩
      rcases hadm b (ha.trans hb) with ⟨allowed', hallowed', hfree'⟩
      rw [hallowed] at hallowed'
      cases hallowed'
      rw [hfree] at hfree'
      cases hfree'

/-! ## Fairness -/

/-- Over a stretch in which `t` keeps waiting, it stays ahead of `s` or is served. -/
theorem ahead_or_served {q₁ q₂ : SchedulingQueue ε} {mid : List (Call ε σ)}
    (hmid : Run (Guarded (fun q _ => q.deque p t ≠ []) (Calls eval)) q₁ mid q₂)
    (hlast : q₂.deque p t ≠ []) (hahead : Ahead t s (q₁.rotation p)) :
    Ahead t s (q₂.rotation p) ∨
      ∃ pre c post a b, mid = pre ++ c :: post ∧ Run (Calls eval) q₁ pre a ∧
        Takes eval a c b p t ∧ Run (Calls eval) b post q₂ := by
  induction hmid with
  | nil => exact Or.inl hahead
  | @snoc es a b c hrun hnext ih =>
    rcases hnext with ⟨hthere, hcall⟩
    have hplain : Run (Calls eval) q₁ es a := hrun.mono fun _ _ _ h => h.2
    rcases ih hthere with hstill | ⟨pre, d, post, x, y, rfl, hpre, htakes, hpost⟩
    · by_cases hturn : Takes eval a c b p t
      · exact Or.inr ⟨es, c, [], a, b, rfl, hplain, hturn, .nil⟩
      · exact Or.inl (ahead_call hcall hlast hturn hstill)
    · exact Or.inr ⟨pre, d, post ++ [c], x, y, by simp, hpre, htakes, .snoc hpost hcall⟩

/-- Between two dispatches of `s` in a tier, every other session that waits in that tier all
along, and whose head is admissible at the second, is served. -/
theorem round_robin {es mid : List (Call ε σ)} {c₁ c₂ : Call ε σ}
    {q₀ q₁ q₂ q₃ : SchedulingQueue ε} (hrun : Run (Calls eval) {} es q₀)
    (hfirst : Takes eval q₀ c₁ q₁ p s)
    (hmid : Run (Guarded (fun q _ => q.deque p t ≠ []) (Calls eval)) q₁ mid q₂)
    (hsecond : Takes eval q₂ c₂ q₃ p s) (hts : t ≠ s) (hadm : HeadAdmissible eval q₂ p t c₂) :
    ∃ pre c post a b, mid = pre ++ c :: post ∧ Run (Calls eval) q₁ pre a ∧
      Takes eval a c b p t ∧ Run (Calls eval) b post q₂ := by
  have hwf : q₀.WF := hrun.invariant WF wf_empty fun _ _ _ hcall hwf => wf_call hwf hcall
  have hlast : q₂.deque p t ≠ [] := by
    rcases hsecond with ⟨_, _, _, ⟨_, _, _, _, rfl⟩, _⟩
    rcases hadm with ⟨head, rest, hget, _⟩
    rw [deque_of_get? hget]
    exact List.cons_ne_nil head rest
  -- `t` waits from the first turn of `s` on
  have hthere : q₁.deque p t ≠ [] := by
    cases mid with
    | nil =>
      rw [hmid.nil_eq] at hlast
      exact hlast
    | cons c cs =>
      rcases hmid.of_cons with ⟨_, hnext, _⟩
      exact hnext.1
  rcases ahead_or_served hmid hlast (ahead_of_takes hwf hfirst hts hthere) with hahead | hserved
  · exact absurd hadm (not_admissible_of_takes hsecond hts hahead)
  · exact hserved

end

namespace Example

def fourth : QueueEntry := ⟨"d", "batch", 5, 3⟩

/-- Two sessions of one tier wait with two requests each. -/
def arrivals : List (Call Unit Unit) :=
  [] ++ [waits { first with priority := 5 }] ++ [waits { second with priority := 5 }] ++
    [waits third] ++ [waits fourth]

end Example

open Example in
/-- The sessions are served in turn. -/
theorem round_robin_alternates :
    ∃ q₀ q₁ q₂ q₃, Run (Calls nodeOnly) {} arrivals q₀ ∧
      Takes nodeOnly q₀ (serves "a") q₁ 5 "chat" ∧
      Run (Guarded (fun q _ => q.deque 5 "batch" ≠ []) (Calls nodeOnly)) q₁ [serves "c"] q₂ ∧
      Takes nodeOnly q₂ (serves "b") q₃ 5 "chat" ∧
      ∃ pre c post a b, [serves "c"] = pre ++ c :: post ∧ Run (Calls nodeOnly) q₁ pre a ∧
        Takes nodeOnly a c b 5 "batch" ∧ Run (Calls nodeOnly) b post q₂ := by
  have hrun : ∃ q₀ q₁ q₂ q₃, Run (Calls nodeOnly) {} arrivals q₀ ∧
      Takes nodeOnly q₀ (serves "a") q₁ 5 "chat" ∧
      Run (Guarded (fun q _ => q.deque 5 "batch" ≠ []) (Calls nodeOnly)) q₁ [serves "c"] q₂ ∧
      Takes nodeOnly q₂ (serves "b") q₃ 5 "chat" ∧
      HeadAdmissible nodeOnly q₂ 5 "batch" (serves "b") := by
    refine ⟨_, _, _, _, .snoc (.snoc (.snoc (.snoc .nil rfl) rfl) rfl) rfl,
      ⟨⟨(), rfl⟩, { first with priority := 5 }, _, ⟨_, _, _, _, rfl⟩, rfl, rfl⟩,
      .single ⟨by decide +kernel, (), rfl⟩,
      ⟨⟨(), rfl⟩, { second with priority := 5 }, _, ⟨_, _, _, _, rfl⟩, rfl, rfl⟩, _, _, rfl, ?_⟩
    intro a _
    exact ⟨some ["node"], rfl, rfl⟩
  rcases hrun with ⟨q₀, q₁, q₂, q₃, hrun, hfirst, hmid, hsecond, hadm⟩
  exact ⟨q₀, q₁, q₂, q₃, hrun, hfirst, hmid, hsecond,
    round_robin hrun hfirst hmid hsecond (by decide) hadm⟩

end SchedulingQueue

end LlmHomeLab
