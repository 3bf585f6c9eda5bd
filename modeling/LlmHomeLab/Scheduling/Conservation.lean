import LlmHomeLab.Lib.Runs
import LlmHomeLab.Scheduling.Queue

/-! # Conservation of queued requests

`scheduling/queue.py` keeps three structures in step: the deques of a tier, its rotation, and
the callbacks of the waiting requests. Over any run of calls they describe the same entries:
those that were enqueued and neither dispatched nor cancelled since.
-/

namespace LlmHomeLab

namespace SchedulingQueue

variable {ε σ : Type}

/-! ## Calls -/

/-- A call of the queue, and what a `dispatch` returned. `hosts` is what `registry.hosts()`
gives, `st` the state the callbacks are evaluated in. -/
inductive Call (ε σ : Type) where
  | enqueue (entry : QueueEntry) (eligible : Option ε)
  | cancel (requestId sessionId : String) (priority : Int)
  | dispatch (hosts : List HostInfo) (available : Option (List String))
      (requestId : Option String) (st : σ) (result : Except Exn (Option String))

/-- What a call does to the queue. -/
def Calls (eval : ε → σ → Except Exn (List String) × σ) (q : SchedulingQueue ε) :
    Call ε σ → SchedulingQueue ε → Prop
  | .enqueue entry eligible, q' =>
    q' = q.enqueue entry.requestId entry.sessionId entry.priority entry.time eligible
  | .cancel requestId sessionId priority, q' => q' = q.cancel requestId sessionId priority
  | .dispatch hosts available requestId st result, q' =>
    ∃ st', dispatch (hasFreeCapacity · hosts) eval available requestId q st = (result, q', st')

theorem calls_dispatch {eval : ε → σ → Except Exn (List String) × σ} {q : SchedulingQueue ε}
    {hosts : List HostInfo} {available : Option (List String)} {requestId : Option String} {st : σ}
    {result : Except Exn (Option String)}
    (h : (dispatch (hasFreeCapacity · hosts) eval available requestId q st).1 = result) :
    Calls eval q (.dispatch hosts available requestId st result)
      (dispatch (hasFreeCapacity · hosts) eval available requestId q st).2.1 := by
  refine ⟨(dispatch (hasFreeCapacity · hosts) eval available requestId q st).2.2, ?_⟩
  rw [← h]

/-- The call dispatched the request. -/
def Call.Dispatches (c : Call ε σ) (requestId : String) : Prop :=
  ∃ hosts available scope st, c = .dispatch hosts available scope st (.ok (some requestId))

def Call.Cancels (c : Call ε σ) (requestId : String) : Prop :=
  ∃ sessionId priority, c = .cancel requestId sessionId priority

/-- The call is an `enqueue` of this entry. -/
def Call.Enqueues (c : Call ε σ) (entry : QueueEntry) : Prop :=
  ∃ eligible, c = .enqueue entry eligible

/-- The request was enqueued under this session and priority, if it was enqueued at all. -/
def EnqueuedUnder (es : List (Call ε σ)) (requestId sessionId : String) (priority : Int) : Prop :=
  ∀ c ∈ es, ∀ entry, c.Enqueues entry → entry.requestId = requestId →
    entry.sessionId = sessionId ∧ entry.priority = priority

/-- How the queue may be called after the calls `es`: every request id is enqueued once, and a
request is cancelled under the session and priority it was enqueued under. -/
def Call.Follows (es : List (Call ε σ)) : Call ε σ → Prop
  | .enqueue entry _ =>
    ∀ c ∈ es, ∀ other, c.Enqueues other → other.requestId ≠ entry.requestId
  | .cancel requestId sessionId priority => EnqueuedUnder es requestId sessionId priority
  | .dispatch .. => True

/-- Every call follows on those before it. -/
def Proper (es : List (Call ε σ)) : Prop :=
  ∀ pre c post, es = pre ++ c :: post → c.Follows pre

/-- The entry was enqueued and has neither been dispatched nor cancelled since. -/
def Waits (es : List (Call ε σ)) (entry : QueueEntry) : Prop :=
  ∃ pre c post, es = pre ++ c :: post ∧ c.Enqueues entry ∧
    ∀ c ∈ post, ¬ c.Dispatches entry.requestId ∧ ¬ c.Cancels entry.requestId

/-- The entry waits somewhere in the queue. -/
def Queued (q : SchedulingQueue ε) (entry : QueueEntry) : Prop :=
  ∃ priority sessionId, q.Holds priority sessionId entry

/-- The entries of a session in a tier. -/
def deque (q : SchedulingQueue ε) (priority : Int) (sessionId : String) : List QueueEntry :=
  ((q.tier priority).get? sessionId).getD []

/-- The rotation of a tier. -/
def rotation (q : SchedulingQueue ε) (priority : Int) : List String :=
  (q.rotations.get? priority).getD []

/-- The entries of a tier in the order of its rotation, those of a session in their own. -/
def line (q : SchedulingQueue ε) (priority : Int) : List QueueEntry :=
  (q.rotation priority).flatMap (q.deque priority)

theorem proper_nil : Proper ([] : List (Call ε σ)) := by
  intro pre c post hes
  simp at hes

theorem Proper.left {es fs : List (Call ε σ)} (h : Proper (es ++ fs)) : Proper es := by
  intro pre c post hes
  refine h pre c (post ++ fs) ?_
  rw [hes]
  simp

/-- Where the one call after a list of calls stands. -/
theorem snoc_eq_append_cons {es pre post : List (Call ε σ)} {c d : Call ε σ}
    (h : es ++ [c] = pre ++ d :: post) :
    (pre = es ∧ d = c ∧ post = []) ∨ ∃ post', post = post' ++ [c] ∧ es = pre ++ d :: post' := by
  rcases List.eq_nil_or_concat post with rfl | ⟨post', last, rfl⟩
  · rcases List.append_inj' h rfl with ⟨hpre, hc⟩
    cases hc
    exact Or.inl ⟨hpre.symm, rfl, rfl⟩
  · rw [List.concat_eq_append, ← List.cons_append, ← List.append_assoc] at h
    rcases List.append_inj' h rfl with ⟨hes, hc⟩
    cases hc
    exact Or.inr ⟨post', List.concat_eq_append, hes⟩

theorem proper_snoc {es : List (Call ε σ)} {c : Call ε σ} :
    Proper (es ++ [c]) ↔ Proper es ∧ c.Follows es := by
  constructor
  · intro h
    exact ⟨h.left, h es c [] rfl⟩
  · rintro ⟨h, hc⟩ pre d post hes
    rcases snoc_eq_append_cons hes with ⟨rfl, rfl, _⟩ | ⟨post', _, hes'⟩
    · exact hc
    · exact h pre d post' hes'

theorem waits_snoc {es : List (Call ε σ)} {c : Call ε σ} {entry : QueueEntry} :
    Waits (es ++ [c]) entry ↔
      (Waits es entry ∧ ¬ c.Dispatches entry.requestId ∧ ¬ c.Cancels entry.requestId) ∨
        c.Enqueues entry := by
  constructor
  · rintro ⟨pre, c', post, hes, henq, hpost⟩
    rcases snoc_eq_append_cons hes with ⟨_, rfl, _⟩ | ⟨post', rfl, rfl⟩
    · -- the last call is the `enqueue`
      exact Or.inr henq
    · refine Or.inl ⟨⟨pre, c', post', rfl, henq, ?_⟩, hpost c (by simp)⟩
      intro d hd
      exact hpost d (by simp [hd])
  · rintro (⟨⟨pre, c', post, rfl, henq, hpost⟩, hlast⟩ | henq)
    · refine ⟨pre, c', post ++ [c], by simp, henq, ?_⟩
      intro d hd
      rcases List.mem_append.mp hd with hd | hd
      · exact hpost d hd
      · rw [List.mem_singleton.mp hd]
        exact hlast
    · exact ⟨es, c, [], rfl, henq, by simp⟩

/-! ## Deques after a call -/

section

variable {q : SchedulingQueue ε} {priority p : Int} {sessionId s : String} {entry e : QueueEntry}

theorem holds_iff_mem_deque : q.Holds p s e ↔ e ∈ q.deque p s := by
  unfold Holds deque
  cases (q.tier p).get? s <;> simp

theorem deque_of_get? {dq : List QueueEntry} (h : (q.tier p).get? s = some dq) :
    q.deque p s = dq := by
  simp [deque, h]

theorem deque_push (q : SchedulingQueue ε) (entry : QueueEntry) (p : Int) (s : String) :
    (q.push entry).deque p s =
      if p = entry.priority ∧ s = entry.sessionId then q.deque p s ++ [entry] else q.deque p s := by
  unfold deque
  rw [tier_push]
  by_cases hp : p = entry.priority
  · by_cases hs : s = entry.sessionId
    · simp [hp, hs]
    · simp [hp, hs, Dict.get?_set_of_ne _ hs]
  · simp [hp]

theorem deque_replaceSession (q : SchedulingQueue ε) (remaining : List QueueEntry)
    (f : List String → List String) (p : Int) (s : String) :
    (q.replaceSession priority sessionId remaining f).deque p s =
      if p = priority ∧ s = sessionId then remaining else q.deque p s := by
  unfold deque
  rw [tier_replaceSession]
  by_cases hp : p = priority
  · by_cases hs : s = sessionId
    · by_cases hr : remaining = []
      · simp [hp, hs, hr]
      · simp [hp, hs, hr]
    · by_cases hr : remaining = []
      · simp [hp, hs, hr, Dict.get?_pop_of_ne _ hs]
      · simp [hp, hs, hr, Dict.get?_set_of_ne _ hs]
  · simp [hp]

theorem deque_cancel (q : SchedulingQueue ε) (requestId sessionId : String) (priority p : Int)
    (s : String) :
    (q.cancel requestId sessionId priority).deque p s =
      if p = priority ∧ s = sessionId then
        (q.deque p s).filter fun entry => entry.requestId ≠ requestId
      else q.deque p s := by
  unfold cancel
  simp only
  split
  · next hnone =>
    -- there is no such session
    split
    · next hps =>
      rcases hps with ⟨rfl, rfl⟩
      have hempty : q.deque p s = [] := by
        unfold deque
        rw [show (q.tier p).get? s = none from hnone]
        rfl
      rw [hempty]
      exact hempty
    · rfl
  · next dq hsome =>
    have hdq : q.deque priority sessionId = dq := deque_of_get? hsome
    split
    · next hlen =>
      -- nothing was filtered out
      have hself := List.Sublist.eq_of_length List.filter_sublist hlen
      split
      · next hps =>
        rcases hps with ⟨rfl, rfl⟩
        show q.deque p s = _
        rw [hdq, hself]
      · rfl
    · rw [deque_replaceSession]
      split
      · next hps =>
        rcases hps with ⟨rfl, rfl⟩
        rw [hdq]
      · rfl

theorem deque_popHead {rest : List QueueEntry}
    (h : (q.tier priority).get? sessionId = some (entry :: rest)) (p : Int) (s : String) :
    (q.popHead priority sessionId entry).deque p s =
      if p = priority ∧ s = sessionId then rest else q.deque p s := by
  unfold popHead
  simp only
  rw [deque_replaceSession, h]
  rfl

end

/-! ## The invariant -/

/-- What the calls `es` have left in the queue. -/
structure Kept (es : List (Call ε σ)) (q : SchedulingQueue ε) : Prop where
  wf : q.WF
  filed : ∀ {p s e}, e ∈ q.deque p s → e.priority = p ∧ e.sessionId = s
  nodup : ∀ p s, (q.deque p s).Nodup
  callbacks : ∀ {x}, q.eligibility.contains x = true → ∃ e, q.Queued e ∧ e.requestId = x
  queued : ∀ e, q.Queued e ↔ Waits es e

theorem Waits.enqueued {es : List (Call ε σ)} {e : QueueEntry} (h : Waits es e) :
    ∃ c ∈ es, c.Enqueues e := by
  rcases h with ⟨pre, c, post, rfl, henq, _⟩
  exact ⟨c, by simp, henq⟩

section

variable {es : List (Call ε σ)} {q : SchedulingQueue ε} {priority p : Int} {sessionId s : String}
  {entry e : QueueEntry}

theorem kept_empty : Kept ([] : List (Call ε σ)) ({} : SchedulingQueue ε) where
  wf := wf_empty
  filed h := by simp [deque, tier] at h
  nodup p s := by simp [deque, tier]
  callbacks h := by simp [Dict.contains] at h
  queued e := by
    constructor
    · rintro ⟨p, s, dq, hdq, _⟩
      simp [tier] at hdq
    · rintro ⟨pre, c, post, hes, _⟩
      simp at hes

theorem deque_enqueue (q : SchedulingQueue ε) (entry : QueueEntry) (eligible : Option ε) (p : Int)
    (s : String) :
    (q.enqueue entry.requestId entry.sessionId entry.priority entry.time eligible).deque p s =
      if p = entry.priority ∧ s = entry.sessionId then q.deque p s ++ [entry] else q.deque p s :=
  deque_push _ entry p s

theorem kept_enqueue (h : Kept es q) (eligible : Option ε)
    (hfresh : Call.Follows es (.enqueue entry eligible)) :
    Kept (es ++ [.enqueue entry eligible])
      (q.enqueue entry.requestId entry.sessionId entry.priority entry.time eligible) := by
  generalize hq' : q.enqueue entry.requestId entry.sessionId entry.priority entry.time eligible = q'
  -- one deque has grown by the entry, the others are as they were
  have hdeque : ∀ p s, q'.deque p s =
      if p = entry.priority ∧ s = entry.sessionId then q.deque p s ++ [entry] else q.deque p s := by
    intro p s
    rw [← hq']
    exact deque_enqueue q entry eligible p s
  have hmem : ∀ p s e, e ∈ q'.deque p s ↔
      e ∈ q.deque p s ∨ (p = entry.priority ∧ s = entry.sessionId ∧ e = entry) := by
    intro p s e
    rw [hdeque]
    split
    · next hps => simp [hps]
    · next hps =>
      constructor
      · exact Or.inl
      · rintro (he | ⟨hp, hs, _⟩)
        · exact he
        · exact absurd ⟨hp, hs⟩ hps
  have hqueued : ∀ e, q'.Queued e ↔ q.Queued e ∨ e = entry := by
    intro e
    unfold Queued
    simp only [holds_iff_mem_deque, hmem]
    constructor
    · rintro ⟨p, s, he | ⟨_, _, he⟩⟩
      · exact Or.inl ⟨p, s, he⟩
      · exact Or.inr he
    · rintro (⟨p, s, he⟩ | rfl)
      · exact ⟨p, s, Or.inl he⟩
      · exact ⟨e.priority, e.sessionId, Or.inr ⟨rfl, rfl, rfl⟩⟩
  constructor
  · rw [← hq']
    exact wf_enqueue h.wf _ _ _ _ _
  · intro p s e he
    rcases (hmem p s e).mp he with he | ⟨rfl, rfl, rfl⟩
    · exact h.filed he
    · exact ⟨rfl, rfl⟩
  · intro p s
    rw [hdeque]
    split
    · -- an entry of the same id would have been enqueued before
      refine List.nodup_append.mpr ⟨h.nodup p s, List.nodup_singleton _, ?_⟩
      intro a ha b hb hab
      rw [List.mem_singleton.mp hb] at hab
      subst hab
      rcases ((h.queued a).mp ⟨p, s, holds_iff_mem_deque.mpr ha⟩).enqueued with ⟨c, hc, henq⟩
      exact hfresh c hc a henq rfl
    · exact h.nodup p s
  · -- a callback is that of the new entry, or was there before
    intro x hx
    have hx' : x = entry.requestId ∨ q.eligibility.contains x = true := by
      rw [← hq'] at hx
      unfold enqueue at hx
      rw [eligibility_push] at hx
      cases eligible with
      | none => exact Or.inr hx
      | some cb => exact (Dict.contains_set_iff _).mp hx
    rcases hx' with rfl | hx'
    · exact ⟨entry, (hqueued entry).mpr (Or.inr rfl), rfl⟩
    · rcases h.callbacks hx' with ⟨e, he, hid⟩
      exact ⟨e, (hqueued e).mpr (Or.inl he), hid⟩
  · -- who waits now: who waited before, and the new entry
    intro e
    rw [hqueued, waits_snoc, h.queued]
    constructor
    · rintro (he | rfl)
      · refine Or.inl ⟨he, ?_, ?_⟩
        · rintro ⟨_, _, _, _, hc⟩
          cases hc
        · rintro ⟨_, _, hc⟩
          cases hc
      · exact Or.inr ⟨eligible, rfl⟩
    · rintro (⟨he, _⟩ | ⟨_, hc⟩)
      · exact Or.inl he
      · cases hc
        exact Or.inr rfl

theorem Proper.unique (h : Proper es) {c c' : Call ε σ} (hc : c ∈ es) (hc' : c' ∈ es)
    {e e' : QueueEntry} (he : c.Enqueues e) (he' : c'.Enqueues e')
    (hid : e.requestId = e'.requestId) : e = e' := by
  -- whichever of two calls is later follows on the other
  have hlater : ∀ pre d d' post f f', es = pre ++ d :: post → d' ∈ pre →
      Call.Enqueues d f → Call.Enqueues d' f' → f'.requestId ≠ f.requestId := by
    intro pre d d' post f f' hes hd' hf hf'
    have hfollows := h pre d post hes
    rcases hf with ⟨eligible, rfl⟩
    exact hfollows d' hd' f' hf'
  rcases List.append_of_mem hc with ⟨pre, post, rfl⟩
  rcases List.mem_append.mp hc' with hpre | hrest
  · exact absurd hid.symm (hlater pre c c' post e e' rfl hpre he he')
  · rcases List.mem_cons.mp hrest with rfl | hpost
    · rcases he with ⟨_, rfl⟩
      rcases he' with ⟨_, heq⟩
      cases heq
      rfl
    · rcases List.append_of_mem hpost with ⟨pre', post', rfl⟩
      exact absurd hid (hlater (pre ++ c :: pre') c' c post' e' e (by simp) (by simp) he' he)

theorem Kept.unique (h : Kept es q) (hproper : Proper es) {e e' : QueueEntry}
    (he : e ∈ q.deque p s) {p' : Int} {s' : String} (he' : e' ∈ q.deque p' s')
    (hid : e.requestId = e'.requestId) : e = e' := by
  rcases ((h.queued e).mp ⟨p, s, holds_iff_mem_deque.mpr he⟩).enqueued with ⟨c, hc, henq⟩
  rcases ((h.queued e').mp ⟨p', s', holds_iff_mem_deque.mpr he'⟩).enqueued with ⟨c', hc', henq'⟩
  exact hproper.unique hc hc' henq henq' hid

/-- A call that takes one request out, with its callback, and nothing else. -/
theorem kept_remove {q' : SchedulingQueue ε} {c : Call ε σ} {x : String} (h : Kept es q)
    (hwf : q'.WF)
    (hdeque : ∀ p s, q'.deque p s = (q.deque p s).filter fun e => e.requestId ≠ x)
    (helig : q'.eligibility = q.eligibility.pop x)
    (htakes : ∀ y, c.Dispatches y ∨ c.Cancels y ↔ y = x) (hnew : ∀ e, ¬ c.Enqueues e) :
    Kept (es ++ [c]) q' := by
  have hmem : ∀ p s e, e ∈ q'.deque p s ↔ e ∈ q.deque p s ∧ e.requestId ≠ x := by
    intro p s e
    rw [hdeque]
    simp
  have hqueued : ∀ e, q'.Queued e ↔ q.Queued e ∧ e.requestId ≠ x := by
    intro e
    unfold Queued
    simp only [holds_iff_mem_deque, hmem]
    constructor
    · rintro ⟨p, s, he, hne⟩
      exact ⟨⟨p, s, he⟩, hne⟩
    · rintro ⟨⟨p, s, he⟩, hne⟩
      exact ⟨p, s, he, hne⟩
  constructor
  · exact hwf
  · intro p s e he
    exact h.filed ((hmem p s e).mp he).1
  · intro p s
    rw [hdeque]
    exact (h.nodup p s).filter _
  · -- the callback goes with the request
    intro y hy
    rw [helig, Dict.contains_pop_iff] at hy
    rcases h.callbacks hy.2 with ⟨e, he, rfl⟩
    exact ⟨e, (hqueued e).mpr ⟨he, hy.1⟩, rfl⟩
  · -- who waits now: who waited before, but for this request
    intro e
    rw [hqueued, waits_snoc, h.queued]
    have hgone : ¬ c.Dispatches e.requestId ∧ ¬ c.Cancels e.requestId ↔ e.requestId ≠ x := by
      rw [← not_or, htakes]
    rw [hgone]
    constructor
    · exact Or.inl
    · rintro (he | henq)
      · exact he
      · exact absurd henq (hnew e)

/-- A request cancelled under its session and priority leaves the whole queue. -/
theorem Kept.deque_cancel (h : Kept es q) {requestId : String}
    (hunder : EnqueuedUnder es requestId sessionId priority) (p : Int) (s : String) :
    (q.cancel requestId sessionId priority).deque p s =
      (q.deque p s).filter fun e => e.requestId ≠ requestId := by
  rw [SchedulingQueue.deque_cancel]
  split
  · rfl
  · next hps =>
    refine (List.filter_eq_self.mpr ?_).symm
    intro e he
    rw [decide_eq_true_eq]
    intro hid
    rcases ((h.queued e).mp ⟨p, s, holds_iff_mem_deque.mpr he⟩).enqueued with ⟨c, hc, henq⟩
    rcases hunder c hc e henq hid with ⟨hs, hp⟩
    rcases h.filed he with ⟨hp', hs'⟩
    exact hps ⟨hp'.symm.trans hp, hs'.symm.trans hs⟩

theorem kept_cancel (h : Kept es q) {requestId : String}
    (hunder : EnqueuedUnder es requestId sessionId priority) :
    Kept (es ++ [.cancel requestId sessionId priority])
      (q.cancel requestId sessionId priority) := by
  refine kept_remove (x := requestId) h (wf_cancel h.wf _ _ _) (h.deque_cancel hunder)
    (eligibility_cancel q _ _ _) ?_ ?_
  · intro y
    constructor
    · rintro (⟨_, _, _, _, hc⟩ | ⟨_, _, hc⟩)
      · cases hc
      · cases hc
        rfl
    · rintro rfl
      exact Or.inr ⟨_, _, rfl⟩
  · rintro e ⟨_, hc⟩
    cases hc

theorem Kept.deque_popHead (h : Kept es q) (hproper : Proper es) {rest : List QueueEntry}
    (hhead : (q.tier priority).get? sessionId = some (entry :: rest)) (p : Int) (s : String) :
    (q.popHead priority sessionId entry).deque p s =
      (q.deque p s).filter fun e => e.requestId ≠ entry.requestId := by
  rw [SchedulingQueue.deque_popHead hhead]
  have hdq : q.deque priority sessionId = entry :: rest := deque_of_get? hhead
  have hown : entry ∈ q.deque priority sessionId := by
    rw [hdq]
    exact List.mem_cons_self
  split
  · next hps =>
    -- its own deque, in which the entry does not come a second time
    rcases hps with ⟨rfl, rfl⟩
    have hnodup := h.nodup p s
    rw [hdq, List.nodup_cons] at hnodup
    rw [hdq, List.filter_cons_of_neg (by simp)]
    refine (List.filter_eq_self.mpr ?_).symm
    intro e he
    rw [decide_eq_true_eq]
    intro hid
    have hmem : e ∈ q.deque p s := by
      rw [hdq]
      exact List.mem_cons_of_mem _ he
    rw [h.unique hproper hmem hown hid] at he
    exact hnodup.1 he
  · next hps =>
    -- another deque: entries are filed under their own tier and session
    refine (List.filter_eq_self.mpr ?_).symm
    intro e he
    rw [decide_eq_true_eq]
    intro hid
    have heq := h.unique hproper he hown hid
    subst heq
    rcases h.filed he with ⟨hp, hs⟩
    rcases h.filed hown with ⟨hp', hs'⟩
    exact hps ⟨hp.symm.trans hp', hs.symm.trans hs'⟩

variable {eval : ε → σ → Except Exn (List String) × σ}

/-- Every call keeps the queue and the record of the calls in step. -/
theorem kept_call {c : Call ε σ} {q' : SchedulingQueue ε} (h : Kept es q) (hproper : Proper es)
    (hfollows : c.Follows es) (hcall : Calls eval q c q') : Kept (es ++ [c]) q' := by
  cases c with
  | enqueue entry eligible =>
    rcases hcall with rfl
    exact kept_enqueue h eligible hfollows
  | cancel requestId sessionId priority =>
    rcases hcall with rfl
    exact kept_cancel h hfollows
  | dispatch hosts available scope st result =>
    rcases hcall with ⟨st', hd⟩
    have hnew : ∀ e, ¬ (Call.dispatch hosts available scope st result : Call ε σ).Enqueues e := by
      rintro e ⟨_, hc⟩
      cases hc
    rcases dispatch_cases hd with
      ⟨hnone, rfl⟩ | ⟨priority, sessionId, entry, rest, hhead, _, rfl, rfl⟩
    · -- nothing left the queue
      refine ⟨h.wf, h.filed, h.nodup, h.callbacks, ?_⟩
      intro e
      rw [h.queued, waits_snoc]
      constructor
      · intro he
        refine Or.inl ⟨he, ?_, ?_⟩
        · rintro ⟨_, _, _, _, hc⟩
          cases hc
          exact hnone _ rfl
        · rintro ⟨_, _, hc⟩
          cases hc
      · rintro (⟨he, _⟩ | henq)
        · exact he
        · exact absurd henq (hnew e)
    · -- the entry that was returned has left its deque
      refine kept_remove (x := entry.requestId) h (wf_popHead h.wf hhead)
        (h.deque_popHead hproper hhead) (eligibility_popHead q) ?_ hnew
      intro y
      constructor
      · rintro (⟨_, _, _, _, hc⟩ | ⟨_, _, hc⟩)
        · cases hc
          rfl
        · cases hc
      · rintro rfl
        exact Or.inl ⟨_, _, _, _, rfl⟩

theorem kept_run (hrun : Run (Calls eval) {} es q) (hproper : Proper es) : Kept es q := by
  induction hrun with
  | nil => exact kept_empty
  | snoc _ hcall ih =>
    rcases proper_snoc.mp hproper with ⟨hproper', hfollows⟩
    exact kept_call (ih hproper') hproper' hfollows hcall

/-! ## Lookups -/

/-- The exception comes from a callback or from the capacity check, not from a lookup. -/
def Raised (free : Option (List String) → Except PyError Bool)
    (eval : ε → σ → Except Exn (List String) × σ) (e : Exn) : Prop :=
  (∃ allowed err, free allowed = .error err ∧ e = .builtin err) ∨ ∃ cb a, (eval cb a).1 = .error e

variable {free : Option (List String) → Except PyError Bool} {available : Option (List String)}
  {scope : Option String}

theorem allowedFor_error {st st' : σ} {e : Exn}
    (h : allowedFor eval available q entry st = (.error e, st')) :
    ∃ cb a, (eval cb a).1 = .error e := by
  unfold allowedFor at h
  split at h
  · next cb _ =>
    refine ⟨cb, st, ?_⟩
    cases hcb : (eval cb st).1 with
    | error err =>
      rw [hcb] at h
      cases h
      rfl
    | ok hosts =>
      rw [hcb] at h
      cases h
  · cases h

theorem scanRotation_error {tier : Dict String (List QueueEntry)} {rotation : List String}
    (hthere : ∀ s ∈ rotation, ∃ x xs, tier.get? s = some (x :: xs)) {st st' : σ} {e : Exn}
    (h : scanRotation free eval available scope q tier rotation st = (.error e, st')) :
    Raised free eval e := by
  induction rotation generalizing st with
  | nil => cases h
  | cons sessionId rest ih =>
    rcases hthere sessionId List.mem_cons_self with ⟨x, xs, hx⟩
    simp only [scanRotation, hx] at h
    split at h
    · next hallowed =>
      cases h
      exact Or.inr (allowedFor_error hallowed)
    · split at h
      · next err hfree =>
        cases h
        exact Or.inl ⟨_, err, hfree, rfl⟩
      · exact ih (fun s hs => hthere s (List.mem_cons_of_mem _ hs)) h
      · split at h
        · cases h
        · cases h

theorem scanTiers_error (hwf : q.WF) {priorities : List Int}
    (hthere : ∀ p ∈ priorities, q.tiers.contains p = true) {st st' : σ} {e : Exn}
    (h : scanTiers free eval available scope q priorities st = (.error e, st')) :
    Raised free eval e := by
  induction priorities generalizing st with
  | nil => cases h
  | cons priority rest ih =>
    rcases hwf.rotation (hthere priority List.mem_cons_self) with ⟨r, hr, _, hmem⟩
    -- every session of the rotation has a head
    have hheads : ∀ s ∈ r, ∃ x xs, (q.tier priority).get? s = some (x :: xs) := by
      intro s hs
      rcases (Dict.contains_iff _).mp ((hmem s).mp hs) with ⟨dq, hdq⟩
      cases dq with
      | nil => exact absurd hdq hwf.nonempty
      | cons x xs => exact ⟨x, xs, hdq⟩
    simp only [scanTiers, hr] at h
    split at h
    · next hscan =>
      cases h
      exact scanRotation_error hheads hscan
    · exact ih (fun p hp => hthere p (List.mem_cons_of_mem _ hp)) h
    · cases h
    · cases h

/-- In a well-formed queue the lookups of `dispatch` do not fail. -/
theorem dispatch_error (hwf : q.WF) {st st' : σ} {e : Exn} {q' : SchedulingQueue ε}
    (h : dispatch free eval available scope q st = (.error e, q', st')) : Raised free eval e := by
  unfold dispatch at h
  split at h
  · next err hfree =>
    cases h
    exact Or.inl ⟨_, err, hfree, rfl⟩
  · cases h
  · split at h
    · next hscan =>
      cases h
      refine scanTiers_error hwf ?_ hscan
      intro p hp
      rw [List.mem_insertionSort, Dict.mem_keys] at hp
      exact (Dict.contains_iff _).mpr hp
    · cases h
    · cases h

/-! ## Depth -/

/-- All entries of all deques, as `depth` goes through them. -/
def entries (q : SchedulingQueue ε) : List QueueEntry :=
  q.tiers.values.flatMap fun tier => tier.values.flatMap id

theorem length_entries (q : SchedulingQueue ε) : q.entries.length = q.depth := by
  simp [entries, depth, List.length_flatMap]

theorem deque_of_entries {tier : Dict String (List QueueEntry)} {dq : List QueueEntry}
    (ht : q.tiers.get? p = some tier) (hd : tier.get? s = some dq) : q.deque p s = dq := by
  refine deque_of_get? ?_
  unfold SchedulingQueue.tier
  rw [ht]
  exact hd

theorem mem_entries : e ∈ q.entries ↔ q.Queued e := by
  unfold entries
  simp only [Dict.mem_flatMap_values, id]
  constructor
  · rintro ⟨p, tier, ht, s, dq, hd, he⟩
    refine ⟨p, s, holds_iff_mem_deque.mpr ?_⟩
    rwa [deque_of_entries ht hd]
  · rintro ⟨p, s, dq, hd, he⟩
    unfold SchedulingQueue.tier at hd
    cases ht : q.tiers.get? p with
    | none =>
      rw [ht] at hd
      cases hd
    | some tier =>
      rw [ht] at hd
      exact ⟨p, tier, ht, s, dq, hd, he⟩

theorem Kept.nodup_entries (h : Kept es q) : q.entries.Nodup := by
  unfold entries
  refine Dict.nodup_flatMap_values ?_ ?_
  · intro p tier ht
    refine Dict.nodup_flatMap_values ?_ ?_
    · intro s dq hd
      rw [← deque_of_entries ht hd]
      exact h.nodup p s
    · -- an entry is filed under its own session
      intro s s' dq dq' hne hd hd' a ha ha'
      simp only [id, ← deque_of_entries ht hd, ← deque_of_entries ht hd'] at ha ha'
      exact hne ((h.filed ha).2.symm.trans (h.filed ha').2)
  · -- and under its own priority
    intro p p' tier tier' hne ht ht' a ha ha'
    simp only [Dict.mem_flatMap_values, id] at ha ha'
    rcases ha with ⟨s, dq, hd, ha⟩
    rcases ha' with ⟨s', dq', hd', ha'⟩
    rw [← deque_of_entries ht hd] at ha
    rw [← deque_of_entries ht' hd'] at ha'
    exact hne ((h.filed ha).1.symm.trans (h.filed ha').1)

theorem Kept.depth_eq (h : Kept es q) : (q.depth : ℕ∞) = {e | Waits es e}.encard := by
  have hset : {e | Waits es e} = (q.entries.toFinset : Set QueueEntry) := by
    ext e
    simp [mem_entries, h.queued]
  rw [hset, Set.encard_coe_eq_coe_finsetCard, List.toFinset_card_of_nodup h.nodup_entries,
    length_entries]

/-! ## Order -/

/-- A `cancel` takes a session out of a rotation only if it has emptied its deque. -/
theorem rotation_cancel (q : SchedulingQueue ε) (requestId sessionId : String) (priority p : Int) :
    (q.cancel requestId sessionId priority).rotation p = q.rotation p ∨
      (q.cancel requestId sessionId priority).rotation p = (q.rotation p).erase sessionId ∧
        (q.cancel requestId sessionId priority).deque p sessionId = [] := by
  generalize hq' : q.cancel requestId sessionId priority = q'
  have hdeque := SchedulingQueue.deque_cancel q requestId sessionId priority p sessionId
  rw [hq'] at hdeque
  unfold cancel at hq'
  simp only at hq'
  split at hq'
  · -- the session has no deque in the tier
    subst hq'
    exact Or.inl rfl
  · next dq hsome =>
    split at hq'
    · -- the request is not in it
      subst hq'
      exact Or.inl rfl
    · by_cases hp : p = priority
      · subst hp
        have hdq : q.deque p sessionId = dq := deque_of_get? hsome
        rw [if_pos ⟨rfl, rfl⟩, hdq] at hdeque
        rw [hdeque, ← hq']
        unfold rotation replaceSession
        simp only
        cases hr : q.rotations.get? p with
        | none => simp [hr]
        | some r =>
          by_cases hrem : dq.filter (fun e => e.requestId ≠ requestId) = []
          · right
            rw [Dict.get?_set_self, if_pos hrem]
            exact ⟨rfl, hrem⟩
          · left
            rw [Dict.get?_set_self, if_neg hrem]
      · -- other tiers keep their rotation
        left
        rw [← hq']
        unfold rotation replaceSession
        simp only
        cases q.rotations.get? priority with
        | none => rfl
        | some r => rw [Dict.get?_set_of_ne _ hp]

theorem flatMap_erase {α β : Type} [DecidableEq α] {f : α → List β} {a : α} (h : f a = [])
    (l : List α) : (l.erase a).flatMap f = l.flatMap f := by
  induction l with
  | nil => rfl
  | cons b l ih =>
    by_cases hb : b = a
    · subst hb
      simp [h]
    · rw [List.erase_cons_tail (by simpa using hb), List.flatMap_cons, List.flatMap_cons, ih]

theorem Kept.line_cancel (h : Kept es q) {requestId : String}
    (hunder : EnqueuedUnder es requestId sessionId priority) (p : Int) :
    (q.cancel requestId sessionId priority).line p =
      (q.line p).filter fun e => e.requestId ≠ requestId := by
  have hline : (q.rotation p).flatMap ((q.cancel requestId sessionId priority).deque p) =
      (q.line p).filter fun e => e.requestId ≠ requestId := by
    unfold line
    rw [List.filter_flatMap]
    congr 1
    funext s
    exact h.deque_cancel hunder p s
  rw [← hline]
  unfold line
  rcases rotation_cancel q requestId sessionId priority p with hsame | ⟨herase, hempty⟩
  · rw [hsame]
  · rw [herase, flatMap_erase hempty]

/-! ## Conservation -/

theorem dispatches_waits {c : Call ε σ} {q' : SchedulingQueue ε} (h : Kept es q)
    (hcall : Calls eval q c q') {x : String} (hx : c.Dispatches x) :
    ∃ e, Waits es e ∧ e.requestId = x := by
  rcases hx with ⟨hosts, available, scope, st, rfl⟩
  rcases hcall with ⟨st', hd⟩
  rcases dispatch_cases hd with ⟨hnone, _⟩ | ⟨p, s, entry, rest, hhead, _, hres, _⟩
  · exact absurd rfl (hnone x)
  · cases hres
    exact ⟨entry, (h.queued entry).mp ⟨p, s, _, hhead, List.mem_cons_self⟩, rfl⟩

/-- A request that was enqueued, and dispatched or cancelled after that, is not dispatched
again. -/
theorem not_dispatched_again (hrun : Run (Calls eval) {} es q) (hproper : Proper es)
    {pre mid post : List (Call ε σ)} {c d : Call ε σ} {x : String}
    (hes : es = pre ++ c :: (mid ++ d :: post)) (hc : c.Dispatches x ∨ c.Cancels x)
    (hbefore : ∃ b ∈ pre, ∃ e, b.Enqueues e ∧ e.requestId = x) : ¬ d.Dispatches x := by
  intro hd
  have hes' : es = (pre ++ c :: mid) ++ d :: post := by
    rw [hes]
    simp
  rw [hes'] at hrun hproper
  rcases Run.split_at hrun with ⟨a, b, hpre, hcall, _⟩
  have hkept : Kept (pre ++ c :: mid) a := kept_run hpre hproper.left
  rcases dispatches_waits hkept hcall hd with ⟨e, ⟨pre', b', post', heq, henq, hpost⟩, hid⟩
  rcases hbefore with ⟨b₀, hb₀, e₀, henq₀, hid₀⟩
  -- the one `enqueue` of the request stands before `c`, which takes it
  rcases List.append_eq_append_iff.mp heq with ⟨l, rfl, hl⟩ | ⟨l, rfl, hl⟩
  · cases l with
    | nil =>
      cases hl
      rcases henq with ⟨_, rfl⟩
      rcases hc with ⟨_, _, _, _, hc⟩ | ⟨_, _, hc⟩
      · cases hc
      · cases hc
    | cons c' l =>
      rcases List.cons_eq_cons.mp hl with ⟨rfl, rfl⟩
      have hfollows := hproper (pre ++ c :: l) b' (post' ++ d :: post) (by simp)
      rcases henq with ⟨eligible, rfl⟩
      exact hfollows b₀ (List.mem_append_left _ hb₀) e₀ henq₀ (hid₀.trans hid.symm)
  · cases l with
    | nil =>
      cases hl
      rcases henq with ⟨_, rfl⟩
      rcases hc with ⟨_, _, _, _, hc⟩ | ⟨_, _, hc⟩
      · cases hc
      · cases hc
    | cons c' l =>
      rcases List.cons_eq_cons.mp hl with ⟨rfl, rfl⟩
      have hnot := hpost c (by simp)
      rw [hid] at hnot
      rcases hc with hc | hc
      · exact hnot.1 hc
      · exact hnot.2 hc

/-- What holds of the queue after the calls `es`. -/
structure Conserved (eval : ε → σ → Except Exn (List String) × σ) (es : List (Call ε σ))
    (q : SchedulingQueue ε) : Prop where
  wf : q.WF
  callbacks : ∀ {x}, q.eligibility.contains x = true → ∃ e, q.Queued e ∧ e.requestId = x
  lookups : ∀ hosts available scope st e q' st',
    dispatch (hasFreeCapacity · hosts) eval available scope q st = (.error e, q', st') →
      Raised (hasFreeCapacity · hosts) eval e
  queued : ∀ e, q.Queued e ↔ Waits es e
  depth : (q.depth : ℕ∞) = {e | Waits es e}.encard
  once : ∀ (pre mid post : List (Call ε σ)) (c d : Call ε σ) (x : String),
    es = pre ++ c :: (mid ++ d :: post) → c.Dispatches x → ¬ d.Dispatches x
  cancelled : ∀ (pre mid post : List (Call ε σ)) (c d : Call ε σ) (x : String),
    es = pre ++ c :: (mid ++ d :: post) →
      (∃ b ∈ pre, ∃ e, b.Enqueues e ∧ e.requestId = x) → c.Cancels x → ¬ d.Dispatches x
  order : ∀ (x sessionId : String) (priority : Int), EnqueuedUnder es x sessionId priority →
    ∀ p, (q.cancel x sessionId priority).line p = (q.line p).filter fun e => e.requestId ≠ x

theorem conservation (hrun : Run (Calls eval) {} es q) (hproper : Proper es) :
    Conserved eval es q := by
  have hkept := kept_run hrun hproper
  constructor
  · exact hkept.wf
  · exact hkept.callbacks
  · intro hosts available scope st e q' st' h
    exact dispatch_error hkept.wf h
  · exact hkept.queued
  · exact hkept.depth_eq
  · intro pre mid post c d x hes hc
    refine not_dispatched_again hrun hproper hes (Or.inl hc) ?_
    rw [hes] at hrun hproper
    rcases Run.split_at hrun with ⟨a, b, hpre, hcall, _⟩
    have hkept' : Kept pre a := kept_run hpre hproper.left
    rcases dispatches_waits hkept' hcall hc with ⟨e, hwaits, hid⟩
    rcases hwaits.enqueued with ⟨b₀, hb₀, henq⟩
    exact ⟨b₀, hb₀, e, henq, hid⟩
  · intro pre mid post c d x hes hbefore hc
    exact not_dispatched_again hrun hproper hes (Or.inr hc) hbefore
  · intro x sessionId priority hunder p
    exact hkept.line_cancel hunder p

end

/-! ## A run -/

namespace Example

def node : HostInfo where
  hostId := "node"
  capabilities := { backendType := none, contextWindow := none, baseUrl := none }
  capacity := ⟨some 1⟩
  inFlight := 0
  lastSeen := 0

/-- Every callback allows the one host. -/
def nodeOnly (_ _ : Unit) : Except Exn (List String) × Unit := (.ok ["node"], ())

def first : QueueEntry := ⟨"a", "chat", 0, 0⟩

def second : QueueEntry := ⟨"b", "chat", 0, 1⟩

def third : QueueEntry := ⟨"c", "batch", 5, 2⟩

def waits (entry : QueueEntry) : Call Unit Unit := .enqueue entry (some ())

/-- A `dispatch` for anyone, on the one host, that returned this request. -/
def serves (requestId : String) : Call Unit Unit :=
  .dispatch [node] none none () (.ok (some requestId))

/-- A session is served, its second request cancelled, and a dispatch asks for a request that is
not in turn. -/
def calls : List (Call Unit Unit) :=
  [] ++ [waits first] ++ [waits second] ++ [waits third] ++ [serves "a"] ++
    [Call.cancel "b" "chat" 0] ++ [Call.dispatch [node] none (some "b") () (.ok none)]

end Example

open Example in
theorem conservation_served :
    ∃ q, Run (Calls nodeOnly) {} calls q ∧ Conserved nodeOnly calls q ∧ q.depth = 1 := by
  have hrun : ∃ q, Run (Calls nodeOnly) {} calls q ∧ q.depth = 1 := by
    refine ⟨_, .snoc (.snoc (.snoc (.snoc (.snoc (.snoc .nil rfl) rfl) rfl)
      (calls_dispatch ?_)) rfl) (calls_dispatch ?_), ?_⟩
    · decide +kernel
    · decide +kernel
    · decide +kernel
  have hproper : Proper calls := by
    unfold calls
    simp only [proper_snoc]
    refine ⟨⟨⟨⟨⟨⟨proper_nil, ?_⟩, ?_⟩, ?_⟩, trivial⟩, ?_⟩, trivial⟩
    all_goals simp [Call.Follows, EnqueuedUnder, Call.Enqueues, first, second, third, waits, serves]
  rcases hrun with ⟨q, hq, hdepth⟩
  exact ⟨q, hq, conservation hq hproper, hdepth⟩

end SchedulingQueue

end LlmHomeLab
