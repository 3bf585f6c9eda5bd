import LlmHomeLab.Errors

/-! # The scheduling queue

`scheduling/queue.py`. Requests wait in one deque per session, sessions take turns within a
priority tier, and the tiers are served in order of priority. An entry's eligibility is a
callback, here a value `ε` with a function that runs it in a state `σ`: evaluating a callback
reads clocks and drops expired leases.
-/

namespace LlmHomeLab

structure QueueEntry where
  requestId : String
  sessionId : String
  priority : Int
  time : Int
deriving DecidableEq, Repr

/-- `_has_free_capacity(registry, available_host_ids)` over `registry.hosts()`. -/
def hasFreeCapacity (available : Option (List String)) : List HostInfo → Except PyError Bool
  | [] => .ok false
  | host :: rest => do
    if (← host.belowLimit) && available.all (host.hostId ∈ ·) then return true
    else hasFreeCapacity available rest

structure SchedulingQueue (ε : Type) where
  eligibility : Dict String ε := .empty
  tiers : Dict Int (Dict String (List QueueEntry)) := .empty
  rotations : Dict Int (List String) := .empty

namespace SchedulingQueue

variable {ε σ : Type}

/-! ## Operations -/

def tier (q : SchedulingQueue ε) (priority : Int) : Dict String (List QueueEntry) :=
  (q.tiers.get? priority).getD .empty

/-- Append an entry to the deque of its session; a new session joins the rotation. -/
def push (q : SchedulingQueue ε) (entry : QueueEntry) : SchedulingQueue ε :=
  let tier := q.tier entry.priority
  match tier.get? entry.sessionId with
  | some sessionQueue =>
    { q with tiers := q.tiers.set entry.priority (tier.set entry.sessionId (sessionQueue ++ [entry])) }
  | none =>
    { q with
      tiers := q.tiers.set entry.priority (tier.set entry.sessionId [entry])
      rotations := q.rotations.set entry.priority
        ((q.rotations.get? entry.priority).getD [] ++ [entry.sessionId]) }

def enqueue (q : SchedulingQueue ε) (requestId sessionId : String) (priority now : Int)
    (eligibleHostIds : Option ε) : SchedulingQueue ε :=
  let eligibility :=
    match eligibleHostIds with
    | some e => q.eligibility.set requestId e
    | none => q.eligibility
  push { q with eligibility } ⟨requestId, sessionId, priority, now⟩

def depth (q : SchedulingQueue ε) : Nat :=
  (q.tiers.values.map fun tier => (tier.values.map List.length).sum).sum

/-- Put what is left of a session's deque back, or take the session out. -/
def replaceSession (q : SchedulingQueue ε) (priority : Int) (sessionId : String)
    (remaining : List QueueEntry) (rotation : List String → List String) : SchedulingQueue ε :=
  let tier := q.tier priority
  { q with
    tiers := q.tiers.set priority
      (if remaining = [] then tier.pop sessionId else tier.set sessionId remaining)
    rotations :=
      match q.rotations.get? priority with
      | some r => q.rotations.set priority (rotation r)
      | none => q.rotations }

def cancel (q : SchedulingQueue ε) (requestId sessionId : String) (priority : Int) :
    SchedulingQueue ε :=
  let q := { q with eligibility := q.eligibility.pop requestId }
  match (q.tier priority).get? sessionId with
  | none => q
  | some sessionQueue =>
    let remaining := sessionQueue.filter fun entry => entry.requestId ≠ requestId
    if remaining.length = sessionQueue.length then q
    else
      q.replaceSession priority sessionId remaining fun r =>
        if remaining = [] then r.erase sessionId else r

/-- What the scan of one rotation comes to: no head is admissible, the first admissible head
is not the request asked for, or it may be taken. -/
inductive Verdict where
  | pass
  | blocked
  | take (sessionId : String) (entry : QueueEntry)
deriving DecidableEq, Repr

section

variable (free : Option (List String) → Except PyError Bool)
  (eval : ε → σ → Except Exn (List String) × σ) (available : Option (List String))
  (requestId : Option String)

/-- The hosts an entry may use: what its callback returns, if it has one. -/
def allowedFor (q : SchedulingQueue ε) (entry : QueueEntry) (st : σ) :
    Except Exn (Option (List String)) × σ :=
  match q.eligibility.get? entry.requestId with
  | some e => ((eval e st).1.map some, (eval e st).2)
  | none => (.ok available, st)

/-- `for session_id in list(rotation)`. -/
def scanRotation (q : SchedulingQueue ε) (tier : Dict String (List QueueEntry)) :
    List String → σ → Except Exn Verdict × σ
  | [], st => (.ok .pass, st)
  | sessionId :: rest, st =>
    match tier.get? sessionId with
    | none => (.error (.builtin .keyError), st)
    | some [] => (.error (.builtin .indexError), st)
    | some (entry :: _) =>
      match allowedFor eval available q entry st with
      | (.error e, st) => (.error e, st)
      | (.ok allowed, st) =>
        match free allowed with
        | .error e => (.error (.builtin e), st)
        | .ok false => scanRotation q tier rest st
        | .ok true =>
          if requestId.all (· = entry.requestId) then (.ok (.take sessionId entry), st)
          else (.ok .blocked, st)

/-- `for priority in sorted(self._tiers)`: where the entry to take stands, if there is one. -/
def scanTiers (q : SchedulingQueue ε) :
    List Int → σ → Except Exn (Option (Int × String × QueueEntry)) × σ
  | [], st => (.ok none, st)
  | priority :: rest, st =>
    match q.rotations.get? priority with
    | none => (.error (.builtin .keyError), st)
    | some rotation =>
      match scanRotation free eval available requestId q (q.tier priority) rotation st with
      | (.error e, st) => (.error e, st)
      | (.ok .pass, st) => scanTiers q rest st
      | (.ok .blocked, st) => (.ok none, st)
      | (.ok (.take sessionId entry), st) => (.ok (some (priority, sessionId, entry)), st)

/-- Take the head of a session's deque; the session goes to the back of the rotation, or
leaves it. -/
def popHead (q : SchedulingQueue ε) (priority : Int) (sessionId : String) (entry : QueueEntry) :
    SchedulingQueue ε :=
  let remaining := (((q.tier priority).get? sessionId).getD []).tail
  { q with eligibility := q.eligibility.pop entry.requestId }.replaceSession priority sessionId
    remaining fun r =>
      if remaining = [] then r.erase sessionId else r.erase sessionId ++ [sessionId]

def dispatch (q : SchedulingQueue ε) (st : σ) :
    Except Exn (Option String) × SchedulingQueue ε × σ :=
  match free available with
  | .error e => (.error (.builtin e), q, st)
  | .ok false => (.ok none, q, st)
  | .ok true =>
    match scanTiers free eval available requestId q (q.tiers.keys.insertionSort (· ≤ ·)) st with
    | (.error e, st) => (.error e, q, st)
    | (.ok none, st) => (.ok none, q, st)
    | (.ok (some (priority, sessionId, entry)), st) =>
      (.ok (some entry.requestId), q.popHead priority sessionId entry, st)

end

/-! ## What a queue holds -/

/-- The entry waits in the deque of this session in this tier. -/
def Holds (q : SchedulingQueue ε) (priority : Int) (sessionId : String) (entry : QueueEntry) :
    Prop :=
  ∃ sessionQueue, (q.tier priority).get? sessionId = some sessionQueue ∧ entry ∈ sessionQueue

/-- Neither an entry nor a callback of the request is left. -/
def Forgets (q : SchedulingQueue ε) (requestId : String) : Prop :=
  q.eligibility.get? requestId = none ∧
    ∀ priority sessionId entry, q.Holds priority sessionId entry → entry.requestId ≠ requestId

variable {q : SchedulingQueue ε} {priority p : Int} {sessionId s : String} {entry e : QueueEntry}

theorem get?_tier_set (q : SchedulingQueue ε) (t : Dict String (List QueueEntry)) :
    ((q.tiers.set priority t).get? p).getD .empty = if p = priority then t else q.tier p := by
  rw [Dict.get?_set]
  split <;> rfl

theorem tier_push (q : SchedulingQueue ε) (entry : QueueEntry) (p : Int) :
    (q.push entry).tier p =
      if p = entry.priority then
        (q.tier p).set entry.sessionId (((q.tier p).get? entry.sessionId).getD [] ++ [entry])
      else q.tier p := by
  unfold push
  simp only
  split
  · next sessionQueue hq =>
    rw [tier, get?_tier_set]
    split
    · next hp => rw [hp, hq]; rfl
    · rfl
  · next hq =>
    rw [tier, get?_tier_set]
    split
    · next hp => rw [hp, hq]; rfl
    · rfl

theorem holds_push :
    (q.push entry).Holds p s e ↔
      q.Holds p s e ∨ (p = entry.priority ∧ s = entry.sessionId ∧ e = entry) := by
  unfold Holds
  rw [tier_push]
  by_cases hp : p = entry.priority
  · rw [if_pos hp]
    by_cases hs : s = entry.sessionId
    · subst hs
      simp only [Dict.get?_set_self, Option.some.injEq, exists_eq_left', List.mem_append,
        List.mem_singleton, hp, true_and]
      cases hq : (q.tier entry.priority).get? entry.sessionId <;> simp
    · simp [Dict.get?_set_of_ne _ hs, hs]
  · simp [hp]

theorem tier_replaceSession (q : SchedulingQueue ε) (remaining : List QueueEntry)
    (f : List String → List String) (p : Int) :
    (q.replaceSession priority sessionId remaining f).tier p =
      if p = priority then
        if remaining = [] then (q.tier p).pop sessionId else (q.tier p).set sessionId remaining
      else q.tier p := by
  unfold replaceSession
  rw [tier, get?_tier_set]
  by_cases hp : p = priority
  · simp [hp]
  · simp [hp]

theorem holds_replaceSession {remaining : List QueueEntry} {f : List String → List String} :
    (q.replaceSession priority sessionId remaining f).Holds p s e ↔
      if p = priority ∧ s = sessionId then e ∈ remaining else q.Holds p s e := by
  unfold Holds
  rw [tier_replaceSession]
  by_cases hp : p = priority
  · by_cases hs : s = sessionId
    · subst hs
      by_cases hr : remaining = []
      · simp [hp, hr]
      · simp [hp, hr]
    · by_cases hr : remaining = []
      · simp [hp, hs, hr, Dict.get?_pop_of_ne _ hs]
      · simp [hp, hs, hr, Dict.get?_set_of_ne _ hs]
  · simp [hp]

theorem holds_cancel {requestId : String} :
    (q.cancel requestId sessionId priority).Holds p s e ↔
      q.Holds p s e ∧ ¬ (p = priority ∧ s = sessionId ∧ e.requestId = requestId) := by
  unfold cancel
  simp only
  split
  · next hnone =>
    refine ⟨fun h => ⟨h, ?_⟩, fun h => h.1⟩
    rintro ⟨rfl, rfl, _⟩
    obtain ⟨dq, hdq, _⟩ := h
    rw [hnone] at hdq
    cases hdq
  · next sessionQueue hsome =>
    have hthere : q.Holds priority sessionId e ↔ e ∈ sessionQueue := by
      constructor
      · rintro ⟨dq, hdq, he⟩
        rw [show (q.tier priority).get? sessionId = some sessionQueue from hsome] at hdq
        cases hdq
        exact he
      · exact fun he => ⟨sessionQueue, hsome, he⟩
    split
    · next hlen =>
      refine ⟨fun h => ⟨h, ?_⟩, fun h => h.1⟩
      rintro ⟨rfl, rfl, hid⟩
      -- nothing was filtered out
      have hall := List.filter_eq_self.mp
        (List.Sublist.eq_of_length List.filter_sublist hlen) e (hthere.mp h)
      simp [hid] at hall
    · rw [holds_replaceSession]
      by_cases hps : p = priority ∧ s = sessionId
      · obtain ⟨rfl, rfl⟩ := hps
        simp only [and_self, if_true, true_and, List.mem_filter, hthere]
        simp
      · rw [if_neg hps]
        refine ⟨fun h => ⟨h, fun h' => hps ⟨h'.1, h'.2.1⟩⟩, fun h => h.1⟩

@[simp] theorem eligibility_push (q : SchedulingQueue ε) (entry : QueueEntry) :
    (q.push entry).eligibility = q.eligibility := by
  unfold push
  simp only
  split <;> rfl

@[simp] theorem eligibility_cancel (q : SchedulingQueue ε) (requestId sessionId : String)
    (priority : Int) :
    (q.cancel requestId sessionId priority).eligibility = q.eligibility.pop requestId := by
  unfold cancel
  simp only
  split
  · rfl
  · split <;> rfl

/-! ## What a dispatch does -/

section

variable {free : Option (List String) → Except PyError Bool}
  {eval : ε → σ → Except Exn (List String) × σ} {available : Option (List String)}
  {requestId : Option String}

/-- An entry is taken from the front of its deque, and is the one asked for. -/
theorem scanRotation_take {tier : Dict String (List QueueEntry)} {rotation : List String}
    {st st' : σ}
    (h : scanRotation free eval available requestId q tier rotation st =
      (.ok (.take sessionId entry), st')) :
    (∃ rest, tier.get? sessionId = some (entry :: rest)) ∧
      requestId.all (· = entry.requestId) = true := by
  induction rotation generalizing st with
  | nil => cases h
  | cons x rest ih =>
    unfold scanRotation at h
    split at h
    · cases h
    · cases h
    · next head tail hx =>
      split at h
      · cases h
      · split at h
        · cases h
        · -- no capacity for this head: the scan goes on
          exact ih h
        · split at h
          · next hid =>
            cases h
            exact ⟨⟨tail, hx⟩, hid⟩
          · cases h

theorem scanTiers_some {priorities : List Int} {st st' : σ}
    (h : scanTiers free eval available requestId q priorities st =
      (.ok (some (priority, sessionId, entry)), st')) :
    (∃ rest, (q.tier priority).get? sessionId = some (entry :: rest)) ∧
      requestId.all (· = entry.requestId) = true := by
  induction priorities generalizing st with
  | nil => cases h
  | cons x rest ih =>
    unfold scanTiers at h
    split at h
    · cases h
    · split at h
      · cases h
      · exact ih h
      · cases h
      · next hscan =>
        cases h
        exact scanRotation_take hscan

/-- A preorder that every callback moves along, the whole scan moves along. -/
theorem scanRotation_along (R : σ → σ → Prop) (hrefl : ∀ st, R st st)
    (htrans : ∀ a b c, R a b → R b c → R a c)
    (heval : ∀ id e, q.eligibility.get? id = some e → ∀ st, R st (eval e st).2)
    (tier : Dict String (List QueueEntry)) (rotation : List String) (st : σ) :
    R st (scanRotation free eval available requestId q tier rotation st).2 := by
  have hallowed : ∀ entry st, R st (allowedFor eval available q entry st).2 := by
    intro entry st
    unfold allowedFor
    split
    · next hcallback => exact heval _ _ hcallback st
    · exact hrefl st
  induction rotation generalizing st with
  | nil => exact hrefl st
  | cons x rest ih =>
    unfold scanRotation
    split
    · exact hrefl st
    · exact hrefl st
    · next entry _ _ =>
      have hstep := hallowed entry st
      split
      · next h =>
        -- a callback that raises ends the scan
        rwa [h] at hstep
      · next h =>
        rw [h] at hstep
        split
        · exact hstep
        · exact htrans _ _ _ hstep (ih _)
        · split <;> exact hstep

theorem dispatch_along (R : σ → σ → Prop) (hrefl : ∀ st, R st st)
    (htrans : ∀ a b c, R a b → R b c → R a c)
    (heval : ∀ id e, q.eligibility.get? id = some e → ∀ st, R st (eval e st).2)
    (st : σ) : R st (dispatch free eval available requestId q st).2.2 := by
  -- along the tiers, from the lowest number on
  have htiers : ∀ priorities st,
      R st (scanTiers free eval available requestId q priorities st).2 := by
    intro priorities
    induction priorities with
    | nil => exact hrefl
    | cons x rest ih =>
      intro st
      unfold scanTiers
      split
      · exact hrefl st
      · next rotation _ =>
        have hscan : R st (scanRotation free eval available requestId q (q.tier x) rotation st).2 :=
          scanRotation_along R hrefl htrans heval (q.tier x) rotation st
        split
        · next h => rwa [h] at hscan
        · next h =>
          rw [h] at hscan
          exact htrans _ _ _ hscan (ih _)
        · next h => rwa [h] at hscan
        · next h => rwa [h] at hscan
  unfold dispatch
  split
  · exact hrefl st
  · exact hrefl st
  · have hscan := htiers (q.tiers.keys.insertionSort (· ≤ ·)) st
    split <;> next h => rwa [h] at hscan

/-- The last callback that was run before an entry is taken is its own. -/
theorem scanRotation_last (R : σ → σ → Prop) (hrefl : ∀ st, R st st)
    (htrans : ∀ a b c, R a b → R b c → R a c)
    (heval : ∀ id e, q.eligibility.get? id = some e → ∀ st, R st (eval e st).2)
    {tier : Dict String (List QueueEntry)} {rotation : List String} {st st' : σ}
    (h : scanRotation free eval available requestId q tier rotation st =
      (.ok (.take sessionId entry), st')) :
    ∃ a allowed, R st a ∧ allowedFor eval available q entry a = (.ok allowed, st') ∧
      free allowed = .ok true := by
  induction rotation generalizing st with
  | nil => cases h
  | cons x rest ih =>
    unfold scanRotation at h
    split at h
    · cases h
    · cases h
    · next head tail hx =>
      split at h
      · cases h
      · next allowed st₁ hallowed =>
        split at h
        · cases h
        · -- the scan goes on from where this callback has left it
          have hstep : R st st₁ := by
            unfold allowedFor at hallowed
            split at hallowed
            · next c hcallback =>
              rw [← (Prod.mk.inj hallowed).2]
              exact heval _ c hcallback st
            · rw [← (Prod.mk.inj hallowed).2]
              exact hrefl st
          rcases ih h with ⟨a, allowed', ha, hown⟩
          exact ⟨a, allowed', htrans _ _ _ hstep ha, hown⟩
        · next hfree =>
          split at h
          · cases h
            exact ⟨st, allowed, hrefl st, hallowed, hfree⟩
          · cases h

theorem dispatch_last (R : σ → σ → Prop) (hrefl : ∀ st, R st st)
    (htrans : ∀ a b c, R a b → R b c → R a c)
    (heval : ∀ id e, q.eligibility.get? id = some e → ∀ st, R st (eval e st).2)
    {st st' : σ} {q' : SchedulingQueue ε} {taken : String}
    (h : dispatch free eval available requestId q st = (.ok (some taken), q', st')) :
    ∃ a entry allowed, R st a ∧ entry.requestId = taken ∧
      allowedFor eval available q entry a = (.ok allowed, st') ∧ free allowed = .ok true := by
  have htiers : ∀ {priorities : List Int} {st : σ} {p : Int} {x : String} {entry : QueueEntry},
      scanTiers free eval available requestId q priorities st = (.ok (some (p, x, entry)), st') →
      ∃ a allowed, R st a ∧ allowedFor eval available q entry a = (.ok allowed, st') ∧
        free allowed = .ok true := by
    intro priorities
    induction priorities with
    | nil =>
      intro st p x entry h
      cases h
    | cons y rest ih =>
      intro st p x entry h
      unfold scanTiers at h
      split at h
      · cases h
      · next rotation _ =>
        split at h
        · cases h
        · next st₁ hscan =>
          have hstep : R st
              (scanRotation free eval available requestId q (q.tier y) rotation st).2 :=
            scanRotation_along R hrefl htrans heval (q.tier y) rotation st
          rw [hscan] at hstep
          rcases ih h with ⟨a, allowed, ha, hown⟩
          exact ⟨a, allowed, htrans _ _ _ hstep ha, hown⟩
        · cases h
        · next hscan =>
          -- this tier has the entry
          cases h
          exact scanRotation_last R hrefl htrans heval hscan
  unfold dispatch at h
  split at h
  · cases h
  · cases h
  · split at h
    · cases h
    · cases h
    · next p x entry st₁ hscan =>
      cases h
      rcases htiers hscan with ⟨a, allowed, ha, hown⟩
      exact ⟨a, entry, allowed, ha, rfl, hown⟩

/-- The scan takes an entry if no head before it is admissible and it is. What is asked of the
heads and of the entry is asked in the states the scan goes through before it ends in `fin`. -/
theorem scanRotation_takes (R : σ → σ → Prop) (hrefl : ∀ st, R st st)
    (htrans : ∀ a b c, R a b → R b c → R a c) (heval : ∀ e st, R st (eval e st).2)
    {tier : Dict String (List QueueEntry)} {pre post : List String} {rest : List QueueEntry}
    {st fin : σ} {res : Except Exn Verdict}
    (hscan : scanRotation free eval available requestId q tier (pre ++ sessionId :: post) st =
      (res, fin))
    (hpre : ∀ s ∈ pre, ∃ x xs, tier.get? s = some (x :: xs) ∧ ∀ a, R st a →
      ∃ allowed, (allowedFor eval available q x a).1 = .ok allowed ∧
        (R (allowedFor eval available q x a).2 fin → free allowed = .ok false))
    (hhead : tier.get? sessionId = some (entry :: rest))
    (hid : requestId.all (· = entry.requestId) = true)
    (hown : ∀ a, R st a → ∃ allowed, (allowedFor eval available q entry a).1 = .ok allowed ∧
      (R (allowedFor eval available q entry a).2 fin → free allowed = .ok true)) :
    res = .ok (.take sessionId entry) := by
  have hallowed : ∀ entry st, R st (allowedFor eval available q entry st).2 := by
    intro entry st
    unfold allowedFor
    split
    · exact heval _ st
    · exact hrefl st
  induction pre generalizing st with
  | nil =>
    rcases hown st (hrefl st) with ⟨allowed, hok, hfree⟩
    simp only [List.nil_append, scanRotation, hhead] at hscan
    generalize ha : allowedFor eval available q entry st = a at hscan hok hfree
    rcases a with ⟨result, st₁⟩
    cases hok
    simp only at hscan hfree
    cases hf : free allowed with
    | error e =>
      rw [hf] at hscan hfree
      cases hscan
      cases hfree (hrefl _)
    | ok b =>
      rw [hf] at hscan hfree
      cases b with
      | false =>
        -- the scan would have gone on from here to its end
        have hrest : R st₁ (scanRotation free eval available requestId q tier post st₁).2 :=
          scanRotation_along R hrefl htrans (fun _ e _ => heval e) tier post st₁
        simp only at hscan
        rw [hscan] at hrest
        cases hfree hrest
      | true =>
        simp only [hid, if_true] at hscan
        cases hscan
        rfl
  | cons x pre ih =>
    rcases hpre x List.mem_cons_self with ⟨head, xs, hx, hadm⟩
    rcases hadm st (hrefl st) with ⟨allowed, hok, hfree⟩
    have hstep := hallowed head st
    simp only [List.cons_append, scanRotation, hx] at hscan
    generalize ha : allowedFor eval available q head st = a at hscan hok hfree hstep
    rcases a with ⟨result, st₁⟩
    cases hok
    simp only at hscan hfree hstep
    cases hf : free allowed with
    | error e =>
      rw [hf] at hscan hfree
      cases hscan
      cases hfree (hrefl _)
    | ok b =>
      rw [hf] at hscan hfree
      cases b with
      | false =>
        refine ih hscan ?_ ?_
        · intro s hs
          rcases hpre s (List.mem_cons_of_mem _ hs) with ⟨y, ys, hy, hall⟩
          exact ⟨y, ys, hy, fun a hst₁ => hall a (htrans _ _ _ hstep hst₁)⟩
        · exact fun a hst₁ => hown a (htrans _ _ _ hstep hst₁)
      | true =>
        simp only at hscan
        split at hscan
        · cases hscan
          cases hfree (hrefl _)
        · cases hscan
          cases hfree (hrefl _)

/-- Either nothing leaves the queue, or the head of one deque does. -/
theorem dispatch_cases {q' : SchedulingQueue ε} {st st' : σ} {res : Except Exn (Option String)}
    (h : dispatch free eval available requestId q st = (res, q', st')) :
    ((∀ id, res ≠ .ok (some id)) ∧ q' = q) ∨
      ∃ priority sessionId entry rest, (q.tier priority).get? sessionId = some (entry :: rest) ∧
        requestId.all (· = entry.requestId) = true ∧ res = .ok (some entry.requestId) ∧
        q' = q.popHead priority sessionId entry := by
  unfold dispatch at h
  split at h
  · cases h
    exact Or.inl ⟨by simp, rfl⟩
  · cases h
    exact Or.inl ⟨by simp, rfl⟩
  · split at h
    · cases h
      exact Or.inl ⟨by simp, rfl⟩
    · cases h
      exact Or.inl ⟨by simp, rfl⟩
    · next hscan =>
      cases h
      obtain ⟨⟨rest, hrest⟩, hid⟩ := scanTiers_some hscan
      exact Or.inr ⟨_, _, _, rest, hrest, hid, rfl, rfl⟩

end

theorem holds_popHead {rest : List QueueEntry}
    (h : (q.tier priority).get? sessionId = some (entry :: rest)) :
    (q.popHead priority sessionId entry).Holds p s e ↔
      if p = priority ∧ s = sessionId then e ∈ rest else q.Holds p s e := by
  unfold popHead
  simp only
  rw [holds_replaceSession, h]
  rfl

theorem holds_of_popHead {rest : List QueueEntry}
    (h : (q.tier priority).get? sessionId = some (entry :: rest))
    (he : (q.popHead priority sessionId entry).Holds p s e) : q.Holds p s e := by
  rw [holds_popHead h] at he
  split at he
  · next hps =>
    obtain ⟨rfl, rfl⟩ := hps
    exact ⟨_, h, List.mem_cons_of_mem _ he⟩
  · exact he

@[simp] theorem eligibility_popHead (q : SchedulingQueue ε) :
    (q.popHead priority sessionId entry).eligibility = q.eligibility.pop entry.requestId := rfl

/-! ## Well-formed queues -/

/-- The rotation of a tier lists its sessions, each once, and no deque is empty. -/
structure WF (q : SchedulingQueue ε) : Prop where
  rotation : ∀ {p}, q.tiers.contains p = true →
    ∃ r, q.rotations.get? p = some r ∧ r.Nodup ∧ ∀ s, s ∈ r ↔ (q.tier p).contains s = true
  noRotation : ∀ {p}, q.tiers.contains p = false → q.rotations.get? p = none
  nonempty : ∀ {p s}, (q.tier p).get? s ≠ some []

theorem wf_empty : ({} : SchedulingQueue ε).WF where
  rotation h := by simp [Dict.contains] at h
  noRotation _ := rfl
  nonempty h := by simp [tier] at h

theorem contains_tiers_of_holds (h : (q.tier p).contains s = true) : q.tiers.contains p = true := by
  cases hp : q.tiers.contains p with
  | true => rfl
  | false =>
    rw [Dict.contains_eq_false] at hp
    simp [tier, hp, Dict.contains] at h

theorem WF.rotation_of_contains (h : q.WF) (hs : (q.tier p).contains s = true) :
    ∃ r, q.rotations.get? p = some r ∧ r.Nodup ∧ ∀ s, s ∈ r ↔ (q.tier p).contains s = true :=
  h.rotation (contains_tiers_of_holds hs)

theorem wf_push (h : q.WF) (entry : QueueEntry) : (q.push entry).WF := by
  have hnonempty : ∀ {p s}, ((q.push entry).tier p).get? s ≠ some [] := by
    intro p s
    rw [tier_push]
    split
    · rw [Dict.get?_set]
      split
      · simp
      · exact h.nonempty
    · exact h.nonempty
  cases hs : (q.tier entry.priority).get? entry.sessionId with
  | some sessionQueue =>
    -- the session is in the rotation already
    have hpush : q.push entry = ⟨q.eligibility, q.tiers.set entry.priority
        ((q.tier entry.priority).set entry.sessionId (sessionQueue ++ [entry])), q.rotations⟩ := by
      simp only [push, hs]
    have hcontains := (Dict.contains_iff _).mpr ⟨_, hs⟩
    have htiers : ∀ {p}, (q.push entry).tiers.contains p = true ↔ q.tiers.contains p = true := by
      intro p
      rw [hpush, Dict.contains_set_iff]
      constructor
      · rintro (rfl | hp)
        · exact contains_tiers_of_holds hcontains
        · exact hp
      · exact Or.inr
    refine ⟨?_, ?_, hnonempty⟩
    · intro p hp
      obtain ⟨r, hr, hnodup, hmem⟩ := h.rotation (htiers.mp hp)
      refine ⟨r, by rw [hpush]; exact hr, hnodup, fun s => (hmem s).trans ?_⟩
      rw [tier_push]
      split
      · next heq =>
        subst heq
        rw [Dict.contains_set_iff]
        exact ⟨Or.inr, fun h' => h'.elim (fun h' => h' ▸ hcontains) id⟩
      · rfl
    · intro p hp
      rw [hpush]
      refine h.noRotation ?_
      rw [← Bool.not_eq_true] at hp ⊢
      exact fun h' => hp (htiers.mpr h')
  | none =>
    have hrot : (q.push entry).rotations = q.rotations.set entry.priority
        ((q.rotations.get? entry.priority).getD [] ++ [entry.sessionId]) := by
      simp only [push, hs]
    have htiers : ∀ {p}, (q.push entry).tiers.contains p = true ↔
        p = entry.priority ∨ q.tiers.contains p = true := by
      intro p
      simp only [push, hs, Dict.contains_set_iff]
    have habsent : (q.tier entry.priority).contains entry.sessionId = false :=
      (Dict.contains_eq_false _).mpr hs
    -- the old rotation, or none for a new tier
    have hold : ((q.rotations.get? entry.priority).getD []).Nodup ∧
        ∀ s, s ∈ (q.rotations.get? entry.priority).getD [] ↔
          (q.tier entry.priority).contains s = true := by
      cases hp : q.tiers.contains entry.priority with
      | true =>
        obtain ⟨r, hr, hnodup, hmem⟩ := h.rotation hp
        simpa [hr] using ⟨hnodup, hmem⟩
      | false =>
        rw [h.noRotation hp]
        rw [Dict.contains_eq_false] at hp
        simp [tier, hp, Dict.contains]
    refine ⟨?_, ?_, hnonempty⟩
    · intro p hp
      rw [hrot]
      by_cases hpe : p = entry.priority
      · subst hpe
        refine ⟨_, Dict.get?_set_self _, ?_, ?_⟩
        · rw [List.nodup_append]
          refine ⟨hold.1, List.nodup_singleton _, ?_⟩
          intro a ha b hb hab
          rw [List.mem_singleton.mp hb] at hab
          subst hab
          rw [hold.2, habsent] at ha
          cases ha
        · intro s
          rw [List.mem_append, hold.2, List.mem_singleton, tier_push, if_pos rfl,
            Dict.contains_set_iff, or_comm]
      · obtain ⟨r, hr, hnodup, hmem⟩ := h.rotation ((htiers.mp hp).resolve_left hpe)
        refine ⟨r, by rw [Dict.get?_set_of_ne _ hpe]; exact hr, hnodup, fun s => ?_⟩
        rw [hmem, tier_push, if_neg hpe]
    · intro p hp
      rw [← Bool.not_eq_true, htiers, not_or] at hp
      rw [hrot, Dict.get?_set_of_ne _ hp.1]
      exact h.noRotation (by simpa using hp.2)

/-- Replacing a session's deque keeps a queue well formed, if the session stays in the rotation
exactly if something is left of the deque. -/
theorem wf_replaceSession (h : q.WF) {remaining : List QueueEntry} {f : List String → List String}
    (hs : (q.tier priority).contains sessionId = true)
    (hf : ∀ r : List String, r.Nodup → sessionId ∈ r →
      (f r).Nodup ∧ ∀ s, s ∈ f r ↔ s ∈ r ∧ (remaining = [] → s ≠ sessionId)) :
    (q.replaceSession priority sessionId remaining f).WF := by
  obtain ⟨r, hr, hnodup, hmem⟩ := h.rotation_of_contains hs
  have hrot : (q.replaceSession priority sessionId remaining f).rotations =
      q.rotations.set priority (f r) := by simp [replaceSession, hr]
  have htiers : ∀ {p}, (q.replaceSession priority sessionId remaining f).tiers.contains p = true ↔
      q.tiers.contains p = true := by
    intro p
    simp only [replaceSession, Dict.contains_set_iff]
    constructor
    · rintro (rfl | hp)
      · exact contains_tiers_of_holds hs
      · exact hp
    · exact Or.inr
  refine ⟨?_, ?_, ?_⟩
  · -- rotations: the one of this tier loses the session with its last entry
    intro p hp
    rw [hrot]
    by_cases hpe : p = priority
    · subst hpe
      obtain ⟨hnodup', hmem'⟩ := hf r hnodup ((hmem _).mpr hs)
      refine ⟨f r, Dict.get?_set_self _, hnodup', fun s => ?_⟩
      rw [hmem', hmem, tier_replaceSession, if_pos rfl]
      by_cases hrem : remaining = []
      · rw [if_pos hrem, Dict.contains_pop_iff]
        simp [hrem, and_comm]
      · rw [if_neg hrem, Dict.contains_set_iff]
        refine ⟨fun h' => Or.inr h'.1, fun h' => ⟨?_, fun h'' => absurd h'' hrem⟩⟩
        exact h'.elim (fun h' => h' ▸ hs) id
    · obtain ⟨r', hr', hnodup', hmem'⟩ := h.rotation (htiers.mp hp)
      refine ⟨r', by rw [Dict.get?_set_of_ne _ hpe]; exact hr', hnodup', fun s => ?_⟩
      rw [hmem', tier_replaceSession, if_neg hpe]
  · intro p hp
    rw [← Bool.not_eq_true] at hp
    have hp' : q.tiers.contains p = false := by
      rw [← Bool.not_eq_true]
      exact fun h' => hp (htiers.mpr h')
    have hne : p ≠ priority := by
      rintro rfl
      rw [contains_tiers_of_holds hs] at hp'
      cases hp'
    rw [hrot, Dict.get?_set_of_ne _ hne]
    exact h.noRotation hp'
  · -- no deque is left empty
    intro p s
    rw [tier_replaceSession]
    split
    · split
      · rw [Dict.get?_pop]
        split
        · simp
        · exact h.nonempty
      · next hrem =>
        rw [Dict.get?_set]
        split
        · simpa using hrem
        · exact h.nonempty
    · exact h.nonempty

/-- Callbacks play no part in the shape of a queue. -/
theorem WF.withEligibility (h : q.WF) (eligibility : Dict String ε) :
    { q with eligibility }.WF := ⟨h.rotation, h.noRotation, h.nonempty⟩

theorem wf_enqueue (h : q.WF) (requestId sessionId : String) (priority now : Int)
    (eligible : Option ε) : (q.enqueue requestId sessionId priority now eligible).WF :=
  wf_push (h.withEligibility _) _

theorem wf_cancel (h : q.WF) (requestId sessionId : String) (priority : Int) :
    (q.cancel requestId sessionId priority).WF := by
  have h' := h.withEligibility (q.eligibility.pop requestId)
  unfold cancel
  simp only
  split
  · exact h'
  · next sessionQueue hsome =>
    split
    · exact h'
    · refine wf_replaceSession h' ((Dict.contains_iff _).mpr ⟨_, hsome⟩) ?_
      intro r hnodup _
      split
      · next hrem =>
        refine ⟨hnodup.erase _, fun s => ?_⟩
        rw [hnodup.mem_erase_iff]
        exact ⟨fun h => ⟨h.2, fun _ => h.1⟩, fun h => ⟨h.2 hrem, h.1⟩⟩
      · next hrem =>
        exact ⟨hnodup, fun s => ⟨fun h => ⟨h, fun h' => absurd h' hrem⟩, fun h => h.1⟩⟩

theorem wf_popHead (h : q.WF) {rest : List QueueEntry}
    (hs : (q.tier priority).get? sessionId = some (entry :: rest)) :
    (q.popHead priority sessionId entry).WF := by
  have h' := h.withEligibility (q.eligibility.pop entry.requestId)
  unfold popHead
  refine wf_replaceSession h' ((Dict.contains_iff _).mpr ⟨_, hs⟩) ?_
  intro r hnodup hmem
  split
  · next hrem =>
    refine ⟨hnodup.erase _, fun s => ?_⟩
    rw [hnodup.mem_erase_iff]
    simp [hrem, and_comm]
  · next hrem =>
    -- entries are left: the session goes to the back
    constructor
    · rw [List.nodup_append]
      refine ⟨hnodup.erase _, List.nodup_singleton _, ?_⟩
      intro a ha b hb hab
      rw [List.mem_singleton.mp hb] at hab
      subst hab
      exact (hnodup.mem_erase_iff.mp ha).1 rfl
    · intro s
      rw [List.mem_append, hnodup.mem_erase_iff, List.mem_singleton]
      by_cases heq : s = sessionId
      · subst heq
        simp [hmem, hrem]
      · simp [heq]

theorem wf_dispatch (h : q.WF) {free : Option (List String) → Except PyError Bool}
    {eval : ε → σ → Except Exn (List String) × σ} {available : Option (List String)}
    {requestId : Option String} {q' : SchedulingQueue ε} {st st' : σ}
    {res : Except Exn (Option String)}
    (hd : dispatch free eval available requestId q st = (res, q', st')) : q'.WF := by
  rcases dispatch_cases hd with ⟨_, rfl⟩ | ⟨_, _, _, _, hs, _, _, rfl⟩
  · exact h
  · exact wf_popHead h hs

end SchedulingQueue

end LlmHomeLab
