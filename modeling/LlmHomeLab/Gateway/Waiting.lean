import LlmHomeLab.Gateway.System

/-! # The waiting requests and the scheduling queue

The queue and the requests are two records of who waits. They agree in every state: each
request in its wait loop has an entry and a callback in the queue, with its token and its model
hosts, and the queue holds nothing else.
-/

namespace LlmHomeLab

variable {cfg : Config} {s s' s₀ : State} {e : Event} {es : List Event}
  {requestId : String} {req req' : Request} {q q' : SchedulingQueue Waiter}

/-! ## Leaving the queue -/

/-- Everything of a request leaves the queue, and nothing else does. -/
structure Removes (requestId sessionId : String) (q q' : SchedulingQueue Waiter) : Prop where
  wf : q.WF → q'.WF
  tiers : (∀ p, q.tiers.contains p = true → p = 0) → ∀ p, q'.tiers.contains p = true → p = 0
  own : q'.eligibility.get? requestId = none
  others : ∀ id, id ≠ requestId → q'.eligibility.get? id = q.eligibility.get? id
  held : ∀ {p s entry}, q'.Holds p s entry →
    q.Holds p s entry ∧ ¬ (p = 0 ∧ s = sessionId ∧ entry.requestId = requestId)
  kept : ∀ {p s entry}, q.Holds p s entry → entry.requestId ≠ requestId → q'.Holds p s entry

namespace SchedulingQueue

variable {ε : Type} {priority p : Int} {sessionId : String} {entry : QueueEntry}

theorem contains_tiers_push (q : SchedulingQueue ε) (entry : QueueEntry) :
    (q.push entry).tiers.contains p = true ↔ p = entry.priority ∨ q.tiers.contains p = true := by
  unfold push
  simp only
  split <;> exact Dict.contains_set_iff _

theorem contains_tiers_replaceSession (q : SchedulingQueue ε) (remaining : List QueueEntry)
    (f : List String → List String) :
    (q.replaceSession priority sessionId remaining f).tiers.contains p = true ↔
      p = priority ∨ q.tiers.contains p = true :=
  Dict.contains_set_iff _

theorem contains_tiers_cancel (q : SchedulingQueue ε) (requestId : String)
    (h : (q.cancel requestId sessionId priority).tiers.contains p = true) :
    p = priority ∨ q.tiers.contains p = true := by
  unfold cancel at h
  simp only at h
  split at h
  · exact Or.inr h
  · split at h
    · exact Or.inr h
    · rwa [contains_tiers_replaceSession] at h

end SchedulingQueue

theorem removes_cancel (q : SchedulingQueue Waiter) (requestId sessionId : String) :
    Removes requestId sessionId q (q.cancel requestId sessionId 0) where
  wf h := SchedulingQueue.wf_cancel h requestId sessionId 0
  tiers h p hp := by
    rcases SchedulingQueue.contains_tiers_cancel q requestId hp with rfl | hp
    · rfl
    · exact h p hp
  own := by rw [SchedulingQueue.eligibility_cancel, Dict.get?_pop_self]
  others id hid := by rw [SchedulingQueue.eligibility_cancel, Dict.get?_pop_of_ne _ hid]
  held h := SchedulingQueue.holds_cancel.mp h
  kept h hid := SchedulingQueue.holds_cancel.mpr ⟨h, fun hown => hid hown.2.2⟩

/-- However the wait loop ends, its `finally` removes the request from the queue. -/
theorem LoopEnd.removes (h : LoopEnd requestId req q q') :
    Removes requestId (req.queueSessionId requestId) q
      (q'.cancel requestId (req.queueSessionId requestId) 0) := by
  have hcancel := removes_cancel q' requestId (req.queueSessionId requestId)
  cases h with
  | same => exact hcancel
  | entered modelHosts =>
    -- the entry that was just put in is taken out again
    constructor
    · intro h
      exact hcancel.wf (SchedulingQueue.wf_enqueue h _ _ _ _ _)
    · intro h
      refine hcancel.tiers ?_
      intro p hp
      rcases (SchedulingQueue.contains_tiers_push _ _).mp hp with rfl | hp
      · rfl
      · exact h p hp
    · exact hcancel.own
    · intro id hid
      rw [hcancel.others id hid, SchedulingQueue.enqueue, SchedulingQueue.eligibility_push]
      exact Dict.get?_set_of_ne _ hid
    · intro p s entry hentry
      rcases hcancel.held hentry with ⟨hpush, hnot⟩
      rcases SchedulingQueue.holds_push.mp hpush with hold | ⟨rfl, rfl, rfl⟩
      · exact ⟨hold, hnot⟩
      · exact absurd ⟨rfl, rfl, rfl⟩ hnot
    · intro p s entry hentry hid
      exact hcancel.kept (SchedulingQueue.holds_push.mpr (Or.inl hentry)) hid
  | @taken priority sessionId head rest hhead hown =>
    -- the entry is gone already, and the callback with it
    constructor
    · intro h
      exact hcancel.wf (SchedulingQueue.wf_popHead h hhead)
    · intro h
      refine hcancel.tiers ?_
      intro p hp
      rcases (SchedulingQueue.contains_tiers_replaceSession _ _ _).mp hp with rfl | hp
      · exact h p (SchedulingQueue.contains_tiers_of_holds ((Dict.contains_iff _).mpr ⟨_, hhead⟩))
      · exact h p hp
    · exact hcancel.own
    · intro id hid
      rw [hcancel.others id hid, SchedulingQueue.eligibility_popHead, hown]
      exact Dict.get?_pop_of_ne _ hid
    · intro p s entry hentry
      rcases hcancel.held hentry with ⟨hpop, hnot⟩
      exact ⟨SchedulingQueue.holds_of_popHead hhead hpop, hnot⟩
    · intro p s entry hentry hid
      refine hcancel.kept ?_ hid
      rw [SchedulingQueue.holds_popHead hhead]
      split
      · next hps =>
        rcases hps with ⟨rfl, rfl⟩
        rcases hentry with ⟨dq, hdq, hmem⟩
        rw [hhead] at hdq
        cases hdq
        rcases List.mem_cons.mp hmem with rfl | hmem
        · exact absurd hown hid
        · exact hmem
      · exact hentry

/-! ## The invariant -/

/-- The request waits with these model hosts. -/
def WaitsWith (s : State) (requestId : String) (req : Request) (modelHosts : List Nat) : Prop :=
  s.requests.get? requestId = some req ∧ req.phase.waitingHosts = some modelHosts

structure QueueInv (s : State) : Prop where
  wf : s.core.queue.WF
  tierZero : ∀ p, s.core.queue.tiers.contains p = true → p = 0
  /-- Callbacks belong to waiting requests. -/
  callback : ∀ {id w}, s.core.queue.eligibility.get? id = some w →
    ∃ req, WaitsWith s id req w.modelHosts ∧ w.token = req.token
  /-- Entries belong to waiting requests. -/
  entry : ∀ {p session entry}, s.core.queue.Holds p session entry →
    ∃ req hosts, WaitsWith s entry.requestId req hosts ∧
      session = req.queueSessionId entry.requestId ∧ p = 0
  /-- A waiting request has its entry and its callback. -/
  waits : ∀ {id req hosts}, WaitsWith s id req hosts →
    s.core.queue.eligibility.get? id = some ⟨req.token, hosts⟩ ∧
      ∃ entry, s.core.queue.Holds 0 (req.queueSessionId id) entry ∧ entry.requestId = id

/-- A request that does not wait is forgotten by the queue. -/
theorem QueueInv.forgets (h : QueueInv s)
    (hnot : ∀ req hosts, ¬ WaitsWith s requestId req hosts) :
    s.core.queue.Forgets requestId := by
  constructor
  · cases hcallback : s.core.queue.eligibility.get? requestId with
    | none => rfl
    | some w =>
      rcases h.callback hcallback with ⟨req, hwaits, -⟩
      exact absurd hwaits (hnot req w.modelHosts)
  · intro p session entry hentry hid
    rcases h.entry hentry with ⟨req, hosts, hwaits, -⟩
    rw [hid] at hwaits
    exact hnot req hosts hwaits

/-- A request that takes a step waits as the step finds it. -/
theorem Actor.waitsWith (h : Actor s requestId req e) {r : Request} {hosts : List Nat} :
    WaitsWith s requestId r hosts ↔ r = req ∧ req.phase.waitingHosts = some hosts := by
  unfold WaitsWith
  cases h with
  | arrives absent new =>
    rw [absent, new.phase]
    simp [Phase.waitingHosts]
  | resumes present =>
    rw [present]
    constructor
    · rintro ⟨hr, hhosts⟩
      cases hr
      exact ⟨rfl, hhosts⟩
    · rintro ⟨rfl, hhosts⟩
      exact ⟨rfl, hhosts⟩

/-- Waiting requests after a step of one request. -/
theorem waitsWith_set {core : Core} {id : String} {r : Request} {hosts : List Nat} :
    WaitsWith ⟨core, s.requests.set requestId req'⟩ id r hosts ↔
      if id = requestId then r = req' ∧ req'.phase.waitingHosts = some hosts
      else WaitsWith s id r hosts := by
  unfold WaitsWith
  simp only [Dict.get?_set]
  by_cases hid : id = requestId
  · simp only [hid, if_true, Option.some.injEq]
    constructor
    · rintro ⟨rfl, hw⟩
      exact ⟨rfl, hw⟩
    · rintro ⟨rfl, hw⟩
      exact ⟨rfl, hw⟩
  · simp [hid]

theorem queueSessionId_of_params (h : SameParams req req') :
    req'.queueSessionId requestId = req.queueSessionId requestId := by
  unfold Request.queueSessionId
  rw [h.body]

section

variable {core : Core} (h : QueueInv s) (hactor : Actor s requestId req e)
include h hactor

/-- The request goes on as it was, waiting or not. -/
theorem QueueInv.keep (hparams : SameParams req req') (hqueue : core.queue = s.core.queue)
    (hwaits : req'.phase.waitingHosts = req.phase.waitingHosts) :
    QueueInv ⟨core, s.requests.set requestId req'⟩ := by
  -- the same requests wait, with the same token, hosts and session
  have hsame : ∀ {id r hosts}, WaitsWith s id r hosts →
      ∃ r', WaitsWith ⟨core, s.requests.set requestId req'⟩ id r' hosts ∧ r'.token = r.token ∧
        r'.queueSessionId id = r.queueSessionId id := by
    intro id r hosts hw
    by_cases hid : id = requestId
    · subst hid
      rcases hactor.waitsWith.mp hw with ⟨rfl, hhosts⟩
      refine ⟨req', waitsWith_set.mpr ?_, hparams.token, queueSessionId_of_params hparams⟩
      rw [if_pos rfl]
      exact ⟨rfl, hwaits.trans hhosts⟩
    · exact ⟨r, waitsWith_set.mpr (by rwa [if_neg hid]), rfl, rfl⟩
  constructor
  · rw [hqueue]
    exact h.wf
  · rw [hqueue]
    exact h.tierZero
  · intro id w hw
    rw [hqueue] at hw
    rcases h.callback hw with ⟨r, hr, htoken⟩
    rcases hsame hr with ⟨r', hr', htoken', -⟩
    exact ⟨r', hr', htoken.trans htoken'.symm⟩
  · intro p session entry hentry
    rw [hqueue] at hentry
    rcases h.entry hentry with ⟨r, hosts, hr, hsession, hp⟩
    rcases hsame hr with ⟨r', hr', -, hsession'⟩
    exact ⟨r', hosts, hr', hsession.trans hsession'.symm, hp⟩
  · intro id r hosts hr
    rw [waitsWith_set] at hr
    simp only
    rw [hqueue]
    split at hr
    · next hid =>
      subst hid
      rcases hr with ⟨rfl, hhosts⟩
      have hold := h.waits (hactor.waitsWith.mpr ⟨rfl, hwaits.symm.trans hhosts⟩)
      rwa [← hparams.token, ← queueSessionId_of_params hparams] at hold
    · exact h.waits hr

/-- The request begins to wait. -/
theorem QueueInv.enqueue (hparams : SameParams req req') {modelHosts : List Nat}
    (hqueue : core.queue = s.core.queue.enqueue requestId (req.queueSessionId requestId) 0
      req.arrivedAt (some ⟨req.token, modelHosts⟩))
    (hbefore : req.phase.waitingHosts = none) (hafter : req'.phase.waitingHosts = some modelHosts) :
    QueueInv ⟨core, s.requests.set requestId req'⟩ := by
  -- it did not wait before: the queue knows nothing of it
  have hnot : ∀ {r hosts}, ¬ WaitsWith s requestId r hosts := by
    intro r hosts hw
    rw [hactor.waitsWith, hbefore] at hw
    cases hw.2
  have hnew : WaitsWith ⟨core, s.requests.set requestId req'⟩ requestId req' modelHosts :=
    waitsWith_set.mpr (by rw [if_pos rfl]; exact ⟨rfl, hafter⟩)
  have hothers : ∀ {id r hosts}, id ≠ requestId → WaitsWith s id r hosts →
      WaitsWith ⟨core, s.requests.set requestId req'⟩ id r hosts :=
    fun hid hw => waitsWith_set.mpr (by rwa [if_neg hid])
  have helig : ∀ id, core.queue.eligibility.get? id =
      if id = requestId then some ⟨req.token, modelHosts⟩ else s.core.queue.eligibility.get? id := by
    intro id
    rw [hqueue, SchedulingQueue.enqueue, SchedulingQueue.eligibility_push]
    exact Dict.get?_set _
  have hholds : ∀ {p session entry}, core.queue.Holds p session entry ↔
      s.core.queue.Holds p session entry ∨
        (p = 0 ∧ session = req.queueSessionId requestId ∧
          entry = ⟨requestId, req.queueSessionId requestId, 0, req.arrivedAt⟩) := by
    intro p session entry
    rw [hqueue, SchedulingQueue.enqueue]
    exact SchedulingQueue.holds_push
  constructor
  · rw [hqueue]
    exact SchedulingQueue.wf_enqueue h.wf _ _ _ _ _
  · intro p hp
    simp only [hqueue, SchedulingQueue.enqueue] at hp
    rcases (SchedulingQueue.contains_tiers_push _ _).mp hp with rfl | hp
    · rfl
    · exact h.tierZero p hp
  · -- callbacks: the new one, and those of the others
    intro id w hw
    simp only at hw
    rw [helig] at hw
    split at hw
    · next hid =>
      subst hid
      cases hw
      exact ⟨req', hnew, hparams.token.symm⟩
    · next hid =>
      rcases h.callback hw with ⟨r, hr, htoken⟩
      exact ⟨r, hothers hid hr, htoken⟩
  · -- entries: the new one, and those of the others
    intro p session entry hentry
    rcases hholds.mp hentry with hold | ⟨rfl, rfl, rfl⟩
    · rcases h.entry hold with ⟨r, hosts, hr, hsession, hp⟩
      have hid : entry.requestId ≠ requestId := by
        intro hid
        rw [hid] at hr
        exact hnot hr
      exact ⟨r, hosts, hothers hid hr, hsession, hp⟩
    · exact ⟨req', modelHosts, hnew, (queueSessionId_of_params hparams).symm, rfl⟩
  · -- whoever waits has both
    intro id r hosts hr
    rw [waitsWith_set] at hr
    simp only
    split at hr
    · next hid =>
      subst hid
      rcases hr with ⟨rfl, hhosts⟩
      rw [hafter] at hhosts
      cases hhosts
      refine ⟨?_, ⟨id, req.queueSessionId id, 0, req.arrivedAt⟩, ?_, rfl⟩
      · rw [helig, if_pos rfl, hparams.token]
      · exact hholds.mpr (Or.inr ⟨rfl, queueSessionId_of_params hparams, rfl⟩)
    · next hid =>
      rcases h.waits hr with ⟨hcallback, entry, hentry, hown⟩
      refine ⟨?_, entry, hholds.mpr (Or.inl hentry), hown⟩
      rw [helig, if_neg hid]
      exact hcallback

/-- The request waits no longer. -/
theorem QueueInv.leave
    (hremoves : Removes requestId (req.queueSessionId requestId) s.core.queue core.queue)
    (hafter : req'.phase.waitingHosts = none) :
    QueueInv ⟨core, s.requests.set requestId req'⟩ := by
  have hothers : ∀ {id r hosts}, id ≠ requestId → WaitsWith s id r hosts →
      WaitsWith ⟨core, s.requests.set requestId req'⟩ id r hosts :=
    fun hid hw => waitsWith_set.mpr (by rwa [if_neg hid])
  constructor
  · exact hremoves.wf h.wf
  · exact hremoves.tiers h.tierZero
  · intro id w hw
    have hid : id ≠ requestId := by
      rintro rfl
      simp only at hw
      rw [hremoves.own] at hw
      cases hw
    simp only at hw
    rw [hremoves.others id hid] at hw
    rcases h.callback hw with ⟨r, hr, htoken⟩
    exact ⟨r, hothers hid hr, htoken⟩
  · -- its own entry has gone with it
    intro p session entry hentry
    rcases hremoves.held hentry with ⟨hold, hnot⟩
    rcases h.entry hold with ⟨r, hosts, hr, hsession, hp⟩
    have hid : entry.requestId ≠ requestId := by
      intro hid
      rw [hid] at hr hsession
      rcases hactor.waitsWith.mp hr with ⟨rfl, -⟩
      exact hnot ⟨hp, hsession, hid⟩
    exact ⟨r, hosts, hothers hid hr, hsession, hp⟩
  · intro id r hosts hr
    rw [waitsWith_set] at hr
    simp only
    split at hr
    · rw [hafter] at hr
      cases hr.2
    · next hid =>
      rcases h.waits hr with ⟨hcallback, entry, hentry, hown⟩
      refine ⟨?_, entry, hremoves.kept hentry ?_, hown⟩
      · rw [hremoves.others id hid]
        exact hcallback
      · rw [hown]
        exact hid

theorem QueueInv.own (hmoves : Moves cfg requestId s.core req core req') :
    QueueInv ⟨core, s.requests.set requestId req'⟩ := by
  have hqueue := hmoves.queue
  generalize hq : s.core.queue = q, hq' : core.queue = q' at hqueue
  cases hqueue with
  | keep waiting => exact h.keep hactor hmoves.params (hq'.trans hq.symm) waiting
  | enqueue before after =>
    exact h.enqueue hactor hmoves.params (by rw [hq', hq]) before after
  | leave loop after =>
    refine h.leave hactor ?_ after
    rw [hq', hq]
    exact loop.removes

end

theorem QueueInv.init (hstart : Started s) : QueueInv s := by
  constructor
  · rw [hstart.queue]
    exact SchedulingQueue.wf_empty
  · intro p hp
    rw [hstart.queue] at hp
    simp [Dict.contains] at hp
  · intro id w hw
    rw [hstart.queue] at hw
    simp at hw
  · rintro p session entry ⟨dq, hdq, -⟩
    rw [hstart.queue] at hdq
    simp [SchedulingQueue.tier] at hdq
  · rintro id r hosts ⟨hr, -⟩
    rw [hstart.requests] at hr
    simp at hr

theorem QueueInv.admin (h : QueueInv s) {core : Core} {e : AdminEvent}
    (hcore : adminStep cfg s.core e = some core) : QueueInv { s with core } := by
  have hqueue := (admin_queue hcore).1
  exact ⟨hqueue ▸ h.wf, hqueue ▸ h.tierZero, fun hw => h.callback (hqueue ▸ hw),
    fun hentry => h.entry (hqueue ▸ hentry), fun hw => hqueue ▸ h.waits hw⟩

/-- Queue and requests agree in every state of every run. -/
theorem queueInv_run (hstart : Started s₀) (hrun : Run (Fires (step cfg)) s₀ es s) :
    QueueInv s := by
  refine (run_steps hstart hrun).invariant QueueInv (.init hstart) ?_
  intro s e s' hsteps h
  cases hsteps with
  | admin hcore => exact h.admin hcore
  | own actor moves => exact h.own actor moves

end LlmHomeLab
