import LlmHomeLab.Gateway.System

/-! # No request waits forever

Before it has a slot, a request asks each node it has found for its models at most once, and
sleeps until `DISPATCH_WAIT_TIMEOUT_S` is over. Whatever its `await`s come back with and whatever
else runs in the gateway, it is then answered, refused or sent to a backend.
-/

namespace LlmHomeLab

variable {cfg : Config} {s s' s₀ : State} {e : Event} {es : List Event} {requestId : String}
  {now : Int} {core core' : Core} {req req' : Request} {n : Nat}

/-! ## Counting -/

def Event.resumes (requestId : String) : Event → Bool
  | .resume id _ _ => id = requestId
  | _ => false

/-- How often the request has been resumed. -/
def resumptions (requestId : String) (es : List Event) : Nat :=
  es.countP (Event.resumes requestId)

/-- One answer for each host of the snapshot, and the sleeps of the wait loop. -/
def awaitBudget (cfg : Config) (hosts : Nat) : Nat :=
  hosts + ⌈cfg.dispatchWaitTimeout / cfg.dispatchPollInterval⌉₊

/-- Where a request can be after `n` resumptions, with `k` hosts in its snapshot. -/
inductive Paced (cfg : Config) (k : Nat) (stream : Bool) (n : Nat) : Phase → Prop
  | discovering {ref : Nat} {d : Discovery} (left : n + 1 + d.pending.length ≤ k) :
      Paced cfg k stream n (.discovering ref d)
  | waiting {w : Wait} (again : w.waited < cfg.dispatchWaitTimeout)
      (slept : n * cfg.dispatchPollInterval ≤ k * cfg.dispatchPollInterval + w.waited) :
      Paced cfg k stream n (.waiting w)
  | completing {hostId : String} {failoverInPlay : Bool} (within : n ≤ awaitBudget cfg k) :
      Paced cfg k stream n (.completing hostId failoverInPlay)
  | streaming {hostId : String} {s : StreamPhase} (streamed : stream = true) :
      Paced cfg k stream n (.streaming hostId s)
  | ended {outcome : Outcome} (within : stream = false → n ≤ awaitBudget cfg k + 1) :
      Paced cfg k stream n (.ended outcome)

def Request.Paced (cfg : Config) (n : Nat) (req : Request) : Prop :=
  LlmHomeLab.Paced cfg req.snapshot.length req.body.stream n req.phase

theorem paced_fail (h : n ≤ awaitBudget cfg req.snapshot.length + 1) (e : Exn) :
    (req.fail e).Paced cfg n :=
  .ended fun _ => h

/-- A request that sleeps again has a resumption left. -/
theorem lt_awaitBudget {k : Nat} {waited : ℚ} (hpoll : 0 < cfg.dispatchPollInterval)
    (again : waited < cfg.dispatchWaitTimeout)
    (slept : n * cfg.dispatchPollInterval ≤ k * cfg.dispatchPollInterval + waited) :
    n < awaitBudget cfg k := by
  have hlt : (n : ℚ) * cfg.dispatchPollInterval <
      (k + cfg.dispatchWaitTimeout / cfg.dispatchPollInterval) * cfg.dispatchPollInterval := by
    rw [add_mul, div_mul_cancel₀ _ hpoll.ne']
    linarith
  have hsum := lt_of_mul_lt_mul_right hlt hpoll.le
  have hceil := Nat.le_ceil (cfg.dispatchWaitTimeout / cfg.dispatchPollInterval)
  have hcast : (n : ℚ) < (awaitBudget cfg k : ℚ) := by
    rw [awaitBudget, Nat.cast_add]
    linarith
  exact_mod_cast hcast

/-! ## One function after the other -/

theorem releaseThen_cases {P : Request → Prop} {hostId : String}
    {next : Core → Request → Core × Request}
    (hnext : ∀ core releases, P (next core { req with releases }).2)
    (hraises : ∀ releases, P ({ req with releases }.fail (.builtin .keyError))) :
    P (releaseThen core req hostId next).2 := by
  unfold releaseThen
  split
  · exact hnext _ _
  · exact hraises _

theorem route_paced {candidates : List RoutingCandidate} {failoverInPlay : Bool}
    (h : n ≤ awaitBudget cfg req.snapshot.length) :
    (route requestId core req candidates failoverInPlay).2.Paced cfg n := by
  have hfail : n ≤ awaitBudget cfg req.snapshot.length + 1 := Nat.le_succ_of_le h
  unfold route
  simp only
  split
  · exact paced_fail hfail _
  · split
    · split
      · exact paced_fail hfail _
      · split
        · next hstream =>
          unfold openStream
          simp only
          split
          · exact .streaming hstream
          · exact releaseThen_cases (fun _ _ => paced_fail hfail _) fun _ => paced_fail hfail _
        · exact .completing h
    · exact paced_fail hfail _

theorem sleepAgain_paced {w : Wait}
    (hfail : n ≤ awaitBudget cfg req.snapshot.length + 1)
    (hslept : n * cfg.dispatchPollInterval ≤
      req.snapshot.length * cfg.dispatchPollInterval + w.waited) :
    (sleepAgain cfg requestId core req w).2.Paced cfg n := by
  unfold sleepAgain
  split
  · next hagain => exact .waiting hagain hslept
  · exact paced_fail hfail _

theorem afterDiscovery_paced {capable : List Nat} {budgetBlocked : Bool}
    (hpoll : 0 < cfg.dispatchPollInterval) (h : n ≤ req.snapshot.length) :
    (afterDiscovery cfg requestId core req capable budgetBlocked).2.Paced cfg n := by
  have hbudget : n ≤ awaitBudget cfg req.snapshot.length := Nat.le_add_right_of_le h
  have hfail : n ≤ awaitBudget cfg req.snapshot.length + 1 := Nat.le_succ_of_le hbudget
  unfold afterDiscovery
  simp only
  split
  · exact paced_fail hfail _
  · split
    · exact paced_fail hfail _
    · refine sleepAgain_paced hfail ?_
      -- nothing has been slept yet
      rw [add_zero]
      exact mul_le_mul_of_nonneg_right (by exact_mod_cast h) hpoll.le
    · exact route_paced hbudget

/-- Discovery only takes hosts off its list. -/
theorem discover_pending {reg : HostRegistry} {model : String} {capable pending : List Nat}
    {anyBudgetBlocked : Bool} {st st' : Scratch} {ref : Nat} {d : Discovery}
    (h : discover cfg reg model capable anyBudgetBlocked pending st = (.awaiting ref d, st')) :
    d.pending.length < pending.length := by
  induction pending generalizing capable st with
  | nil => cases h
  | cons head rest ih =>
    unfold discover at h
    simp only at h
    split at h
    · exact (ih h).trans (Nat.lt_succ_self _)
    · split at h
      · cases h
      · split at h
        · cases h
          exact Nat.lt_succ_self _
        · exact (ih h).trans (Nat.lt_succ_self _)

@[simp]
theorem listed_pending (d : Discovery) (reg : HostRegistry) (model : String) (ref : Nat)
    (loaded : Option (List String)) : (d.listed reg model ref loaded).pending = d.pending := by
  unfold Discovery.listed
  simp only
  split
  · rfl
  · split
    · rfl
    · split
      · rfl
      · rfl

theorem continueDiscovery_paced {d : Discovery} (hpoll : 0 < cfg.dispatchPollInterval)
    (h : n + d.pending.length ≤ req.snapshot.length) :
    (continueDiscovery cfg requestId core req d).2.Paced cfg n := by
  have hn : n ≤ req.snapshot.length := le_of_add_le_left h
  unfold continueDiscovery
  split
  · exact paced_fail (Nat.le_succ_of_le (Nat.le_add_right_of_le hn)) _
  · next d' _ hstop =>
    have hpending := discover_pending hstop
    have hleft : n + 1 + d'.pending.length ≤ req.snapshot.length := by omega
    exact .discovering hleft
  · exact afterDiscovery_paced hpoll hn

theorem begin_paced (hpoll : 0 < cfg.dispatchPollInterval) :
    (begin cfg requestId core req).2.Paced cfg 0 := by
  unfold begin
  simp only
  split
  · exact continueDiscovery_paced hpoll (by simp)
  · split
    · exact paced_fail (Nat.zero_le _) _
    · exact continueDiscovery_paced hpoll (by simp)

theorem poll_paced {w : Wait} (hpoll : 0 < cfg.dispatchPollInterval)
    (again : w.waited < cfg.dispatchWaitTimeout)
    (slept : n * cfg.dispatchPollInterval ≤
      req.snapshot.length * cfg.dispatchPollInterval + w.waited) :
    (poll cfg requestId core req w).2.Paced cfg (n + 1) := by
  have hbudget : n + 1 ≤ awaitBudget cfg req.snapshot.length := lt_awaitBudget hpoll again slept
  have hfail : n + 1 ≤ awaitBudget cfg req.snapshot.length + 1 := Nat.le_succ_of_le hbudget
  have hslept : ((n + 1 : Nat) : ℚ) * cfg.dispatchPollInterval ≤
      req.snapshot.length * cfg.dispatchPollInterval +
        (w.waited + cfg.dispatchPollInterval) := by
    push_cast
    linarith
  unfold poll
  simp only
  split
  · exact paced_fail hfail _
  · exact sleepAgain_paced hfail hslept
  · split
    · exact paced_fail hfail _
    · split
      · exact route_paced hbudget
      · exact sleepAgain_paced hfail hslept

theorem afterComplete_ended (requestId : String) (now : Int) (core : Core) (req : Request)
    (hostId : String) (failoverInPlay : Bool) (result : Except Exn BackendResponse) :
    ∃ outcome, (afterComplete requestId now core req hostId failoverInPlay result).2.phase =
      .ended outcome := by
  unfold afterComplete
  split
  · refine releaseThen_cases (P := fun req => ∃ outcome, req.phase = .ended outcome) ?_ ?_
    · exact fun core _ => answer_ends requestId now core _ hostId failoverInPlay _
    · exact fun _ => ⟨_, rfl⟩
  · exact releaseThen_cases (P := fun req => ∃ outcome, req.phase = .ended outcome)
      (fun _ _ => ⟨_, rfl⟩) fun _ => ⟨_, rfl⟩
  · exact releaseThen_cases (P := fun req => ∃ outcome, req.phase = .ended outcome)
      (fun _ _ => ⟨_, rfl⟩) fun _ => ⟨_, rfl⟩

/-- The phases of a streamed response. -/
def Phase.streamed : Phase → Prop
  | .streaming _ _ => True
  | .ended _ => True
  | _ => False

theorem resumeStream_streamed {hostId : String} {stream : StreamPhase} {signal : Signal}
    (h : resumeStream now core req hostId stream signal = some (core', req')) :
    req'.phase.streamed := by
  have hrelease : ∀ {next : Core → Request → Core × Request},
      some (releaseThen core req hostId next) = some (core', req') →
      (∀ core req, (next core req).2.phase.streamed) → req'.phase.streamed := by
    intro next h hnext
    have hphase : (releaseThen core req hostId next).2.phase.streamed :=
      releaseThen_cases (P := fun req => req.phase.streamed) (fun _ _ => hnext _ _)
        fun _ => trivial
    rwa [Option.some.inj h] at hphase
  unfold resumeStream at h
  split at h
  · cases h
    trivial
  · exact hrelease h fun _ _ => trivial
  · cases h
    trivial
  · next head st =>
    have hphase : (afterLastChunk now core req hostId head st).2.phase.streamed := by
      unfold afterLastChunk
      split
      · exact releaseThen_cases (P := fun req => req.phase.streamed) (fun _ _ => trivial)
          fun _ => trivial
      · trivial
    rwa [Option.some.inj h] at hphase
  · split at h
    · cases h
      trivial
    · split at h
      · cases h
        trivial
      · cases h
        trivial
  · cases h
    trivial
  · cases h
    trivial
  · exact hrelease h fun _ _ => trivial
  · exact hrelease h fun _ _ => trivial
  · exact hrelease h fun _ _ => trivial
  · exact hrelease h fun _ _ => trivial
  · cases h
    trivial
  · cases h
    trivial
  · cases h

/-- One resumption of a request. -/
theorem resume_paced {signal : Signal} (hpoll : 0 < cfg.dispatchPollInterval)
    (hbook : core.scratch.book.Consistent) (h : req.Paced cfg n)
    (hresume : resume cfg requestId now core req signal = some (core', req')) :
    req'.Paced cfg (n + 1) := by
  have hparams := (resume_moves hbook hresume).params
  unfold Request.Paced at h
  generalize hphase : req.phase = phase at h
  unfold resume at hresume
  rw [hphase] at hresume
  cases h with
  | @discovering ref d left =>
    have hn : n + 1 ≤ req.snapshot.length := le_of_add_le_left left
    cases signal with
    | listed result =>
      cases result with
      | error e =>
        cases hresume
        exact paced_fail (Nat.le_succ_of_le (Nat.le_add_right_of_le hn)) e
      | ok loaded =>
        have hpaced : (continueDiscovery cfg requestId core req
            (d.listed core.registry req.body.model ref loaded)).2.Paced cfg (n + 1) :=
          continueDiscovery_paced hpoll (by rwa [listed_pending])
        rwa [Option.some.inj hresume] at hpaced
    | slept | completed | sent | chunk | closed | interrupted => cases hresume
  | @waiting w again slept =>
    cases signal with
    | slept =>
      have hpaced : (poll cfg requestId core req w).2.Paced cfg (n + 1) :=
        poll_paced hpoll again slept
      rwa [Option.some.inj hresume] at hpaced
    | interrupted e =>
      cases hresume
      exact paced_fail (Nat.le_succ_of_le (lt_awaitBudget hpoll again slept)) e
    | listed | completed | sent | chunk | closed => cases hresume
  | @completing hostId failoverInPlay within =>
    cases signal with
    | completed result =>
      obtain ⟨outcome, hends⟩ :=
        afterComplete_ended requestId now core req hostId failoverInPlay result
      rw [Option.some.inj hresume] at hends
      rw [Request.Paced, hends, hparams.snapshot]
      exact .ended fun _ => Nat.succ_le_succ within
    | listed | slept | sent | chunk | closed | interrupted => cases hresume
  | streaming streamed =>
    have hstreamed := resumeStream_streamed hresume
    rw [Request.Paced, hparams.snapshot, hparams.body]
    cases hphase' : req'.phase with
    | streaming => exact .streaming streamed
    | ended => exact .ended fun h => absurd h (by simp [streamed])
    | arrived | discovering | waiting | completing => simp [hphase', Phase.streamed] at hstreamed
  | ended => cases signal <;> cases hresume

/-! ## Runs -/

structure PaceInv (cfg : Config) (es : List Event) (s : State) : Prop where
  paced : ∀ {id req}, s.requests.get? id = some req → req.Paced cfg (resumptions id es)
  absent : ∀ {id}, s.requests.get? id = none → resumptions id es = 0

theorem resumptions_snoc (requestId : String) (es : List Event) (e : Event) :
    resumptions requestId (es ++ [e]) =
      resumptions requestId es + if e.resumes requestId then 1 else 0 := by
  rw [resumptions, List.countP_append, List.countP_singleton]
  rfl

theorem resumptions_other (h : e.resumes requestId = false) :
    resumptions requestId (es ++ [e]) = resumptions requestId es := by
  simp [resumptions_snoc, h]

theorem PaceInv.step (hpoll : 0 < cfg.dispatchPollInterval)
    (hbook : s.core.scratch.book.Consistent) (hinv : PaceInv cfg es s)
    (h : step cfg s e = some s') : PaceInv cfg (es ++ [e]) s' := by
  rcases step_cases h with ⟨a, core, rfl, -, rfl⟩ | ⟨id, req, core, req', hran, rfl⟩
  · constructor
    · intro id req hreq
      rw [resumptions_other rfl]
      exact hinv.paced hreq
    · intro id hid
      rw [resumptions_other rfl]
      exact hinv.absent hid
  · -- the events of one request do not count for another
    have hother : ∀ {other}, other ≠ id → e.resumes other = false := by
      intro other hne
      cases hran with
      | begins => rfl
      | resumes => simpa [Event.resumes] using Ne.symm hne
    have hown : req'.Paced cfg (resumptions id (es ++ [e])) := by
      cases hran with
      | begins absent =>
        rw [resumptions_other rfl, hinv.absent absent]
        exact begin_paced hpoll
      | resumes present returns =>
        rw [resumptions_snoc, if_pos (by simp [Event.resumes])]
        exact resume_paced hpoll hbook (hinv.paced present) returns
    constructor
    · intro other r hr
      by_cases hne : other = id
      · subst hne
        rw [Dict.get?_set_self] at hr
        cases hr
        exact hown
      · rw [Dict.get?_set_of_ne _ hne] at hr
        rw [resumptions_other (hother hne)]
        exact hinv.paced hr
    · intro other hr
      have hne : other ≠ id := by
        rintro rfl
        simp at hr
      rw [Dict.get?_set_of_ne _ hne] at hr
      rw [resumptions_other (hother hne)]
      exact hinv.absent hr

theorem paceInv_run (hpoll : 0 < cfg.dispatchPollInterval) (hstart : Started s₀)
    (hrun : Run (Fires (step cfg)) s₀ es s) : PaceInv cfg es s := by
  induction hrun with
  | nil => exact ⟨fun h => by simp [hstart.requests] at h, fun _ => rfl⟩
  | snoc hrun hstep ih => exact ih.step hpoll (book_consistent hstart hrun) hstep

/-- What the `await` a request is suspended in can come back with. -/
def Phase.awaits : Phase → Signal → Bool
  | .discovering _ _, .listed _ => true
  | .waiting _, .slept => true
  | .waiting _, .interrupted _ => true
  | .completing _ _, .completed _ => true
  | .streaming _ .starting, .sent _ _ => true
  | .streaming _ (.pulling _ _), .chunk _ => true
  | .streaming _ (.sending _ _ _), .sent _ _ => true
  | .streaming _ (.closing _), .closed _ => true
  | .streaming _ .finishing, .sent _ _ => true
  | _, _ => false

theorem resumeStream_goes_on {hostId : String} {stream : StreamPhase} {signal : Signal}
    (h : (Phase.streaming hostId stream).awaits signal = true) :
    (resumeStream now core req hostId stream signal).isSome := by
  cases stream with
  | starting =>
    cases signal with
    | sent head result => cases result <;> rfl
    | listed | slept | completed | chunk | closed | interrupted => cases h
  | pulling head st =>
    cases signal with
    | chunk result =>
      cases result with
      | error e => rfl
      | ok chunk =>
        cases chunk with
        | none => rfl
        | some chunk =>
          simp only [resumeStream]
          split
          · rfl
          · split
            · rfl
            · rfl
    | listed | slept | completed | sent | closed | interrupted => cases h
  | sending head st done =>
    cases signal with
    | sent _ result => cases result <;> cases done <;> rfl
    | listed | slept | completed | chunk | closed | interrupted => cases h
  | closing e =>
    cases signal with
    | closed result => cases result <;> rfl
    | listed | slept | completed | sent | chunk | interrupted => cases h
  | finishing =>
    cases signal with
    | sent _ result => cases result <;> rfl
    | listed | slept | completed | chunk | closed | interrupted => cases h

/-- Whatever its `await` comes back with, the request goes on. -/
theorem resume_goes_on {signal : Signal} (h : req.phase.awaits signal = true) :
    (resume cfg requestId now core req signal).isSome := by
  unfold resume
  cases hphase : req.phase with
  | arrived => simp [hphase, Phase.awaits] at h
  | discovering ref d =>
    cases signal with
    | listed result => cases result <;> rfl
    | slept | completed | sent | chunk | closed | interrupted => simp [hphase, Phase.awaits] at h
  | waiting w =>
    cases signal with
    | slept | interrupted => rfl
    | listed | completed | sent | chunk | closed => simp [hphase, Phase.awaits] at h
  | completing hostId failoverInPlay =>
    cases signal with
    | completed result => rfl
    | listed | slept | sent | chunk | closed | interrupted => simp [hphase, Phase.awaits] at h
  | streaming hostId stream =>
    rw [hphase] at h
    exact resumeStream_goes_on h
  | ended outcome => simp [hphase, Phase.awaits] at h

/-- A request that is not over awaits something. -/
theorem Paced.awaits {k : Nat} {stream : Bool} {phase : Phase} (h : Paced cfg k stream n phase) :
    (∃ outcome, phase = .ended outcome) ∨ ∃ signal, phase.awaits signal = true := by
  cases h with
  | discovering => exact Or.inr ⟨.listed (.ok none), rfl⟩
  | waiting => exact Or.inr ⟨.slept, rfl⟩
  | completing => exact Or.inr ⟨.completed (.error .backendError), rfl⟩
  | @streaming _ s =>
    cases s with
    | starting | sending | finishing => exact Or.inr ⟨.sent ⟨"", 0, ""⟩ (.ok ()), rfl⟩
    | pulling => exact Or.inr ⟨.chunk (.ok none), rfl⟩
    | closing => exact Or.inr ⟨.closed (.ok ()), rfl⟩
  | ended => exact Or.inl ⟨_, rfl⟩

end LlmHomeLab
