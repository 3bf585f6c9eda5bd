import LlmHomeLab.Health.Monitor
import LlmHomeLab.Lib.Alternation

/-! # When a backend's health changes

A `HealthMonitor` over a run of probes, in any order of the backends. What it keeps for a
backend is a function of the probes of that backend: how many failures it ends with, when the
last failure was, and how many successes since then count towards a recovery.
-/

namespace LlmHomeLab

/-- A call of `record_probe`. -/
structure Probe where
  backendId : String
  healthy : Bool
  time : Int
deriving DecidableEq, Repr

/-! ## The history of one backend -/

def probesOf (backendId : String) (probes : List Probe) : List Probe :=
  probes.filter (·.backendId = backendId)

/-- The failures a history ends with. A backend that recovers does so at a success, so that
for a healthy backend these are the failures since it last succeeded or recovered. -/
def trailingFailures (own : List Probe) : Nat :=
  (own.reverse.takeWhile fun p => !p.healthy).length

def lastFailure (own : List Probe) : Option Probe := own.reverse.find? fun p => !p.healthy

/-- The successes after the last failure that were recorded when the cooldown was over. -/
def countedSuccesses (cooldown : Int) (own : List Probe) : Nat :=
  match lastFailure own with
  | none => 0
  | some last =>
    (own.reverse.takeWhile (·.healthy)).countP fun p => last.time + cooldown ≤ p.time

section

variable {own : List Probe} {p : Probe} {cooldown : Int}

theorem trailingFailures_failed (h : p.healthy = false) :
    trailingFailures (own ++ [p]) = trailingFailures own + 1 := by
  simp [trailingFailures, h]

theorem trailingFailures_succeeded (h : p.healthy = true) :
    trailingFailures (own ++ [p]) = 0 := by
  simp [trailingFailures, h]

theorem lastFailure_failed (h : p.healthy = false) : lastFailure (own ++ [p]) = some p := by
  simp [lastFailure, h]

theorem lastFailure_succeeded (h : p.healthy = true) :
    lastFailure (own ++ [p]) = lastFailure own := by
  simp [lastFailure, h]

theorem countedSuccesses_failed (h : p.healthy = false) :
    countedSuccesses cooldown (own ++ [p]) = 0 := by
  rw [countedSuccesses, lastFailure_failed h]
  simp [h]

theorem countedSuccesses_succeeded {last : Probe} (h : p.healthy = true)
    (hlast : lastFailure own = some last) :
    countedSuccesses cooldown (own ++ [p]) =
      countedSuccesses cooldown own + if last.time + cooldown ≤ p.time then 1 else 0 := by
  rw [countedSuccesses, countedSuccesses, lastFailure_succeeded h, hlast]
  simp [h, List.countP_cons]

end

/-! ## What the monitor keeps of it -/

namespace HealthMonitor

variable {monitor : HealthMonitor} {own : List Probe} {p : Probe} {state : BackendHealthState}

/-- The state of a backend with the history `own`. -/
structure Tracks (monitor : HealthMonitor) (own : List Probe) (state : BackendHealthState) :
    Prop where
  history : state.history = (own.map (·.healthy)).rtake 20
  healthy : state.isHealthy = true → state.consecutiveFailures = trailingFailures own ∧
    trailingFailures own < monitor.failureThreshold
  unhealthy : state.isHealthy = false → ∃ last, lastFailure own = some last ∧
    state.unhealthySince = some last.time ∧
    state.consecutiveSuccesses = countedSuccesses monitor.cooldown own ∧
    countedSuccesses monitor.cooldown own < monitor.recoveryThreshold

theorem pushHistory_rtake (history : List Bool) (healthy : Bool) :
    pushHistory (history.rtake 20) healthy = (history ++ [healthy]).rtake 20 := by
  simp only [pushHistory, List.rtake, List.length_append, List.length_drop, List.length_cons,
    List.length_nil]
  rw [← List.drop_append_of_le_length (by omega), List.drop_drop]
  congr 1
  omega

theorem Tracks.new (hf : 1 ≤ monitor.failureThreshold) : Tracks monitor [] {} where
  history := rfl
  healthy _ := ⟨rfl, by simp [trailingFailures]; omega⟩
  unhealthy h := by cases h

/-- A healthy backend fails over at the failure that makes the threshold full. -/
theorem probed_of_healthy (ht : Tracks monitor own state) (hs : state.isHealthy = true) :
    (monitor.probed state p.healthy p.time).1.isHealthy = false ↔
      p.healthy = false ∧ trailingFailures own + 1 = monitor.failureThreshold := by
  have hcount := ht.healthy hs
  simp only [probed, hs, Bool.not_true, Bool.false_eq_true, if_false]
  cases hp : p.healthy with
  | true => simp
  | false =>
    simp only [Bool.false_eq_true, if_false, countFailure, hcount.1, true_and]
    split
    · simp only [true_iff]
      omega
    · simp only [Bool.true_eq_false, false_iff]
      omega

/-- An unhealthy backend recovers at the counted success that makes the threshold full. -/
theorem probed_of_unhealthy (ht : Tracks monitor own state) (hs : state.isHealthy = false) :
    (monitor.probed state p.healthy p.time).1.isHealthy = true ↔
      p.healthy = true ∧ ∃ last, lastFailure own = some last ∧
        last.time + monitor.cooldown ≤ p.time ∧
        countedSuccesses monitor.cooldown own + 1 = monitor.recoveryThreshold := by
  rcases ht.unhealthy hs with ⟨last, hlast, hsince, hcount, hlt⟩
  simp only [probed, hs, Bool.not_false, if_true, updateUnhealthyState, hsince, hcount, hlast,
    Option.some.injEq, exists_eq_left']
  cases hp : p.healthy with
  | false => simp
  | true =>
    simp only [Bool.not_true, Bool.false_eq_true, if_false, true_and]
    split
    · next hearly =>
      -- still cooling down
      simp only [Bool.false_eq_true, false_iff, not_and]
      omega
    · split
      · simp only [true_iff]
        omega
      · simp only [Bool.false_eq_true, false_iff, not_and]
        omega

/-- The monitor reports a change exactly when there is one. -/
theorem probed_changed (monitor : HealthMonitor) (state : BackendHealthState) (p : Probe) :
    (monitor.probed state p.healthy p.time).2 = true ↔
      (monitor.probed state p.healthy p.time).1.isHealthy = !state.isHealthy := by
  cases hs : state.isHealthy with
  | true =>
    simp only [probed, hs, Bool.not_true, Bool.false_eq_true, if_false]
    split
    · simp
    · unfold countFailure
      simp only
      split <;> simp
  | false =>
    simp only [probed, hs, Bool.not_false, if_true, updateUnhealthyState]
    split
    · simp
    · split
      · simp
      · split
        · simp
        · split <;> simp

theorem probed_history :
    (monitor.probed state p.healthy p.time).1.history = pushHistory state.history p.healthy := by
  simp only [probed]
  split
  · unfold updateUnhealthyState
    repeat' split
    all_goals rfl
  · split
    · rfl
    · unfold countFailure
      simp only
      split <;> rfl

/-- One probe of the backend. -/
theorem Tracks.probed (hf : 1 ≤ monitor.failureThreshold) (hr : 1 ≤ monitor.recoveryThreshold)
    (ht : Tracks monitor own state) :
    Tracks monitor (own ++ [p]) (monitor.probed state p.healthy p.time).1 where
  history := by
    rw [probed_history, ht.history, pushHistory_rtake]
    simp
  healthy h := by
    cases hs : state.isHealthy with
    | true =>
      have hcount := ht.healthy hs
      cases hp : p.healthy with
      | true =>
        simp only [trailingFailures_succeeded hp, HealthMonitor.probed, hs, Bool.not_true,
          Bool.false_eq_true, if_false, if_true]
        exact ⟨rfl, by omega⟩
      | false =>
        simp only [trailingFailures_failed hp]
        simp only [HealthMonitor.probed, hs, hp, Bool.not_true, Bool.false_eq_true, if_false,
          countFailure] at h ⊢
        split at h
        · cases h
        · next hlt =>
          rw [if_neg hlt]
          simp only
          omega
    | false =>
      -- the probe is a success, and the one that recovers
      have hrec := (probed_of_unhealthy ht hs).mp h
      rcases ht.unhealthy hs with ⟨last, hlast, hsince, hcount, hlt⟩
      rcases hrec with ⟨hp, last', hlast', hcool, hfull⟩
      rw [hlast] at hlast'
      cases hlast'
      rw [trailingFailures_succeeded hp]
      simp only [HealthMonitor.probed, hs, hp, Bool.not_false, if_true, updateUnhealthyState,
        hsince, hcount, Bool.not_true, Bool.false_eq_true, if_false]
      rw [if_neg (by omega), if_pos (by omega)]
      exact ⟨rfl, by omega⟩
  unhealthy h := by
    cases hs : state.isHealthy with
    | true =>
      -- the probe is a failure, and the one that fails over
      have hover := (probed_of_healthy ht hs).mp h
      have hcount := ht.healthy hs
      refine ⟨p, lastFailure_failed hover.1, ?_⟩
      rw [countedSuccesses_failed hover.1]
      simp only [HealthMonitor.probed, hs, hover.1, Bool.not_true, Bool.false_eq_true, if_false,
        countFailure, hcount.1]
      rw [if_pos (by omega)]
      exact ⟨rfl, rfl, by omega⟩
    | false =>
      rcases ht.unhealthy hs with ⟨last, hlast, hsince, hcount, hlt⟩
      cases hp : p.healthy with
      | false =>
        refine ⟨p, lastFailure_failed hp, ?_⟩
        rw [countedSuccesses_failed hp]
        simp only [HealthMonitor.probed, hs, Bool.not_false, if_true, updateUnhealthyState]
        exact ⟨trivial, rfl, by omega⟩
      | true =>
        refine ⟨last, (lastFailure_succeeded hp).trans hlast, ?_⟩
        rw [countedSuccesses_succeeded hp hlast]
        -- had the threshold become full, the backend would be healthy now
        have hless : last.time + monitor.cooldown ≤ p.time →
            countedSuccesses monitor.cooldown own + 1 ≠ monitor.recoveryThreshold := by
          intro hcool hfull
          have hrec := (probed_of_unhealthy ht hs).mpr ⟨hp, last, hlast, hcool, hfull⟩
          rw [h] at hrec
          cases hrec
        simp only [HealthMonitor.probed, hs, Bool.not_false, if_true, updateUnhealthyState,
          hsince, hcount, Bool.not_true, Bool.false_eq_true, if_false]
        by_cases hcool : last.time + monitor.cooldown ≤ p.time
        · have hne := hless hcool
          rw [if_neg (by omega), if_neg (by omega), if_pos hcool]
          exact ⟨rfl, by push_cast; omega, by push_cast; omega⟩
        · rw [if_pos (by omega), if_neg hcool]
          exact ⟨rfl, by simp, by push_cast; omega⟩

/-! ## A run of probes -/

/-- A new monitor with these settings. -/
def new (failureThreshold recoveryThreshold cooldown : Int) : HealthMonitor :=
  { failureThreshold, recoveryThreshold, cooldown }

/-- The monitor after these calls. -/
def after (monitor : HealthMonitor) (probes : List Probe) : HealthMonitor :=
  probes.foldl (fun m p => m.recordProbe p.backendId p.healthy p.time) monitor

def eventsOf (monitor : HealthMonitor) (backendId : String) : List FailoverEvent :=
  monitor.events.filter (·.backendId = backendId)

variable {probes : List Probe} {backendId : String}

theorem after_snoc : monitor.after (probes ++ [p]) =
    (monitor.after probes).recordProbe p.backendId p.healthy p.time := by
  simp [after]

theorem stateOf_recordProbe_self {healthy : Bool} {now : Int} :
    (monitor.recordProbe backendId healthy now).stateOf backendId =
      (monitor.probed (monitor.stateOf backendId) healthy now).1 := by
  simp [recordProbe, stateOf]

theorem eventsOf_recordProbe_self (monitor : HealthMonitor) (backendId : String) (healthy : Bool)
    (now : Int) :
    (monitor.recordProbe backendId healthy now).eventsOf backendId =
      if (monitor.probed (monitor.stateOf backendId) healthy now).2 then
        monitor.eventsOf backendId ++ [⟨backendId, monitor.isHealthy backendId,
          (monitor.probed (monitor.stateOf backendId) healthy now).1.isHealthy, now⟩]
      else monitor.eventsOf backendId := by
  simp only [recordProbe, eventsOf, isHealthy]
  split <;> simp

theorem eventsOf_recordProbe_of_ne (monitor : HealthMonitor) {other : String}
    (h : other ≠ backendId) (healthy : Bool) (now : Int) :
    (monitor.recordProbe backendId healthy now).eventsOf other =
      monitor.eventsOf other := by
  simp only [recordProbe, eventsOf]
  split
  · simp [h.symm]
  · rfl

/-- What a run of probes leaves for a backend with the history `own`. -/
structure Settled (monitor : HealthMonitor) (backendId : String) (own : List Probe) : Prop where
  tracks : Tracks monitor own (monitor.stateOf backendId)
  alternates : Alternates false ((monitor.eventsOf backendId).map (·.toHealthy))
  current : monitor.isHealthy backendId =
    !following false ((monitor.eventsOf backendId).map (·.toHealthy))
  reversed : ∀ e ∈ monitor.eventsOf backendId, e.fromHealthy = !e.toHealthy

theorem Settled.recordProbe_self (hf : 1 ≤ monitor.failureThreshold)
    (hr : 1 ≤ monitor.recoveryThreshold) (h : Settled monitor p.backendId own) :
    Settled (monitor.recordProbe p.backendId p.healthy p.time) p.backendId (own ++ [p]) := by
  have hnext := h.tracks.probed (p := p) hf hr
  have hchanged := probed_changed monitor (monitor.stateOf p.backendId) p
  have hcurrent := h.current
  have htracks : Tracks (monitor.recordProbe p.backendId p.healthy p.time) (own ++ [p])
      ((monitor.recordProbe p.backendId p.healthy p.time).stateOf p.backendId) := by
    rw [stateOf_recordProbe_self]
    exact ⟨hnext.history, hnext.healthy, hnext.unhealthy⟩
  by_cases hflip : (monitor.probed (monitor.stateOf p.backendId) p.healthy p.time).2 = true
  · -- the new event says what the last one did not
    have hnew := hchanged.mp hflip
    have hevents := eventsOf_recordProbe_self monitor p.backendId p.healthy p.time
    rw [if_pos hflip] at hevents
    refine ⟨htracks, ?_, ?_, ?_⟩
    · rw [hevents, List.map_append, List.map_cons, List.map_nil, Alternates.snoc_iff]
      refine ⟨h.alternates, ?_⟩
      rw [hnew]
      simp only [isHealthy] at hcurrent
      rw [hcurrent, Bool.not_not]
    · rw [hevents, List.map_append, List.map_cons, List.map_nil, Alternates.following_snoc,
        Bool.not_not, isHealthy, stateOf_recordProbe_self]
    · intro e he
      rw [hevents] at he
      rcases List.mem_append.mp he with hold | hlast
      · exact h.reversed e hold
      · rw [List.mem_singleton] at hlast
        subst hlast
        simp only [isHealthy, hnew, Bool.not_not]
  · have hsame : (monitor.probed (monitor.stateOf p.backendId) p.healthy p.time).1.isHealthy =
        (monitor.stateOf p.backendId).isHealthy := by
      have hne := mt hchanged.mpr hflip
      rwa [Bool.eq_not, not_not] at hne
    have hevents := eventsOf_recordProbe_self monitor p.backendId p.healthy p.time
    rw [if_neg hflip] at hevents
    refine ⟨htracks, ?_, ?_, ?_⟩
    · rw [hevents]
      exact h.alternates
    · rw [hevents, ← hcurrent, isHealthy, stateOf_recordProbe_self, hsame, isHealthy]
    · rw [hevents]
      exact h.reversed

theorem Settled.recordProbe_of_ne (h : Settled monitor backendId own)
    (hne : backendId ≠ p.backendId) :
    Settled (monitor.recordProbe p.backendId p.healthy p.time) backendId own := by
  have hstate := stateOf_recordProbe_of_ne monitor hne p.healthy p.time
  have hevents := eventsOf_recordProbe_of_ne monitor hne p.healthy p.time
  constructor
  · rw [hstate]
    exact ⟨h.tracks.history, h.tracks.healthy, h.tracks.unhealthy⟩
  · rw [hevents]
    exact h.alternates
  · rw [hevents, ← h.current, isHealthy, hstate, isHealthy]
  · rw [hevents]
    exact h.reversed

theorem after_settings (monitor : HealthMonitor) (probes : List Probe) :
    (monitor.after probes).failureThreshold = monitor.failureThreshold ∧
      (monitor.after probes).recoveryThreshold = monitor.recoveryThreshold ∧
    (monitor.after probes).cooldown = monitor.cooldown := by
  induction probes using List.reverseRecOn with
  | nil => exact ⟨rfl, rfl, rfl⟩
  | append_singleton probes p ih =>
    rw [after_snoc]
    exact ih

/-- A run of probes, for each backend. -/
theorem after_settled {f r c : Int} (hf : 1 ≤ f) (hr : 1 ≤ r) (probes : List Probe)
    (backendId : String) :
    Settled ((new f r c).after probes) backendId (probesOf backendId probes) := by
  induction probes using List.reverseRecOn with
  | nil => exact ⟨.new hf, trivial, rfl, by simp [eventsOf, after, new]⟩
  | append_singleton probes p ih =>
    have hset := after_settings (new f r c) probes
    rw [after_snoc, probesOf, List.filter_append]
    by_cases hid : backendId = p.backendId
    · subst hid
      simp only [List.filter_cons, decide_true, if_true, List.filter_nil]
      exact ih.recordProbe_self (hset.1 ▸ hf) (hset.2.1 ▸ hr)
    · simp only [List.filter_cons, Ne.symm hid, decide_false, Bool.false_eq_true, if_false,
        List.filter_nil, List.append_nil]
      exact ih.recordProbe_of_ne hid

theorem failureCount_eq (h : Tracks monitor own (monitor.stateOf backendId)) :
    monitor.failureCount backendId = (own.rtake 20).countP fun p => !p.healthy := by
  rw [failureCount, h.history, List.rtake, List.rtake, List.length_map, ← List.map_drop,
    List.countP_map]
  rfl

/-- After any run of probes and for any next one: when the probed backend fails over and when
it recovers, that the events of every backend alternate and end with its health, what is
counted of its failures, and that the probe changes nothing for another backend. -/
theorem health_transitions {f r : Int} (c : Int) (hf : 1 ≤ f) (hr : 1 ≤ r) (probes : List Probe)
    (p : Probe) :
    let monitor := (new f r c).after probes
    let next := (new f r c).after (probes ++ [p])
    let own := probesOf p.backendId probes
    (monitor.isHealthy p.backendId = true →
      (next.isHealthy p.backendId = false ↔
        p.healthy = false ∧ trailingFailures own + 1 = f)) ∧
    (monitor.isHealthy p.backendId = false →
      (next.isHealthy p.backendId = true ↔
        p.healthy = true ∧ ∃ last, lastFailure own = some last ∧ last.time + c ≤ p.time ∧
          countedSuccesses c own + 1 = r)) ∧
    (∀ backendId,
      Alternates false ((monitor.eventsOf backendId).map (·.toHealthy)) ∧
      (∀ e ∈ monitor.eventsOf backendId, e.fromHealthy = !e.toHealthy) ∧
      monitor.isHealthy backendId =
        ((monitor.eventsOf backendId).getLast?.map (·.toHealthy)).getD true ∧
      monitor.failureCount backendId =
        ((probesOf backendId probes).rtake 20).countP fun p => !p.healthy) ∧
    ∀ backendId, backendId ≠ p.backendId →
      next.isHealthy backendId = monitor.isHealthy backendId ∧
      next.eventsOf backendId = monitor.eventsOf backendId ∧
      next.failureCount backendId = monitor.failureCount backendId := by
  intro monitor next own
  have hset := after_settings (new f r c) probes
  have hnext : next = monitor.recordProbe p.backendId p.healthy p.time := after_snoc
  have htracks := (after_settled hf hr probes p.backendId (c := c)).tracks
  refine ⟨?_, ?_, ?_, ?_⟩
  · intro hs
    have hover := probed_of_healthy (p := p) htracks hs
    rw [hset.1] at hover
    rw [hnext, isHealthy, stateOf_recordProbe_self]
    exact hover
  · intro hs
    have hrec := probed_of_unhealthy (p := p) htracks hs
    rw [hset.2.1, hset.2.2] at hrec
    rw [hnext, isHealthy, stateOf_recordProbe_self]
    exact hrec
  · intro backendId
    have hsettled := after_settled hf hr probes backendId (c := c)
    refine ⟨hsettled.alternates, hsettled.reversed, ?_, failureCount_eq hsettled.tracks⟩
    rw [hsettled.current, following, List.getLast?_map]
    cases (monitor.eventsOf backendId).getLast? with
    | none => rfl
    | some e => exact Bool.not_not _
  · intro backendId hne
    have hstate := stateOf_recordProbe_of_ne monitor hne p.healthy p.time
    rw [hnext, isHealthy, isHealthy, failureCount, failureCount, hstate]
    exact ⟨rfl, eventsOf_recordProbe_of_ne _ hne p.healthy p.time, rfl⟩

/-- The third failure in a row, of a backend whose neighbour answers in between. -/
theorem health_transitions_third :
    ((new 3 2 30).after ([⟨"gpu-1", false, 0⟩, ⟨"gpu-1", false, 10⟩, ⟨"gpu-2", true, 15⟩] ++
      [⟨"gpu-1", false, 20⟩])).isHealthy "gpu-1" = false := by
  have hthird := health_transitions (f := 3) (r := 2) 30 (by decide) (by decide)
    [⟨"gpu-1", false, 0⟩, ⟨"gpu-1", false, 10⟩, ⟨"gpu-2", true, 15⟩] ⟨"gpu-1", false, 20⟩
  exact (hthird.1 rfl).mpr ⟨rfl, rfl⟩

end HealthMonitor

end LlmHomeLab
