import LlmHomeLab.Lib.Dict

/-! # Backend health

`health/models.py` and `health/monitor.py`. Times are microseconds.
-/

namespace LlmHomeLab

/-- The last 20 probe results are kept, the oldest first. -/
structure BackendHealthState where
  isHealthy : Bool := true
  consecutiveFailures : Int := 0
  consecutiveSuccesses : Int := 0
  unhealthySince : Option Int := none
  history : List Bool := []
deriving DecidableEq, Repr

structure FailoverEvent where
  backendId : String
  fromHealthy : Bool
  toHealthy : Bool
  time : Int
deriving DecidableEq, Repr

structure HealthMonitor where
  failureThreshold : Int := 3
  recoveryThreshold : Int := 2
  cooldown : Int := 30000000
  states : Dict String BackendHealthState := .empty
  events : List FailoverEvent := []

namespace HealthMonitor

variable (monitor : HealthMonitor)

/-- The state of a backend; one that was never probed is healthy. -/
def stateOf (backendId : String) : BackendHealthState := (monitor.states.get? backendId).getD {}

def isHealthy (backendId : String) : Bool := (monitor.stateOf backendId).isHealthy

def hasProbeHistory (backendId : String) : Bool := monitor.states.contains backendId

def failureCount (backendId : String) : Nat :=
  (monitor.stateOf backendId).history.countP fun healthy => !healthy

/-- `deque(maxlen=20)`. -/
def pushHistory (history : List Bool) (healthy : Bool) : List Bool :=
  let longer := history ++ [healthy]
  longer.drop (longer.length - 20)

/-- `_update_unhealthy_state`: the new state, and whether the backend has recovered. -/
def updateUnhealthyState (state : BackendHealthState) (healthy : Bool) (now : Int) :
    BackendHealthState × Bool :=
  if !healthy then ({ state with consecutiveSuccesses := 0, unhealthySince := some now }, false)
  else
    match state.unhealthySince with
    | none => (state, false)
    | some since =>
      if now < since + monitor.cooldown then (state, false)
      else if monitor.recoveryThreshold ≤ state.consecutiveSuccesses + 1 then
        ({ state with
            isHealthy := true, consecutiveFailures := 0, consecutiveSuccesses := 0,
            unhealthySince := none }, true)
      else ({ state with consecutiveSuccesses := state.consecutiveSuccesses + 1 }, false)

/-- The failure branch of `record_probe` for a healthy backend. -/
def countFailure (state : BackendHealthState) (now : Int) : BackendHealthState × Bool :=
  let failures := state.consecutiveFailures + 1
  if monitor.failureThreshold ≤ failures then
    ({ state with
        consecutiveFailures := failures, isHealthy := false, unhealthySince := some now,
        consecutiveSuccesses := 0 }, true)
  else ({ state with consecutiveFailures := failures }, false)

/-- The new state of a backend, and whether its health has changed. -/
def probed (state : BackendHealthState) (healthy : Bool) (now : Int) : BackendHealthState × Bool :=
  let state := { state with history := pushHistory state.history healthy }
  if !state.isHealthy then monitor.updateUnhealthyState state healthy now
  else if healthy then ({ state with consecutiveFailures := 0 }, false)
  else monitor.countFailure state now

def recordProbe (backendId : String) (healthy : Bool) (now : Int) : HealthMonitor :=
  let state := monitor.stateOf backendId
  let (state', changed) := monitor.probed state healthy now
  { monitor with
    states := monitor.states.set backendId state'
    events :=
      if changed then monitor.events ++ [⟨backendId, state.isHealthy, state'.isHealthy, now⟩]
      else monitor.events }

/-- A probe says nothing about other backends. -/
theorem stateOf_recordProbe_of_ne {backendId other : String} (h : other ≠ backendId)
    (healthy : Bool) (now : Int) :
    (monitor.recordProbe backendId healthy now).stateOf other = monitor.stateOf other := by
  simp [recordProbe, stateOf, Dict.get?_set_of_ne _ h]

end HealthMonitor

end LlmHomeLab
