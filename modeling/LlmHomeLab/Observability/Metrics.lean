import LlmHomeLab.Lib.PyFloat
import LlmHomeLab.Observability.Models
import LlmHomeLab.Scheduling.Queue

/-! # The metrics registry

`observability/metrics.py`: what is recorded, the snapshot of it, and the text of a snapshot for
Prometheus.
-/

namespace LlmHomeLab

/-- A sample is a status code, a latency and the time. -/
structure MetricsRegistry (V : Type) where
  window : Int
  requests : Dict String (List (Int × V × Int)) := .empty
  failoverOutcomes : List (Bool × Int) := []
  tokenUsageTotal : Dict String Int := .empty
  hostCompletionsTotal : Dict String Int := .empty
  hostLatencyMsTotal : Dict String V := .empty
  hostPromptTokensTotal : Dict String Int := .empty
  hostPromptTokensMin : Dict String Int := .empty
  hostPromptTokensMax : Dict String Int := .empty
  hostCompletionTokensTotal : Dict String Int := .empty
  hostCompletionTokensMin : Dict String Int := .empty
  hostCompletionTokensMax : Dict String Int := .empty

namespace MetricsRegistry

variable {V : Type} (metrics : MetricsRegistry V) (now : Int)

/-! ## Recording -/

/-- `_evict`. -/
def evict {α : Type} (window : Int) (time : α → Int) (samples : List α) : List α :=
  samples.dropWhile fun sample => window < now - time sample

def recordRequest (endpoint : String) (statusCode : Int) (latencyMs : V) : MetricsRegistry V :=
  let samples := (metrics.requests.get? endpoint).getD [] ++ [(statusCode, latencyMs, now)]
  { metrics with
    requests := metrics.requests.set endpoint (evict now metrics.window (·.2.2) samples) }

def recordFailoverOutcome (succeeded : Bool) : MetricsRegistry V :=
  { metrics with
    failoverOutcomes :=
      evict now metrics.window Prod.snd (metrics.failoverOutcomes ++ [(succeeded, now)]) }

/-- `totals[key] += n`. -/
def addTo (totals : Dict String Int) (key : String) (n : Int) : Dict String Int :=
  totals.set key ((totals.get? key).getD 0 + n)

def recordTokenUsage (hostId : String) (promptTokens completionTokens : Int) : MetricsRegistry V :=
  { metrics with
    tokenUsageTotal := addTo metrics.tokenUsageTotal hostId (promptTokens + completionTokens) }

def recordHostCompletion [PyFloat V] (hostId : String) (latencyMs : V)
    (promptTokens completionTokens : Int) : MetricsRegistry V :=
  let least (d : Dict String Int) (n : Int) := d.set hostId (min ((d.get? hostId).getD n) n)
  let most (d : Dict String Int) (n : Int) := d.set hostId (max ((d.get? hostId).getD n) n)
  { metrics with
    hostCompletionsTotal := addTo metrics.hostCompletionsTotal hostId 1
    hostLatencyMsTotal := metrics.hostLatencyMsTotal.set hostId
      (PyFloat.add ((metrics.hostLatencyMsTotal.get? hostId).getD PyFloat.zero) latencyMs)
    hostPromptTokensTotal := addTo metrics.hostPromptTokensTotal hostId promptTokens
    hostPromptTokensMin := least metrics.hostPromptTokensMin promptTokens
    hostPromptTokensMax := most metrics.hostPromptTokensMax promptTokens
    hostCompletionTokensTotal := addTo metrics.hostCompletionTokensTotal hostId completionTokens
    hostCompletionTokensMin := least metrics.hostCompletionTokensMin completionTokens
    hostCompletionTokensMax := most metrics.hostCompletionTokensMax completionTokens }

/-! ## The snapshot -/

section

variable [PyFloat V]

/-- `math.ceil(0.95 * n)`. The float 0.95 is `8556839292003942 / 2 ^ 53`, and the product is
rounded to a float before it is rounded up. -/
def p95Rank (n : ℕ) : ℕ :=
  (Rounding.roundBits 53 (8556839292003942 * n) + 2 ^ 53 - 1) / 2 ^ 53

/-- `_percentile(values, 0.95)`, of values there are. -/
def percentile (values : List V) : Except NumError V :=
  let ordered := values.mergeSort fun a b => !PyFloat.lt b a
  (ordered[min (p95Rank ordered.length - 1) (ordered.length - 1)]?).elim (.error .keyError) .ok

/-- `host.in_flight / host.capacity.max_concurrent_requests` for every host. -/
def hostSaturation : List HostInfo → Dict String V → Except NumError (Dict String V)
  | [], saturation => .ok saturation
  | host :: rest, saturation => do
    let limit ← host.capacity.maxConcurrentRequests.elim (.error .typeError) .ok
    let ratio ← PyFloat.intDiv host.inFlight limit
    hostSaturation rest (saturation.set host.hostId ratio)

/-- The statistics of one host. -/
def completionStats (hostId : String) (total : Int) : Except NumError (HostCompletionStats V) := do
  let entry (d : Dict String Int) := (d.get? hostId).elim (.error NumError.keyError) .ok
  let avgLatencyMs ←
    PyFloat.divInt ((metrics.hostLatencyMsTotal.get? hostId).getD PyFloat.zero) total
  let promptTokensAvg ←
    PyFloat.intDiv ((metrics.hostPromptTokensTotal.get? hostId).getD 0) total
  let promptTokensMin ← entry metrics.hostPromptTokensMin
  let promptTokensMax ← entry metrics.hostPromptTokensMax
  let completionTokensAvg ←
    PyFloat.intDiv ((metrics.hostCompletionTokensTotal.get? hostId).getD 0) total
  let completionTokensMin ← entry metrics.hostCompletionTokensMin
  let completionTokensMax ← entry metrics.hostCompletionTokensMax
  return {
    completionsTotal := total, avgLatencyMs, promptTokensAvg, promptTokensMin, promptTokensMax,
    completionTokensAvg, completionTokensMin, completionTokensMax }

def hostCompletionStats : List (String × Int) → Dict String (HostCompletionStats V) →
    Except NumError (Dict String (HostCompletionStats V))
  | [], stats => .ok stats
  | (hostId, total) :: rest, stats => do
    let one ← metrics.completionStats hostId total
    hostCompletionStats rest (stats.set hostId one)

/-- Drops the samples that are too old, and sums up what is left. -/
def snapshot (reg : HostRegistry) {ε : Type} (queue : SchedulingQueue ε) :
    Except NumError (MetricsRegistry V × SliSnapshot V) := do
  let requests := metrics.requests.mapValues (evict now metrics.window (·.2.2))
  let samples := requests.values.flatten
  let availability ←
    if samples.isEmpty then .ok PyFloat.one
    else PyFloat.intDiv (samples.countP fun sample => sample.1 < 500) samples.length
  let p95LatencyMs ←
    if samples.isEmpty then .ok PyFloat.zero else percentile (samples.map fun sample => sample.2.1)
  let failoverOutcomes := evict now metrics.window Prod.snd metrics.failoverOutcomes
  let failoverSuccessRate ←
    if failoverOutcomes.isEmpty then .ok none
    else some <$> PyFloat.intDiv (failoverOutcomes.countP Prod.fst) failoverOutcomes.length
  let hostSaturation ← hostSaturation (reg.hostRefs.map reg.heap) .empty
  let hostCompletionStats ←
    metrics.hostCompletionStats metrics.hostCompletionsTotal.entries .empty
  return ({ metrics with requests, failoverOutcomes },
    { availability, p95LatencyMs, failoverSuccessRate, hostSaturation
      queueDepth := queue.depth
      tokenUsageTotal := metrics.tokenUsageTotal
      hostCompletionStats })

end

end MetricsRegistry

/-! ## The text -/

/-- The integers there are of each host. -/
inductive HostInt where
  | completionsTotal
  | promptTokensMin
  | promptTokensMax
  | completionTokensMin
  | completionTokensMax
  | tokenUsageTotal
deriving DecidableEq, Repr

/-- The floats there are of each host. -/
inductive HostFloat where
  | latencyMsAvg
  | promptTokensAvg
  | completionTokensAvg
deriving DecidableEq, Repr

namespace HostInt

def metricName : HostInt → String
  | .completionsTotal => "llm_home_lab_host_completions_total"
  | .promptTokensMin => "llm_home_lab_host_prompt_tokens_min"
  | .promptTokensMax => "llm_home_lab_host_prompt_tokens_max"
  | .completionTokensMin => "llm_home_lab_host_completion_tokens_min"
  | .completionTokensMax => "llm_home_lab_host_completion_tokens_max"
  | .tokenUsageTotal => "llm_home_lab_token_usage_total"

def help : HostInt → String
  | .completionsTotal => "Cumulative count of healthy completions served, per host."
  | .promptTokensMin =>
    "Minimum prompt tokens observed in a single healthy completion, per host."
  | .promptTokensMax =>
    "Maximum prompt tokens observed in a single healthy completion, per host."
  | .completionTokensMin =>
    "Minimum completion tokens observed in a single healthy completion, per host."
  | .completionTokensMax =>
    "Maximum completion tokens observed in a single healthy completion, per host."
  | .tokenUsageTotal => "Cumulative prompt+completion tokens served, per host."

def kind : HostInt → String
  | .completionsTotal => "counter"
  | .tokenUsageTotal => "counter"
  | _ => "gauge"

end HostInt

namespace HostFloat

def metricName : HostFloat → String
  | .latencyMsAvg => "llm_home_lab_host_latency_ms_avg"
  | .promptTokensAvg => "llm_home_lab_host_prompt_tokens_avg"
  | .completionTokensAvg => "llm_home_lab_host_completion_tokens_avg"

def help : HostFloat → String
  | .latencyMsAvg =>
    "Average backend-call latency in milliseconds over all healthy completions, per host."
  | .promptTokensAvg => "Average prompt tokens per healthy completion, per host."
  | .completionTokensAvg => "Average completion tokens per healthy completion, per host."

end HostFloat

/-- The two comment lines in front of a metric. -/
def metricHeader (name help kind : String) : List (List Char) :=
  ["# HELP ".toList ++ name.toList ++ ' ' :: help.toList,
    "# TYPE ".toList ++ name.toList ++ ' ' :: kind.toList]

def valueLine (name : String) (value : List Char) : List Char := name.toList ++ ' ' :: value

def hostLine (name hostId : String) (value : List Char) : List Char :=
  name.toList ++ ("\x7bhost_id=\"".toList ++ (hostId.toList ++ ("\"\x7d".toList ++ ' ' :: value)))

namespace SliSnapshot

variable {V : Type} (snapshot : SliSnapshot V)

def hostInts : HostInt → Dict String Int
  | .completionsTotal => snapshot.hostCompletionStats.mapValues (·.completionsTotal)
  | .promptTokensMin => snapshot.hostCompletionStats.mapValues (·.promptTokensMin)
  | .promptTokensMax => snapshot.hostCompletionStats.mapValues (·.promptTokensMax)
  | .completionTokensMin => snapshot.hostCompletionStats.mapValues (·.completionTokensMin)
  | .completionTokensMax => snapshot.hostCompletionStats.mapValues (·.completionTokensMax)
  | .tokenUsageTotal => snapshot.tokenUsageTotal

def hostFloats : HostFloat → Dict String V
  | .latencyMsAvg => snapshot.hostCompletionStats.mapValues (·.avgLatencyMs)
  | .promptTokensAvg => snapshot.hostCompletionStats.mapValues (·.promptTokensAvg)
  | .completionTokensAvg => snapshot.hostCompletionStats.mapValues (·.completionTokensAvg)

def intLines (k : HostInt) : List (String × Int) → Except NumError (List (List Char))
  | [] => .ok []
  | (hostId, n) :: rest => do
    let text ← PyFloat.strInt n
    let more ← intLines k rest
    return hostLine k.metricName hostId text :: more

/-- The lines of an integer metric. -/
def intFamily (k : HostInt) : Except NumError (List (List Char)) := do
  let lines ← intLines k (snapshot.hostInts k).entries
  return metricHeader k.metricName k.help k.kind ++ lines

variable [PyFloat V]

def floatLines (name : String) (values : List (String × V)) : List (List Char) :=
  values.map fun kv => hostLine name kv.1 (PyFloat.repr kv.2)

/-- The lines of a float metric. -/
def floatFamily (k : HostFloat) : List (List Char) :=
  metricHeader k.metricName k.help "gauge" ++ floatLines k.metricName (snapshot.hostFloats k).entries

/-- The lines of the completion statistics. -/
def statsLines : Except NumError (List (List Char)) :=
  if snapshot.hostCompletionStats.entries.isEmpty then .ok []
  else do
    let completionsTotal ← snapshot.intFamily .completionsTotal
    let promptTokensMin ← snapshot.intFamily .promptTokensMin
    let promptTokensMax ← snapshot.intFamily .promptTokensMax
    let completionTokensMin ← snapshot.intFamily .completionTokensMin
    let completionTokensMax ← snapshot.intFamily .completionTokensMax
    return completionsTotal ++ snapshot.floatFamily .latencyMsAvg ++
      snapshot.floatFamily .promptTokensAvg ++ promptTokensMin ++ promptTokensMax ++
      snapshot.floatFamily .completionTokensAvg ++ completionTokensMin ++ completionTokensMax

def tokenLines : Except NumError (List (List Char)) :=
  if snapshot.tokenUsageTotal.entries.isEmpty then .ok [] else snapshot.intFamily .tokenUsageTotal

def failoverLines : List (List Char) :=
  match snapshot.failoverSuccessRate with
  | some rate =>
    metricHeader "llm_home_lab_failover_success_ratio"
        "Fraction of failover-involved requests that still succeeded." "gauge" ++
      [valueLine "llm_home_lab_failover_success_ratio" (PyFloat.repr rate)]
  | none => []

/-- Everything up to the saturation of the hosts. -/
def ratioLines : List (List Char) :=
  metricHeader "llm_home_lab_availability_ratio"
      "Fraction of requests in the rolling window that did not return a 5xx status." "gauge" ++
    [valueLine "llm_home_lab_availability_ratio" (PyFloat.repr snapshot.availability)] ++
    metricHeader "llm_home_lab_request_latency_p95_ms"
      "P95 request latency in milliseconds over the rolling window." "gauge" ++
    [valueLine "llm_home_lab_request_latency_p95_ms" (PyFloat.repr snapshot.p95LatencyMs)] ++
    snapshot.failoverLines

def saturationLines : List (List Char) :=
  if snapshot.hostSaturation.entries.isEmpty then []
  else
    metricHeader "llm_home_lab_host_saturation_ratio"
        "In-flight requests over max_concurrent_requests, per host." "gauge" ++
      floatLines "llm_home_lab_host_saturation_ratio" snapshot.hostSaturation.entries

def lines : Except NumError (List (List Char)) := do
  let depth ← PyFloat.strInt snapshot.queueDepth
  let stats ← snapshot.statsLines
  let tokens ← snapshot.tokenLines
  return snapshot.ratioLines ++ snapshot.saturationLines ++
    metricHeader "llm_home_lab_queue_depth"
      "Number of requests currently queued awaiting a free host slot." "gauge" ++
    [valueLine "llm_home_lab_queue_depth" depth] ++ stats ++ tokens

/-- The text of a snapshot. -/
def render : Except NumError (List Char) := do
  let lines ← snapshot.lines
  return lines.flatMap (· ++ ['\n'])

/-! ## When there is a text -/

omit [PyFloat V] in
theorem intLines_ok_iff (k : HostInt) (values : List (String × Int)) :
    (∃ lines, intLines k values = .ok lines) ↔ ∀ kv ∈ values, PyFloat.Short kv.2 := by
  induction values with
  | nil => exact iff_of_true ⟨_, rfl⟩ (by simp)
  | cons kv rest ih =>
    obtain ⟨hostId, n⟩ := kv
    rw [List.forall_mem_cons, ← ih, ← PyFloat.strInt_ok_iff, intLines]
    exact PyFloat.except_seq_iff fun text _ => PyFloat.except_last_iff

omit [PyFloat V] in
theorem intFamily_ok_iff (k : HostInt) : (∃ lines, snapshot.intFamily k = .ok lines) ↔
    ∀ hostId n, (snapshot.hostInts k).get? hostId = some n → PyFloat.Short n := by
  rw [intFamily, PyFloat.except_last_iff, intLines_ok_iff]
  simp only [Dict.get?_eq_some, Prod.forall]

theorem statsLines_ok_iff : (∃ lines, snapshot.statsLines = .ok lines) ↔
    ∀ k, k ≠ .tokenUsageTotal →
      ∀ hostId n, (snapshot.hostInts k).get? hostId = some n → PyFloat.Short n := by
  unfold statsLines
  split
  · -- no host has completions
    next hempty =>
    have hnone : ∀ hostId, snapshot.hostCompletionStats.get? hostId = none := by
      intro hostId
      rw [Dict.get?, List.isEmpty_iff.mp hempty]
      rfl
    refine iff_of_true ⟨_, rfl⟩ ?_
    intro k hk hostId n hget
    cases k with
    | tokenUsageTotal => exact absurd rfl hk
    | _ =>
      simp only [hostInts, Dict.get?_mapValues, hnone, Option.map_none] at hget
      cases hget
  · have hfamilies : (∃ lines, (do
          let completionsTotal ← snapshot.intFamily .completionsTotal
          let promptTokensMin ← snapshot.intFamily .promptTokensMin
          let promptTokensMax ← snapshot.intFamily .promptTokensMax
          let completionTokensMin ← snapshot.intFamily .completionTokensMin
          let completionTokensMax ← snapshot.intFamily .completionTokensMax
          return completionsTotal ++ snapshot.floatFamily .latencyMsAvg ++
            snapshot.floatFamily .promptTokensAvg ++ promptTokensMin ++ promptTokensMax ++
            snapshot.floatFamily .completionTokensAvg ++ completionTokensMin ++
            completionTokensMax) = .ok lines) ↔
        (∃ lines, snapshot.intFamily .completionsTotal = .ok lines) ∧
        (∃ lines, snapshot.intFamily .promptTokensMin = .ok lines) ∧
        (∃ lines, snapshot.intFamily .promptTokensMax = .ok lines) ∧
        (∃ lines, snapshot.intFamily .completionTokensMin = .ok lines) ∧
        (∃ lines, snapshot.intFamily .completionTokensMax = .ok lines) :=
      PyFloat.except_seq_iff fun _ _ => PyFloat.except_seq_iff fun _ _ =>
        PyFloat.except_seq_iff fun _ _ => PyFloat.except_seq_iff fun _ _ =>
          PyFloat.except_last_iff
    rw [hfamilies]
    simp only [intFamily_ok_iff]
    constructor
    · rintro ⟨hcompletions, hpromptMin, hpromptMax, hcompletionMin, hcompletionMax⟩ k hk
      cases k with
      | tokenUsageTotal => exact absurd rfl hk
      | completionsTotal => exact hcompletions
      | promptTokensMin => exact hpromptMin
      | promptTokensMax => exact hpromptMax
      | completionTokensMin => exact hcompletionMin
      | completionTokensMax => exact hcompletionMax
    · intro h
      exact ⟨h _ (by decide), h _ (by decide), h _ (by decide), h _ (by decide), h _ (by decide)⟩

omit [PyFloat V] in
theorem tokenLines_ok_iff : (∃ lines, snapshot.tokenLines = .ok lines) ↔
    ∀ hostId n, snapshot.tokenUsageTotal.get? hostId = some n → PyFloat.Short n := by
  unfold tokenLines
  split
  · next hempty =>
    refine iff_of_true ⟨_, rfl⟩ fun hostId n hget => ?_
    rw [Dict.get?, List.isEmpty_iff.mp hempty] at hget
    cases hget
  · exact snapshot.intFamily_ok_iff .tokenUsageTotal

/-- A snapshot has a text exactly if its integers can be written. -/
theorem lines_ok_iff : (∃ lines, snapshot.lines = .ok lines) ↔
    PyFloat.Short snapshot.queueDepth ∧
      ∀ k hostId n, (snapshot.hostInts k).get? hostId = some n → PyFloat.Short n := by
  unfold lines
  rw [PyFloat.except_seq_iff fun _ _ => PyFloat.except_seq_iff fun _ _ => PyFloat.except_last_iff,
    PyFloat.strInt_ok_iff, statsLines_ok_iff, tokenLines_ok_iff]
  refine and_congr_right fun _ => ⟨?_, fun h => ⟨fun k _ => h k, h .tokenUsageTotal⟩⟩
  rintro ⟨hstats, htokens⟩ k
  by_cases hk : k = .tokenUsageTotal
  · rw [hk]
    exact htokens
  · exact hstats k hk

end SliSnapshot

/-- `render_prometheus`. -/
def MetricsRegistry.renderPrometheus {V : Type} [PyFloat V] (metrics : MetricsRegistry V)
    (now : Int) (reg : HostRegistry) {ε : Type} (queue : SchedulingQueue ε) :
    Except NumError (MetricsRegistry V × List Char) := do
  let (metrics, snapshot) ← metrics.snapshot now reg queue
  let text ← snapshot.render
  return (metrics, text)

end LlmHomeLab
