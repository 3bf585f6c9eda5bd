import LlmHomeLab.Lib.Lines
import LlmHomeLab.Observability.Metrics

/-! # The metrics reader

`diagnostics/metrics_parser.py`: it goes through the lines of a text and takes the numbers of the
metrics it knows.
-/

namespace LlmHomeLab

variable {V : Type} [PyFloat V]

/-! ## Model -/

/-- `_as_int`; an infinite float raises. -/
def asInt (V : Type) [PyFloat V] (text : List Char) : Except NumError (Option Int) :=
  match (PyFloat.ofText text : Option V) with
  | none => .ok none
  | some x =>
    match PyFloat.toInt x with
    | .ok n => .ok (some n)
    | .error .valueError => .ok none
    | .error e => .error e

/-- `_as_float`. -/
def asFloat (text : List Char) : Option V :=
  match PyFloat.ofText text with
  | none => none
  | some x => if PyFloat.isNan x then none else some x

/-- The metrics of a host that are read. -/
inductive HostMetric where
  | int (k : HostInt)
  | float (k : HostFloat)
deriving DecidableEq, Repr

def HostMetric.metricName : HostMetric → String
  | .int k => k.metricName
  | .float k => k.metricName

/-- What is left of a line after a text at its beginning. -/
def afterText (text : String) (line : List Char) : Option (List Char) :=
  if text.toList.isPrefixOf line then some (line.drop text.toList.length) else none

/-- `\s+(\S+)$`. -/
def matchToken (line : List Char) : Option (List Char) :=
  let token := line.dropWhile Json.isSpace
  if (line.takeWhile Json.isSpace).isEmpty || token.isEmpty || token.any Json.isSpace then none
  else some token

/-- `^name\s+(\S+)$`. -/
def matchValue (name : String) (line : List Char) : Option (List Char) := do
  let rest ← afterText name line
  matchToken rest

/-- The braces, a label in quotes that is not empty, and `\s+(\S+)$`, after the name. -/
def matchHost (name : String) (line : List Char) : Option (List Char × List Char) := do
  let rest ← afterText name line
  let label ← afterText "\x7bhost_id=\"" rest
  let hostId := label.takeWhile (· ≠ '"')
  if hostId.isEmpty then none
  else do
    let rest ← afterText "\"\x7d" (label.dropWhile (· ≠ '"'))
    let token ← matchToken rest
    return (hostId, token)

/-- What a line says, with the text of the value. -/
inductive Sample where
  | queueDepth (text : List Char)
  | p95LatencyMs (text : List Char)
  | host (metric : HostMetric) (hostId : String) (text : List Char)

/-- `_HOST_COMPLETION_METRIC_PATTERNS`. -/
def hostCompletionMetrics : List HostMetric :=
  [.int .completionsTotal, .float .latencyMsAvg, .float .promptTokensAvg, .int .promptTokensMin,
    .int .promptTokensMax, .float .completionTokensAvg, .int .completionTokensMin,
    .int .completionTokensMax]

def matchMetric (line : List Char) (metric : HostMetric) : Option Sample := do
  let (hostId, text) ← matchHost metric.metricName line
  return .host metric (String.ofList hostId) text

/-- The first pattern that matches. -/
def matchPatterns (line : List Char) : Option Sample :=
  match matchValue "llm_home_lab_queue_depth" line with
  | some text => some (.queueDepth text)
  | none =>
    match matchValue "llm_home_lab_request_latency_p95_ms" line with
    | some text => some (.p95LatencyMs text)
    | none =>
      match matchMetric line (.int .tokenUsageTotal) with
      | some sample => some sample
      | none => hostCompletionMetrics.findSome? (matchMetric line)

/-- Comments and blank lines are passed over. -/
def sampleOf (line : List Char) : Option Sample :=
  if line.head? = some '#' ∨ line.all Json.isSpace then none else matchPatterns line

structure ParsedMetrics (V : Type) where
  queueDepth : Option Int := none
  p95LatencyMs : Option V := none
  hostInts : HostInt → Dict String Int := fun _ => .empty
  hostFloats : HostFloat → Dict String V := fun _ => .empty

/-- What a sample sets. -/
inductive Reading (V : Type) where
  | queueDepth (value : Option Int)
  | p95LatencyMs (value : Option V)
  | int (k : HostInt) (hostId : String) (value : Int)
  | float (k : HostFloat) (hostId : String) (value : V)

/-- The value of a sample; a value of a host that is no number sets nothing. -/
def Sample.read : Sample → Except NumError (Option (Reading V))
  | .queueDepth text => do
    let value ← asInt V text
    return some (.queueDepth value)
  | .p95LatencyMs text => .ok (some (.p95LatencyMs (asFloat text)))
  | .host (.int k) hostId text => do
    let value ← asInt V text
    return value.map (.int k hostId)
  | .host (.float k) hostId text => .ok ((asFloat text).map (.float k hostId))

def ParsedMetrics.set (parsed : ParsedMetrics V) : Reading V → ParsedMetrics V
  | .queueDepth value => { parsed with queueDepth := value }
  | .p95LatencyMs value => { parsed with p95LatencyMs := value }
  | .int k hostId value =>
    { parsed with
      hostInts := fun k' =>
        if k' = k then (parsed.hostInts k).set hostId value else parsed.hostInts k' }
  | .float k hostId value =>
    { parsed with
      hostFloats := fun k' =>
        if k' = k then (parsed.hostFloats k).set hostId value else parsed.hostFloats k' }

/-- The loop over the lines. -/
def parseLines (parsed : ParsedMetrics V) :
    List (List Char) → Except NumError (ParsedMetrics V)
  | [] => .ok parsed
  | line :: rest =>
    match sampleOf line with
    | none => parseLines parsed rest
    | some sample => do
      match ← sample.read with
      | none => parseLines parsed rest
      | some reading => parseLines (parsed.set reading) rest

/-- `parse_metrics_text`. -/
def parseMetricsText (body : List Char) : Except NumError (ParsedMetrics V) :=
  parseLines {} (Lines.splitlines body)

end LlmHomeLab
