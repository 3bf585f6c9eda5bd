import LlmHomeLab.Lib.Dict
import LlmHomeLab.Lib.Json

/-! # Service level indicators and alert rules

`observability/models.py`. Floating-point numbers are the values of a type `V` of which only
the order, and the conversion from integers, matters here.
-/

namespace LlmHomeLab

structure HostCompletionStats (V : Type) where
  completionsTotal : Int
  avgLatencyMs : V
  promptTokensAvg : V
  promptTokensMin : Int
  promptTokensMax : Int
  completionTokensAvg : V
  completionTokensMin : Int
  completionTokensMax : Int

structure SliSnapshot (V : Type) where
  availability : V
  p95LatencyMs : V
  failoverSuccessRate : Option V
  hostSaturation : Dict String V := .empty
  queueDepth : Int := 0
  tokenUsageTotal : Dict String Int := .empty
  hostCompletionStats : Dict String (HostCompletionStats V) := .empty

inductive AlertSeverity where
  | critical
  | warning
deriving DecidableEq, Repr

inductive AlertKind where
  | threshold
  | sloBurn
deriving DecidableEq, Repr

/-- `comparison` is what the rules file says; only `gt` is looked at. -/
structure AlertRule (V : Type) where
  name : String
  kind : AlertKind
  metric : String
  comparison : String
  thresholdValue : V
  window : Int
  severity : AlertSeverity
  runbookUrl : String

inductive AlertState where
  | firing
  | resolved
deriving DecidableEq, Repr

structure AlertEvent (V : Type) where
  ruleName : String
  severity : AlertSeverity
  state : AlertState
  value : V
  thresholdValue : V
  runbookUrl : String
  time : Int
deriving DecidableEq

end LlmHomeLab
