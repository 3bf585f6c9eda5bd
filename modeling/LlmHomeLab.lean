import LlmHomeLab.State.ConcurrentAppends
import LlmHomeLab.State.Trim
import LlmHomeLab.Api.StreamChunks
import LlmHomeLab.Api.Auth
import LlmHomeLab.Security.KeyLifetimes
import LlmHomeLab.Leases.Book
import LlmHomeLab.Health.Transitions
import LlmHomeLab.Routing.Argmax
import LlmHomeLab.Scheduling.Queue
import LlmHomeLab.Gateway.Admission
import LlmHomeLab.Gateway.LeaseIsolation
import LlmHomeLab.Gateway.Lifetime
import LlmHomeLab.Leases.Observation
import LlmHomeLab.Scheduling.Fairness
import LlmHomeLab.Api.SlotStream
import LlmHomeLab.Gateway.Accounting
import LlmHomeLab.Backends.EventStream
import LlmHomeLab.Gateway.Budget
import LlmHomeLab.Gateway.Failover
import LlmHomeLab.Gateway.Isolation
import LlmHomeLab.Gateway.Settings
import LlmHomeLab.Gateway.Balance
import LlmHomeLab.Gateway.Connections
import LlmHomeLab.Context.Retrieval
import LlmHomeLab.Registry.Atomicity
import LlmHomeLab.Observability.Independence
import LlmHomeLab.Observability.Sweep
import LlmHomeLab.Observability.Window
import LlmHomeLab.Observability.CompletionLog
import LlmHomeLab.Diagnostics.AnyText
import LlmHomeLab.Leases.ClientBase
import LlmHomeLab.Leases.Reservation
import LlmHomeLab.Leases.Runner
import LlmHomeLab.Leases.Holding
import LlmHomeLab.State.Managers
import LlmHomeLab.Scheduling.HeadOfLine
import LlmHomeLab.Observability.HostStatistics
import LlmHomeLab.Backends.Aliases
import LlmHomeLab.Tui.WidgetIds
import LlmHomeLab.Tui.NodeForm
import LlmHomeLab.Tui.NodeOrder
import LlmHomeLab.Gateway.Relay
