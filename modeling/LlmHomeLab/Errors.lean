import LlmHomeLab.Leases.Book
import LlmHomeLab.Routing.Engine

/-! # Exceptions of the gateway

What can end a chat request, as the exception handlers of `api/app.py` tell it apart.
-/

namespace LlmHomeLab

/-- The texts of `NoAvailableBackendError`. -/
inductive NoBackendReason where
  | everyHostReserved
  | dispatchTimeout
  | contextWindow (tokenBudget : Int)
deriving DecidableEq, Repr

inductive Exn where
  | builtin (e : PyError)
  | zeroDivisionError
  | unicodeEncodeError
  | lease (e : LeaseError)
  | hostNotRegistered (hostId : String)
  /-- `pinned` is the leased node, for a request that is bound to one. -/
  | modelNotAvailable (pinned : Option String) (model : String)
  | modelCapacityExceeded (model : String)
  | noAvailableBackend (reason : NoBackendReason)
  | backendError
  /-- Whatever else an `await` raises, a cancellation included. -/
  | raised
deriving DecidableEq, Repr

def RoutingError.toExn : RoutingError → Exn
  | .noWindow tokenBudget => .noAvailableBackend (.contextWindow tokenBudget)
  | .typeError => .builtin .typeError
  | .scoreRaised => .raised

end LlmHomeLab
