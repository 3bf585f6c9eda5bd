import LlmHomeLab.Lib.Json
import LlmHomeLab.Lib.Text

/-! # API keys

`security/models.py` and `security/key_store.py`. A key file may hold expiry times without a
time zone; comparing one with the current time raises, so `authenticate` is fallible.
-/

namespace LlmHomeLab

/-- A `datetime` in microseconds, with or without a time zone. -/
structure Datetime where
  micros : Int
  aware : Bool
deriving DecidableEq, Repr

/-- `a <= b`. -/
def Datetime.le (a b : Datetime) : Except PyError Bool :=
  if a.aware = b.aware then .ok (a.micros ≤ b.micros) else .error .typeError

/-- `datetime.now(UTC)` at an instant. -/
def Datetime.utc (micros : Int) : Datetime := ⟨micros, true⟩

structure ApiKey where
  key : String
  expiresAt : Option Datetime
deriving DecidableEq, Repr

structure ClientConfig where
  clientId : String
  allowedPathPrefixes : List String
  keys : List ApiKey
deriving DecidableEq, Repr

structure ClientIdentity where
  clientId : String
  allowedPathPrefixes : List String
deriving DecidableEq, Repr

structure ApiKeyStore where
  clients : List ClientConfig
deriving DecidableEq, Repr

/-- The inner loop of `authenticate`: does one of the keys accept the token. -/
def acceptsToken (bearerToken : String) (now : Datetime) : List ApiKey → Except PyError Bool
  | [] => .ok false
  | apiKey :: rest =>
    if apiKey.key ≠ bearerToken then acceptsToken bearerToken now rest
    else
      match apiKey.expiresAt with
      | none => .ok true
      | some expiresAt => do
        if ← expiresAt.le now then acceptsToken bearerToken now rest else return true

def authenticateClients (bearerToken : String) (now : Datetime) :
    List ClientConfig → Except PyError (Option ClientIdentity)
  | [] => .ok none
  | client :: rest => do
    if ← acceptsToken bearerToken now client.keys then
      return some ⟨client.clientId, client.allowedPathPrefixes⟩
    else authenticateClients bearerToken now rest

namespace ApiKeyStore

def authenticate (store : ApiKeyStore) (bearerToken : String) (now : Datetime) :
    Except PyError (Option ClientIdentity) :=
  authenticateClients bearerToken now store.clients

def isAuthorized (identity : ClientIdentity) (path : String) : Bool :=
  identity.allowedPathPrefixes.any fun p => Text.startsWith path p

/-- What covers a path covers every path that continues it. -/
theorem isAuthorized_of_startsWith {identity : ClientIdentity} {path path' : String}
    (h : isAuthorized identity path = true) (hp : Text.startsWith path' path = true) :
    isAuthorized identity path' = true := by
  simp only [isAuthorized, List.any_eq_true] at h ⊢
  obtain ⟨p, hmem, hstart⟩ := h
  exact ⟨p, hmem, Text.startsWith_trans hp hstart⟩

/-- A store with one client, one key without expiry and one path it may use. -/
def single (key path : String) : ApiKeyStore := ⟨[⟨"client", [path], [⟨key, none⟩]⟩]⟩

theorem authenticate_single (key path : String) (now : Datetime) :
    (single key path).authenticate key now = .ok (some ⟨"client", [path]⟩) := by
  simp [single, authenticate, authenticateClients, acceptsToken, bind, Except.bind, pure,
    Except.pure]

theorem isAuthorized_single (path path' : String) :
    isAuthorized ⟨"client", [path]⟩ path' = Text.startsWith path' path := by
  simp [isAuthorized]

end ApiKeyStore

end LlmHomeLab
