import LlmHomeLab.Lib.Text

/-! # The lease token in the request path

`leases/path.py`: `/lease/{token}/...` is rewritten to the path behind the token for the few
routes that accept it, and the token becomes the lease header unless the request has one.
-/

namespace LlmHomeLab

/-- What the middlewares and the router read of an HTTP scope. Header names and values are
the bytes of the request, one character each. `server` is the text of the server address,
used where there is no Host header. -/
structure Scope where
  method : String
  path : String
  headers : List (String × String)
  scheme : String := "http"
  server : Option String := none
deriving DecidableEq, Repr

def leaseHeader : String := "x-llm-node-lease"

/-- The bytes of a text, one character each. -/
def encodeUtf8 (s : String) : String :=
  String.ofList (s.toUTF8.data.toList.map fun b => Char.ofNat b.toNat)

/-- `.*$` of a regular expression: no newline, but for one at the very end, which is left
out. -/
def matchLine (s : List Char) : Option (List Char) :=
  let line := s.takeWhile (· ≠ '\n')
  if s = line ∨ s = line ++ ['\n'] then some line else none

/-- `_LEASE_PREFIX.match(path)`: token and rest. -/
def matchLeasePath (path : String) : Option (String × String) :=
  if Text.startsWith path "/lease/" then
    let tail := (Text.removeLeading path "/lease/").toList
    let token := tail.takeWhile (· ≠ '/')
    if token = [] then none
    else
      match tail.dropWhile (· ≠ '/') with
      | [] => some (String.ofList token, "/")
      | slash :: rest =>
        (matchLine rest).map fun line => (String.ofList token, String.ofList (slash :: line))
  else none

def acceptsLeasePath (method rest : String) : Bool :=
  (method, rest) ∈ [("POST", "/v1/chat/completions"), ("GET", "/v1/capacity"), ("GET", "/capacity")]

def hasLeaseHeader (headers : List (String × String)) : Bool :=
  headers.any fun item => item.1.toLower = leaseHeader

/-- The token becomes the lease header, unless the request has one. -/
def pinLease (token : String) (headers : List (String × String)) : List (String × String) :=
  if hasLeaseHeader headers then headers else headers ++ [(leaseHeader, encodeUtf8 token)]

def rewriteLeasePath (scope : Scope) : Scope :=
  match matchLeasePath scope.path with
  | none => scope
  | some (token, rest) =>
    if acceptsLeasePath scope.method rest then
      { scope with
        path := if rest = "/capacity" then "/v1/capacity" else rest
        headers := pinLease token scope.headers }
    else scope

/-- `headers.get(name)`: the first value under a name. -/
def header (name : String) (headers : List (String × String)) : Option String :=
  headers.lookup name

theorem header_pinLease {name : String} (h : name ≠ leaseHeader) (token : String)
    (headers : List (String × String)) :
    header name (pinLease token headers) = header name headers := by
  unfold pinLease
  split
  · rfl
  · have hne : (name == leaseHeader) = false := by simpa using h
    simp [header, List.lookup_append, List.lookup, hne]

/-- The rewrite adds at most a lease header. -/
theorem header_rewriteLeasePath {name : String} (h : name ≠ leaseHeader) (scope : Scope) :
    header name (rewriteLeasePath scope).headers = header name scope.headers := by
  unfold rewriteLeasePath
  split
  · rfl
  · next token rest _ =>
    by_cases hacc : acceptsLeasePath scope.method rest = true
    · rw [if_pos hacc]
      exact header_pinLease h token scope.headers
    · rw [if_neg hacc]

@[simp] theorem scheme_rewriteLeasePath (scope : Scope) :
    (rewriteLeasePath scope).scheme = scope.scheme := by
  unfold rewriteLeasePath
  split
  · rfl
  · next token rest _ => by_cases hacc : acceptsLeasePath scope.method rest = true <;> simp [hacc]

end LlmHomeLab
