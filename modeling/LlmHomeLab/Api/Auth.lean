import LlmHomeLab.Security.KeyStore
import LlmHomeLab.Leases.Path

/-! # The auth gate

An HTTP request passes `_LeasePathMiddleware`, then `enforce_auth`, then the router, which
matches `scope["path"]`. `enforce_auth` decides on `request.url.path`, which is parsed from
`scheme://<Host header><path>`. `gate_iff` says for which scopes the two paths make no
difference.
-/

namespace LlmHomeLab

/-! ## Model -/

def authExemptPaths : List String := ["/health/live", "/health/ready", "/metrics"]

/-- The URL a request reports. -/
def requestUrl (scope : Scope) : String :=
  match header "host" scope.headers with
  | some host => scope.scheme ++ "://" ++ host ++ scope.path
  | none =>
    match scope.server with
    | some server => scope.scheme ++ "://" ++ server ++ scope.path
    | none => scope.path

/-- The token of the Authorization header, if it has the scheme `Bearer`. -/
def bearerToken (scope : Scope) : Option String :=
  let authHeader := (header "authorization" scope.headers).getD ""
  if Text.startsWith authHeader "Bearer " then some (Text.removeLeading authHeader "Bearer ")
  else none

inductive AuthReason where
  | missingToken
  | invalidToken
  | pathNotAllowed
deriving DecidableEq, Repr

/-- How a request ends: at one of the middlewares, at the router, or in a handler `η`. -/
inductive Served (η : Type) where
  | leasePathNotFound
  | raised
  | refused (status : Nat) (reason : AuthReason)
  | noRoute
  | handler (h : η)
deriving DecidableEq, Repr

section

variable {η : Type}
-- the checks `urlsplit` makes on the authority, and the routes of the application
variable (checkNetloc : List Char → Bool) (route : String → String → Option η)

/-- The request's `url.path`; `none` where parsing the URL raises. -/
def requestUrlPath (scope : Scope) : Option String :=
  Text.urlsplitPath checkNetloc (requestUrl scope)

/-- The router, and the handler it finds. -/
def callNext (scope : Scope) : Served η :=
  match route scope.method scope.path with
  | some h => .handler h
  | none => .noRoute

/-- `enforce_auth` with `auth_enabled`, at the time `now`. -/
def enforceAuth (keyStore : ApiKeyStore) (now : Datetime) (scope : Scope) : Served η :=
  match requestUrlPath checkNetloc scope with
  | none => .raised
  | some path =>
    if path ∈ authExemptPaths then callNext route scope
    else
      match bearerToken scope with
      | none => .refused 401 .missingToken
      | some token =>
        -- an empty token is not looked up
        if token = "" then .refused 401 .invalidToken
        else
          match keyStore.authenticate token now with
          | .error _ => .raised
          | .ok none => .refused 401 .invalidToken
          | .ok (some identity) =>
            if ApiKeyStore.isAuthorized identity path then callNext route scope
            else .refused 403 .pathNotAllowed

/-- `_LeasePathMiddleware` around the rest. -/
def serve (keyStore : ApiKeyStore) (now : Datetime) (scope : Scope) : Served η :=
  let scope := rewriteLeasePath scope
  if Text.startsWith scope.path "/lease/" then .leasePathNotFound
  else enforceAuth checkNetloc route keyStore now scope

/-! ## The gate -/

/-- The Authorization header carries a token accepted now, for a client that may use the
path. -/
def Admitted (keyStore : ApiKeyStore) (now : Datetime) (scope : Scope) (path : String) : Prop :=
  ∃ token identity, bearerToken scope = some token ∧
    keyStore.authenticate token now = .ok (some identity) ∧
    ApiKeyStore.isAuthorized identity path = true

/-- A handler behind a path that is not exempt runs for admitted requests only. -/
def GateHolds (keyStore : ApiKeyStore) (now : Datetime) (scope : Scope) : Prop :=
  ∀ h, serve checkNetloc route keyStore now scope = .handler h →
    (rewriteLeasePath scope).path ∉ authExemptPaths →
      Admitted keyStore now scope (rewriteLeasePath scope).path

/-- A handler behind a path that is not exempt is in reach of this scope. -/
def Reaches (scope : Scope) : Prop :=
  let scope := rewriteLeasePath scope
  Text.startsWith scope.path "/lease/" = false ∧ (route scope.method scope.path).isSome ∧
    scope.path ∉ authExemptPaths

/-- The path that is checked is not exempt, and is the start of the path that is routed,
unless there is no token to check it for. -/
def ChecksRoutedPath (scope : Scope) : Prop :=
  ∀ path, requestUrlPath checkNetloc (rewriteLeasePath scope) = some path →
    path ∉ authExemptPaths ∧
      (Text.startsWith (rewriteLeasePath scope).path path = true ∨
        (bearerToken scope).getD "" = "")

/-! ## Proof -/

theorem bearerToken_rewriteLeasePath (scope : Scope) :
    bearerToken (rewriteLeasePath scope) = bearerToken scope := by
  have hne : "authorization" ≠ leaseHeader := by decide
  simp only [bearerToken, header_rewriteLeasePath hne]

theorem callNext_handler {scope : Scope} {h : η} (hcall : callNext route scope = .handler h) :
    route scope.method scope.path = some h := by
  unfold callNext at hcall
  split at hcall
  · next h' hroute =>
    cases hcall
    exact hroute
  · cases hcall

/-- The two ways through `enforce_auth`. -/
theorem enforceAuth_handler {keyStore : ApiKeyStore} {now : Datetime} {scope : Scope} {h : η}
    (hrun : enforceAuth checkNetloc route keyStore now scope = .handler h) :
    route scope.method scope.path = some h ∧
      ∃ path, requestUrlPath checkNetloc scope = some path ∧
        (path ∈ authExemptPaths ∨
          (bearerToken scope ≠ some "" ∧ Admitted keyStore now scope path)) := by
  unfold enforceAuth at hrun
  split at hrun
  · cases hrun
  · next path hpath =>
    split at hrun
    · next hexempt =>
      -- an exempt path needs no key
      exact ⟨callNext_handler route hrun, path, hpath, Or.inl hexempt⟩
    · split at hrun
      · cases hrun
      · next token htoken =>
        split at hrun
        · cases hrun
        · next hne =>
          split at hrun
          · cases hrun
          · cases hrun
          · next identity hauth =>
            split at hrun
            · next hallowed =>
              refine ⟨callNext_handler route hrun, path, hpath, Or.inr ⟨?_, ?_⟩⟩
              · rw [htoken]
                simpa using hne
              · exact ⟨token, identity, htoken, hauth, hallowed⟩
            · cases hrun

/-- With an exempt URL path, any store lets the request through. -/
theorem enforceAuth_of_exempt {scope : Scope} {path : String} {h : η}
    (hpath : requestUrlPath checkNetloc scope = some path) (hexempt : path ∈ authExemptPaths)
    (hroute : route scope.method scope.path = some h) (keyStore : ApiKeyStore) (now : Datetime) :
    enforceAuth checkNetloc route keyStore now scope = .handler h := by
  simp [enforceAuth, hpath, hexempt, callNext, hroute]

/-- A client that may use the URL path gets through. -/
theorem enforceAuth_of_single {scope : Scope} {path token : String} {h : η}
    (hpath : requestUrlPath checkNetloc scope = some path) (hexempt : path ∉ authExemptPaths)
    (htoken : bearerToken scope = some token) (hne : token ≠ "")
    (hroute : route scope.method scope.path = some h) (now : Datetime) :
    enforceAuth checkNetloc route (.single token path) now scope = .handler h := by
  simp [enforceAuth, hpath, hexempt, htoken, hne, callNext, hroute,
    ApiKeyStore.authenticate_single, ApiKeyStore.isAuthorized_single, Text.startsWith_self]

/-- The gate holds for a scope, whatever the keys and the time, exactly if the scope reaches
no guarded handler or the path checked stands for the path routed. -/
theorem gate_iff (scope : Scope) :
    (∀ keyStore now, GateHolds checkNetloc route keyStore now scope) ↔
      (Reaches route scope → ChecksRoutedPath checkNetloc scope) := by
  set routed := rewriteLeasePath scope with hrouted
  constructor
  · rintro hgate ⟨hlease, hroute, hguarded⟩ path hpath
    obtain ⟨h, hroute⟩ := Option.isSome_iff_exists.mp hroute
    have hserve : ∀ keyStore now, serve checkNetloc route keyStore now scope =
        enforceAuth checkNetloc route keyStore now routed := by
      intro keyStore now
      simp only [serve]
      rw [← hrouted] at hlease ⊢
      simp [hlease]
    have hexempt : path ∉ authExemptPaths := by
      intro hexempt
      -- nobody has a key, and the handler runs
      have hrun := enforceAuth_of_exempt checkNetloc route hpath hexempt hroute ⟨[]⟩ (.utc 0)
      obtain ⟨_, _, _, hauth, _⟩ := hgate ⟨[]⟩ (.utc 0) h ((hserve _ _).trans hrun) hguarded
      cases hauth
    refine ⟨hexempt, ?_⟩
    by_contra hnot
    rw [not_or] at hnot
    obtain ⟨hstart, hempty⟩ := hnot
    obtain ⟨token, htoken⟩ : ∃ token, bearerToken scope = some token := by
      cases hb : bearerToken scope with
      | none => simp [hb] at hempty
      | some token => exact ⟨token, rfl⟩
    have hne : token ≠ "" := by simpa [htoken] using hempty
    -- a client that may use the URL path alone
    have hrun := enforceAuth_of_single checkNetloc route hpath hexempt
      ((bearerToken_rewriteLeasePath scope).trans htoken) hne hroute (.utc 0)
    obtain ⟨token', identity, htoken', hauth, hallowed⟩ :=
      hgate _ (.utc 0) h ((hserve _ _).trans hrun) hguarded
    rw [htoken] at htoken'
    cases htoken'
    rw [ApiKeyStore.authenticate_single] at hauth
    cases hauth
    rw [ApiKeyStore.isAuthorized_single] at hallowed
    exact hstart hallowed
  · intro hsafe keyStore now h hrun hguarded
    simp only [serve] at hrun
    rw [← hrouted] at hrun hguarded ⊢
    by_cases hlease : Text.startsWith routed.path "/lease/" = true
    · simp [hlease] at hrun
    · rw [if_neg hlease] at hrun
      obtain ⟨hroute, path, hpath, hway⟩ := enforceAuth_handler checkNetloc route hrun
      have hreach : Reaches route scope :=
        ⟨by simpa using hlease, by simp [hroute, ← hrouted], hguarded⟩
      obtain ⟨hexempt, hstart⟩ := hsafe hreach path hpath
      rcases hway with hway | ⟨hne, token, identity, htoken, hauth, hallowed⟩
      · exact absurd hway hexempt
      · rw [bearerToken_rewriteLeasePath] at hne htoken
        rw [htoken] at hstart hne
        have hstart : Text.startsWith routed.path path = true := by
          rcases hstart with hstart | hempty
          · exact hstart
          · exact absurd (congrArg some hempty) hne
        exact ⟨token, identity, htoken, hauth,
          ApiKeyStore.isAuthorized_of_startsWith hallowed hstart⟩

/-- A scope with a Host header that is only an authority, and a path without `?`, `#`, tabs
and line breaks, is checked on the path it is routed by. -/
theorem checksRoutedPath_of_clean {scope : Scope} {host : String}
    (hhost : header "host" scope.headers = some host) (hne : scope.scheme ≠ "")
    (hscheme : ∀ c ∈ scope.scheme.toList, Text.isAsciiLetter c = true)
    (hclean : ∀ c ∈ host.toList, Text.endsNetloc c = false ∧ Text.isRemoved c = false)
    (hroot : (rewriteLeasePath scope).path.toList.head? = some '/')
    (hpath : ∀ c ∈ (rewriteLeasePath scope).path.toList,
      Text.endsPath c = false ∧ Text.isRemoved c = false)
    (hguarded : (rewriteLeasePath scope).path ∉ authExemptPaths) :
    ChecksRoutedPath checkNetloc scope := by
  intro path hp
  have hhost' : header "host" (rewriteLeasePath scope).headers = some host :=
    (header_rewriteLeasePath (by decide) scope).trans hhost
  have hs : (rewriteLeasePath scope).scheme = scope.scheme := scheme_rewriteLeasePath scope
  rw [requestUrlPath, requestUrl, hhost', hs,
    Text.urlsplitPath_of_clean hne hscheme hclean hroot hpath] at hp
  split at hp
  · cases hp
    exact ⟨hguarded, Or.inl (Text.startsWith_self _)⟩
  · cases hp

end

/-! ## The routes of the application -/

inductive Handler where
  | registerNode | updateNode | heartbeatNode | deregisterNode
  | createNodeLease | heartbeatNodeLease | releaseNodeLease | forceReleaseNodeLease
  | listNodes | getCapacity | listAlerts | metrics | healthLive | healthReady
  | chatCompletions
deriving DecidableEq, Repr

/-- A piece of a path template: literal text, or a parameter `{name:path}`. -/
inductive Piece where
  | text (s : String)
  | pathParam
deriving DecidableEq, Repr

/-- Match a template to the end of the path, or to a line break that ends it. -/
def matchPieces : List Piece → List Char → Bool
  | [], rest => rest = [] ∨ rest = ['\n']
  | .text t :: pieces, cs =>
    t.toList.isPrefixOf cs && matchPieces pieces (cs.drop t.toList.length)
  | .pathParam :: pieces, cs =>
    (List.range ((cs.takeWhile (· ≠ '\n')).length + 1)).any fun n => matchPieces pieces (cs.drop n)

def appRoutes : List (String × List Piece × Handler) :=
  [("POST", [.text "/v1/nodes/register"], .registerNode),
    ("PATCH", [.text "/v1/nodes/", .pathParam], .updateNode),
    ("POST", [.text "/v1/nodes/", .pathParam, .text "/heartbeat"], .heartbeatNode),
    ("DELETE", [.text "/v1/nodes/", .pathParam], .deregisterNode),
    ("POST", [.text "/v1/node-leases"], .createNodeLease),
    ("POST", [.text "/v1/node-leases/heartbeat"], .heartbeatNodeLease),
    ("DELETE", [.text "/v1/node-leases"], .releaseNodeLease),
    ("POST", [.text "/v1/node-leases/force-release"], .forceReleaseNodeLease),
    ("GET", [.text "/v1/nodes"], .listNodes),
    ("GET", [.text "/v1/capacity"], .getCapacity),
    ("GET", [.text "/v1/alerts"], .listAlerts),
    ("GET", [.text "/metrics"], .metrics),
    ("GET", [.text "/health/live"], .healthLive),
    ("GET", [.text "/health/ready"], .healthReady),
    ("POST", [.text "/v1/chat/completions"], .chatCompletions)]

def appRoute (method path : String) : Option Handler :=
  (appRoutes.find? fun r => r.1 = method && matchPieces r.2.1 path.toList).map (·.2.2)

/-- A request without credentials whose Host header moves the path it asks for into the
query of its URL. -/
def hostBypass : Scope where
  method := "DELETE"
  path := "/v1/nodes/gpu-1"
  headers := [("host", "lab/metrics?")]

/-- The handler runs, though nobody has a key. -/
theorem gate_fails_for_host_with_path :
    serve (fun _ => true) appRoute ⟨[]⟩ (.utc 0) hostBypass = .handler .deregisterNode ∧
      (rewriteLeasePath hostBypass).path = "/v1/nodes/gpu-1" ∧
      "/v1/nodes/gpu-1" ∉ authExemptPaths ∧
      ¬ GateHolds (fun _ => true) appRoute ⟨[]⟩ (.utc 0) hostBypass := by
  have hrun : serve (fun _ => true) appRoute ⟨[]⟩ (.utc 0) hostBypass = .handler .deregisterNode := by
    decide +kernel
  have hpath : (rewriteLeasePath hostBypass).path = "/v1/nodes/gpu-1" := by decide +kernel
  have hguarded : "/v1/nodes/gpu-1" ∉ authExemptPaths := by decide
  refine ⟨hrun, hpath, hguarded, fun hgate => ?_⟩
  obtain ⟨_, _, _, hauth, _⟩ := hgate _ hrun (by rw [hpath]; exact hguarded)
  cases hauth

end LlmHomeLab
