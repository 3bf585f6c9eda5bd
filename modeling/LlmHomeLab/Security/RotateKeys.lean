import LlmHomeLab.Security.KeyStore

/-! # Rotating a key

`security/rotate_keys.py` and the conversions of `security/models.py`. The keys of a client that do
not expire are given until the end of a grace period, and a new key is put after them; the list goes
through a JSON file. What JSON and ISO texts are is a parameter.
-/

namespace LlmHomeLab

/-! ## Model -/

/-- `str`, `datetime.isoformat` and back, `json.dumps` and back; `none` is an exception. -/
structure KeyFileText where
  str : Json → String
  isoformat : Datetime → String
  fromisoformat : String → Option Datetime
  dumps : Json → String
  loads : String → Option Json

namespace KeyFileText

variable (f : KeyFileText)

def apiKeyToDict (apiKey : ApiKey) : Json :=
  .obj [("key", .str apiKey.key),
    ("expires_at", apiKey.expiresAt.elim .null fun expiresAt => .str (f.isoformat expiresAt))]

def apiKeyFromDict (data : Json) : Option ApiKey := do
  let expiresAt ← (data.get "expires_at" .null).toOption
  let key ← (data.item "key").toOption
  if expiresAt.truthy then
    let expiresAt ← f.fromisoformat (f.str expiresAt)
    return ⟨f.str key, some expiresAt⟩
  else return ⟨f.str key, none⟩

def clientConfigToDict (client : ClientConfig) : Json :=
  .obj [("client_id", .str client.clientId),
    ("allowed_path_prefixes", .arr (client.allowedPathPrefixes.map .str)),
    ("keys", .arr (client.keys.map f.apiKeyToDict))]

/-- What a `for` goes through. -/
def iterate : Json → Option (List Json)
  | .arr items => some items
  | .str s => some (s.toList.map fun c => .str (String.ofList [c]))
  | .obj fields => some (fields.map fun kv => .str kv.1)
  | _ => none

/-- The string in a list of strings; a list with anything else in it is not followed further. -/
def asString : Json → Option String
  | .str s => some s
  | _ => none

def clientConfigFromDict (data : Json) : Option ClientConfig := do
  let clientId ← (data.item "client_id").toOption
  let allowedPathPrefixes ← iterate (← (data.item "allowed_path_prefixes").toOption)
  let keys ← iterate (← (data.item "keys").toOption)
  return ⟨f.str clientId, ← allowedPathPrefixes.mapM asString, ← keys.mapM f.apiKeyFromDict⟩

/-- What is dumped of the clients. -/
def clientsToDict (clients : List ClientConfig) : Json :=
  .obj [("clients", .arr (clients.map f.clientConfigToDict))]

/-- `save_clients`: the text of the file. -/
def saveClients (clients : List ClientConfig) : String := f.dumps (f.clientsToDict clients) ++ "\n"

/-- `load_clients`, of the text of the file. -/
def loadClients (text : String) : Option (List ClientConfig) := do
  let data ← f.loads text
  let clients ← iterate (← (data.item "clients").toOption)
  clients.mapM f.clientConfigFromDict

end KeyFileText

/-- `now + delta`. -/
def Datetime.add (now : Datetime) (delta : Int) : Datetime := { now with micros := now.micros + delta }

/-- `ClientNotFoundError`. -/
structure ClientNotFound where
  clientId : String
deriving DecidableEq, Repr

section

variable (clientId newKey : String) (now : Datetime) (gracePeriod : Int)

def rotateKeys (keys : List ApiKey) : List ApiKey :=
  (keys.map fun k => if k.expiresAt = none then ⟨k.key, some (now.add gracePeriod)⟩ else k) ++
    [⟨newKey, none⟩]

def rotateClientKey (clients : List ClientConfig) : Except ClientNotFound (List ClientConfig) :=
  let updated := clients.map fun client =>
    if client.clientId ≠ clientId then client
    else { client with keys := rotateKeys newKey now gracePeriod client.keys }
  if clients.any fun client => client.clientId = clientId then .ok updated else .error ⟨clientId⟩

end

/-! ## Statement -/

/-- The texts written for these clients are read back as what was written. -/
structure KeyFileText.RoundTrip (f : KeyFileText) (clients : List ClientConfig) : Prop where
  str : ∀ s, f.str (.str s) = s
  datetime : ∀ client ∈ clients, ∀ apiKey ∈ client.keys, ∀ expiresAt,
    apiKey.expiresAt = some expiresAt → f.fromisoformat (f.isoformat expiresAt) = some expiresAt
  notEmpty : f.fromisoformat "" = none
  json : f.loads (f.dumps (f.clientsToDict clients) ++ "\n") = some (f.clientsToDict clients)

/-- The clients without the keys of this one that do not expire. -/
def withoutLasting (clientId : String) (clients : List ClientConfig) : List ClientConfig :=
  clients.map fun client =>
    if client.clientId ≠ clientId then client
    else { client with keys := client.keys.filter fun k => k.expiresAt ≠ none }

/-- No other token notices the rotation before the end of the grace period, from then on the keys
that did not expire are gone, the new key is the client's, and the other clients stay as they
are. -/
structure Rotated (clientId newKey : String) (graceEnd : Datetime)
    (clients clients' : List ClientConfig) : Prop where
  noOutage : ∀ token, token ≠ newKey → ∀ t, graceEnd.le t = .ok false →
    (ApiKeyStore.mk clients').authenticate token t = (ApiKeyStore.mk clients).authenticate token t
  noLeak : ∀ token, token ≠ newKey → ∀ t, graceEnd.le t = .ok true →
    (ApiKeyStore.mk clients').authenticate token t =
      (ApiKeyStore.mk (withoutLasting clientId clients)).authenticate token t
  fresh : ∀ client ∈ clients, client.clientId = clientId → ∀ t,
    (ApiKeyStore.mk clients').authenticate newKey t =
      .ok (some ⟨clientId, client.allowedPathPrefixes⟩)
  others : List.Forall₂ (fun client client' => client'.clientId = client.clientId ∧
    (client.clientId ≠ clientId → client' = client)) clients clients'

/-! ## The file -/

namespace KeyFileText

variable {f : KeyFileText} {clients : List ClientConfig}

theorem apiKeyFromDict_toDict (hstr : ∀ s, f.str (.str s) = s) (hempty : f.fromisoformat "" = none)
    {apiKey : ApiKey} (h : ∀ expiresAt, apiKey.expiresAt = some expiresAt →
      f.fromisoformat (f.isoformat expiresAt) = some expiresAt) :
    f.apiKeyFromDict (f.apiKeyToDict apiKey) = some apiKey := by
  obtain ⟨key, expiresAt⟩ := apiKey
  have hkey : (f.apiKeyToDict ⟨key, expiresAt⟩).item "key" = .ok (.str key) := rfl
  have hexpires : (f.apiKeyToDict ⟨key, expiresAt⟩).get "expires_at" .null =
      .ok (expiresAt.elim .null fun expiresAt => .str (f.isoformat expiresAt)) := rfl
  unfold apiKeyFromDict
  rw [hkey, hexpires]
  cases expiresAt with
  | none =>
    change some (ApiKey.mk (f.str (.str key)) none) = _
    rw [hstr]
  | some expiresAt =>
    have hback := h expiresAt rfl
    have htext : f.isoformat expiresAt ≠ "" := by
      intro heq
      rw [heq, hempty] at hback
      cases hback
    simp [Except.toOption, Json.truthy, htext, hstr, hback]

theorem clientConfigFromDict_toDict (h : f.RoundTrip clients) {client : ClientConfig}
    (hclient : client ∈ clients) :
    f.clientConfigFromDict (f.clientConfigToDict client) = some client := by
  have hprefixes : (client.allowedPathPrefixes.map Json.str).mapM asString =
      some client.allowedPathPrefixes := Json.mapM_map_some fun _ _ => rfl
  have hkeys : (client.keys.map f.apiKeyToDict).mapM f.apiKeyFromDict = some client.keys := by
    refine Json.mapM_map_some fun apiKey hapiKey => ?_
    exact apiKeyFromDict_toDict h.str h.notEmpty (h.datetime client hclient apiKey hapiKey)
  simp [clientConfigFromDict, clientConfigToDict, Json.item, Json.field?, iterate, h.str, hprefixes,
    hkeys, Except.toOption, List.lookup]

/-- What was saved is loaded. -/
theorem loadClients_saveClients (h : f.RoundTrip clients) :
    f.loadClients (f.saveClients clients) = some clients := by
  have hclients : (clients.map f.clientConfigToDict).mapM f.clientConfigFromDict = some clients :=
    Json.mapM_map_some fun client hclient => clientConfigFromDict_toDict h hclient
  rw [loadClients, saveClients, h.json]
  simp [clientsToDict, Json.item, Json.field?, iterate, hclients, Except.toOption]

end KeyFileText

/-! ## One client -/

section

variable {token clientId newKey : String} {now t : Datetime} {gracePeriod : Int}
  {keys : List ApiKey} {clients : List ClientConfig}

/-- Keys for other tokens are passed over, whether or not they can be compared with the time. -/
theorem acceptsToken_of_ne {apiKey : ApiKey} (h : apiKey.key ≠ token) :
    acceptsToken token t (apiKey :: keys) = acceptsToken token t keys := by
  rw [acceptsToken, if_pos h]

theorem acceptsToken_lasting : acceptsToken token t (⟨token, none⟩ :: keys) = .ok true := by
  rw [acceptsToken, if_neg (not_not.mpr rfl)]

theorem acceptsToken_expiring {expiresAt : Datetime} :
    acceptsToken token t (⟨token, some expiresAt⟩ :: keys) = (do
      if ← expiresAt.le t then acceptsToken token t keys else return true) := by
  rw [acceptsToken, if_neg (not_not.mpr rfl)]

theorem acceptsToken_none (h : ∀ apiKey ∈ keys, apiKey.key ≠ token) :
    acceptsToken token t keys = .ok false := by
  induction keys with
  | nil => rfl
  | cons apiKey rest ih =>
    rw [List.forall_mem_cons] at h
    rw [acceptsToken_of_ne h.1, ih h.2]

theorem acceptsToken_newKey (h : ∀ apiKey ∈ keys, apiKey.key ≠ newKey) :
    acceptsToken newKey t (rotateKeys newKey now gracePeriod keys) = .ok true := by
  unfold rotateKeys
  induction keys with
  | nil => exact acceptsToken_lasting
  | cons apiKey rest ih =>
    rw [List.forall_mem_cons] at h
    rw [List.map_cons, List.cons_append]
    refine (acceptsToken_of_ne ?_).trans (ih h.2)
    split
    · exact h.1
    · exact h.1

/-- Before the end of the grace period, a key that was given one still does not expire. -/
theorem acceptsToken_before (hne : token ≠ newKey) (ht : (now.add gracePeriod).le t = .ok false) :
    acceptsToken token t (rotateKeys newKey now gracePeriod keys) = acceptsToken token t keys := by
  unfold rotateKeys
  induction keys with
  | nil => exact acceptsToken_of_ne hne.symm
  | cons apiKey rest ih =>
    obtain ⟨key, expiresAt⟩ := apiKey
    rw [List.map_cons, List.cons_append]
    by_cases hkey : key = token
    · subst hkey
      cases expiresAt with
      | none =>
        rw [if_pos rfl, acceptsToken_expiring, ht, acceptsToken_lasting]
        rfl
      | some expiresAt =>
        rw [if_neg (by simp), acceptsToken_expiring, acceptsToken_expiring, ih]
    · have hsame : ∀ {expiresAt : Option Datetime} {keys : List ApiKey},
          acceptsToken token t (⟨key, expiresAt⟩ :: keys) = acceptsToken token t keys :=
        acceptsToken_of_ne hkey
      split
      · rw [hsame, hsame, ih]
      · rw [hsame, hsame, ih]

/-- From the end of the grace period on, it has expired. -/
theorem acceptsToken_after (hne : token ≠ newKey) (ht : (now.add gracePeriod).le t = .ok true) :
    acceptsToken token t (rotateKeys newKey now gracePeriod keys) =
      acceptsToken token t (keys.filter fun k => k.expiresAt ≠ none) := by
  unfold rotateKeys
  induction keys with
  | nil => exact acceptsToken_of_ne hne.symm
  | cons apiKey rest ih =>
    obtain ⟨key, expiresAt⟩ := apiKey
    rw [List.map_cons, List.cons_append]
    cases expiresAt with
    | none =>
      rw [if_pos rfl, List.filter_cons_of_neg (by simp), ← ih]
      by_cases hkey : key = token
      · subst hkey
        rw [acceptsToken_expiring, ht]
        rfl
      · exact acceptsToken_of_ne hkey
    | some expiresAt =>
      rw [if_neg (by simp), List.filter_cons_of_pos (by simp)]
      by_cases hkey : key = token
      · subst hkey
        rw [acceptsToken_expiring, acceptsToken_expiring, ih]
      · have hsame : ∀ {keys : List ApiKey},
            acceptsToken token t (⟨key, some expiresAt⟩ :: keys) = acceptsToken token t keys :=
          acceptsToken_of_ne hkey
        rw [hsame, hsame, ih]

/-! ## All clients -/

/-- Lists of clients that agree on ids and prefixes and accept the token alike. -/
theorem authenticateClients_map {f g : ClientConfig → ClientConfig}
    (hid : ∀ client, (f client).clientId = (g client).clientId)
    (hprefixes : ∀ client, (f client).allowedPathPrefixes = (g client).allowedPathPrefixes)
    (haccepts : ∀ client, acceptsToken token t (f client).keys = acceptsToken token t (g client).keys) :
    authenticateClients token t (clients.map f) = authenticateClients token t (clients.map g) := by
  induction clients with
  | nil => rfl
  | cons client rest ih =>
    rw [List.map_cons, List.map_cons, authenticateClients, authenticateClients, hid, hprefixes,
      haccepts, ih]

/-- A client after the rotation. -/
def rotateClient (clientId newKey : String) (now : Datetime) (gracePeriod : Int)
    (client : ClientConfig) : ClientConfig :=
  if client.clientId ≠ clientId then client
  else { client with keys := rotateKeys newKey now gracePeriod client.keys }

theorem rotateClientKey_ok (h : ∃ client ∈ clients, client.clientId = clientId) :
    rotateClientKey clientId newKey now gracePeriod clients =
      .ok (clients.map (rotateClient clientId newKey now gracePeriod)) := by
  have hany : (clients.any fun client => client.clientId = clientId) = true := by
    rw [List.any_eq_true]
    simpa using h
  exact if_pos hany

theorem authenticate_before (hne : token ≠ newKey) (ht : (now.add gracePeriod).le t = .ok false) :
    authenticateClients token t (clients.map (rotateClient clientId newKey now gracePeriod)) =
      authenticateClients token t clients := by
  have hmap : authenticateClients token t
      (clients.map (rotateClient clientId newKey now gracePeriod)) =
        authenticateClients token t (clients.map id) := by
    refine authenticateClients_map ?_ ?_ ?_ <;> intro client <;> unfold rotateClient <;> split
    · rfl
    · rfl
    · rfl
    · rfl
    · rfl
    · exact acceptsToken_before hne ht
  rwa [List.map_id] at hmap

theorem authenticate_after (hne : token ≠ newKey) (ht : (now.add gracePeriod).le t = .ok true) :
    authenticateClients token t (clients.map (rotateClient clientId newKey now gracePeriod)) =
      authenticateClients token t (withoutLasting clientId clients) := by
  refine authenticateClients_map ?_ ?_ ?_ <;> intro client <;> unfold rotateClient <;> split
  · rfl
  · rfl
  · rfl
  · rfl
  · rfl
  · exact acceptsToken_after hne ht

theorem authenticate_newKey {client : ClientConfig} (hmem : client ∈ clients)
    (hid : client.clientId = clientId)
    (honly : ∀ other ∈ clients, other.clientId = clientId → other = client)
    (hnew : ∀ client ∈ clients, ∀ apiKey ∈ client.keys, apiKey.key ≠ newKey) :
    authenticateClients newKey t (clients.map (rotateClient clientId newKey now gracePeriod)) =
      .ok (some ⟨clientId, client.allowedPathPrefixes⟩) := by
  induction clients with
  | nil => cases hmem
  | cons first rest ih =>
    rw [List.forall_mem_cons] at honly hnew
    rw [List.map_cons, authenticateClients]
    by_cases hfirst : first.clientId = clientId
    · cases honly.1 hfirst
      rw [rotateClient, if_neg (not_not.mpr hid)]
      simp only [acceptsToken_newKey hnew.1, bind, Except.bind, if_true, hid]
      rfl
    · have hrest : client ∈ rest := by
        refine (List.mem_cons.mp hmem).resolve_left ?_
        rintro rfl
        exact hfirst hid
      rw [rotateClient, if_pos hfirst, acceptsToken_none hnew.1, ← ih hrest honly.2 hnew.2]
      rfl

/-- Two clients of one id are one. -/
theorem eq_of_clientId_eq (hnodup : (clients.map ClientConfig.clientId).Nodup)
    {client other : ClientConfig} (hclient : client ∈ clients) (hother : other ∈ clients)
    (h : other.clientId = client.clientId) : other = client :=
  List.inj_on_of_nodup_map hnodup hother hclient h

end

/-- The file of a client whose key `old` was rotated. -/
def rotatedFile : String :=
  "\x7b\n  \"clients\": [\n    \x7b\n      \"client_id\": \"chat\",\n" ++
  "      \"allowed_path_prefixes\": [\n        \"/v1/\"\n      ],\n      \"keys\": [\n" ++
  "        \x7b\n          \"key\": \"old\",\n" ++
  "          \"expires_at\": \"1970-01-02T00:00:00+00:00\"\n        \x7d,\n" ++
  "        \x7b\n          \"key\": \"new\",\n          \"expires_at\": null\n        \x7d\n" ++
  "      ]\n    \x7d\n  ]\n\x7d"

/-- The texts of that file. -/
def rotatedText : KeyFileText where
  str
    | .str s => s
    | _ => ""
  isoformat _ := "1970-01-02T00:00:00+00:00"
  fromisoformat text :=
    if text = "1970-01-02T00:00:00+00:00" then some (.utc 86400000000) else none
  dumps _ := rotatedFile
  loads text :=
    if text = rotatedFile ++ "\n" then
      some (.obj [("clients", .arr [.obj [("client_id", .str "chat"),
        ("allowed_path_prefixes", .arr [.str "/v1/"]),
        ("keys", .arr [.obj [("key", .str "old"),
            ("expires_at", .str "1970-01-02T00:00:00+00:00")],
          .obj [("key", .str "new"), ("expires_at", .null)]])]])])
    else none

end LlmHomeLab
