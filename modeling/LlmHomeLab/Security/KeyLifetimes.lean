import LlmHomeLab.Lib.Runs
import LlmHomeLab.Security.RotateKeys

/-! # How long a key is accepted

The key file is rewritten by one run of the rotation script after the other, and read by the
gateway when it starts. Over any number of rotations and restarts, a key that does not expire by
itself is accepted until the grace period of the first rotation after its issue is over.
-/

namespace LlmHomeLab

/-! ## Model -/

/-- A run of the rotation script: its client, the key it has drawn, and its times. -/
structure Rotation where
  clientId : String
  newKey : String
  now : Int
  gracePeriod : Int
deriving DecidableEq, Repr

def Rotation.graceEnd (r : Rotation) : Int := r.now + r.gracePeriod

inductive KeyEvent where
  | rotate (r : Rotation)
  /-- The gateway starts, and loads its keys. -/
  | restart
deriving DecidableEq, Repr

/-- The key file, and the keys the gateway has loaded. -/
structure KeyState where
  file : String
  store : ApiKeyStore

/-- `main`, of the text of the file. Where the file cannot be read or has no such client, it stays
as it is. -/
def rotateMain (f : KeyFileText) (r : Rotation) (text : String) : String :=
  match f.loadClients text with
  | none => text
  | some clients =>
    match rotateClientKey r.clientId r.newKey (.utc r.now) r.gracePeriod clients with
    | .error _ => text
    | .ok updated => f.saveClients updated

/-- A gateway whose key file cannot be read does not start. -/
def keyStep (f : KeyFileText) (s : KeyState) : KeyEvent → Option KeyState
  | .rotate r => some { s with file := rotateMain f r s.file }
  | .restart => (f.loadClients s.file).map fun clients => { s with store := ⟨clients⟩ }

/-! ## Statement -/

/-- The rotations of one client, in order. -/
def rotationsOf (clientId : String) (es : List KeyEvent) : List Rotation :=
  es.filterMap fun
    | .rotate r => if r.clientId = clientId then some r else none
    | .restart => none

/-- What the gateway has loaded was written by these events. -/
def loadedEvents (es : List KeyEvent) : List KeyEvent := es.rdropWhile (· ≠ .restart)

/-- The first rotation, if there is one, has not taken its keys away yet. -/
def WithinGrace (rs : List Rotation) (t : Int) : Prop := ∀ r, rs.head? = some r → t < r.graceEnd

/-- A client with these keys and these rotations may use the token at `t`. -/
inductive HoldsKey (keys : List ApiKey) (rs : List Rotation) (token : String) (t : Int) : Prop
  | expiring {expiresAt : Datetime} (key : ⟨token, some expiresAt⟩ ∈ keys)
      (before : t < expiresAt.micros) : HoldsKey keys rs token t
  | lasting (key : ⟨token, none⟩ ∈ keys) (grace : WithinGrace rs t) : HoldsKey keys rs token t
  | issued {earlier later : List Rotation} {r : Rotation} (rotations : rs = earlier ++ r :: later)
      (key : r.newKey = token) (grace : WithinGrace later t) : HoldsKey keys rs token t

/-- No token is given to two clients. -/
def OneOwner (clients : List ClientConfig) (es : List KeyEvent) : Prop :=
  ∀ token, ∀ client ∈ clients, ∀ other ∈ clients,
    (token ∈ client.keys.map ApiKey.key ∨
      token ∈ (rotationsOf client.clientId es).map Rotation.newKey) →
    (token ∈ other.keys.map ApiKey.key ∨
      token ∈ (rotationsOf other.clientId es).map Rotation.newKey) → other = client

/-- A client after these events. -/
def afterEvents (es : List KeyEvent) (client : ClientConfig) : ClientConfig :=
  { client with
    keys := (rotationsOf client.clientId es).foldl
      (fun keys r => rotateKeys r.newKey (.utc r.now) r.gracePeriod keys) client.keys }

/-- The texts that the rotations write are read back as what was written. -/
def ReadsBack (f : KeyFileText) (clients : List ClientConfig) (es : List KeyEvent) : Prop :=
  ∀ pre r post, es = pre ++ .rotate r :: post → (∃ client ∈ clients, client.clientId = r.clientId) →
    f.RoundTrip (clients.map (afterEvents (pre ++ [.rotate r])))

/-- The expiry times of the file have a time zone, as all that rotations write do. -/
def Aware (keys : List ApiKey) : Prop :=
  ∀ k ∈ keys, ∀ expiresAt, k.expiresAt = some expiresAt → expiresAt.aware = true

/-! ## The keys of a client -/

section

variable {keys : List ApiKey} {rs : List Rotation} {r : Rotation} {token : String} {t : Int}

/-- A key of the list accepts the token. -/
theorem holdsKey_nil :
    HoldsKey keys [] token t ↔
      ∃ k ∈ keys, k.key = token ∧ ∀ expiresAt, k.expiresAt = some expiresAt → t < expiresAt.micros := by
  constructor
  · rintro (⟨hkey, hbefore⟩ | ⟨hkey, -⟩ | ⟨hrotations, -, -⟩)
    · refine ⟨_, hkey, rfl, fun expiresAt h => ?_⟩
      cases h
      exact hbefore
    · exact ⟨_, hkey, rfl, fun expiresAt h => by cases h⟩
    · simp at hrotations
  · rintro ⟨⟨key, expiresAt⟩, hmem, rfl, hbefore⟩
    cases expiresAt with
    | none => exact .lasting hmem fun r h => by simp at h
    | some expiresAt => exact .expiring hmem (hbefore _ rfl)

/-- `authenticate` finds a key that accepts the token behind keys that have expired. -/
theorem acceptsToken_eq (haware : Aware keys) :
    ∃ accepted, acceptsToken token (.utc t) keys = .ok accepted ∧
      (accepted = true ↔ HoldsKey keys [] token t) := by
  simp only [holdsKey_nil]
  induction keys with
  | nil => exact ⟨false, rfl, by simp⟩
  | cons k rest ih =>
    obtain ⟨accepted, hrest, hiff⟩ := ih fun k hk => haware k (List.mem_cons_of_mem _ hk)
    obtain ⟨key, expiresAt⟩ := k
    by_cases hkey : key = token
    · subst hkey
      cases expiresAt with
      | none => exact ⟨true, acceptsToken_lasting, by simp⟩
      | some expiresAt =>
        have hle : expiresAt.le (.utc t) = .ok (decide (expiresAt.micros ≤ t)) :=
          if_pos (haware _ List.mem_cons_self _ rfl)
        rw [acceptsToken_expiring, hle]
        by_cases hexpired : expiresAt.micros ≤ t
        · refine ⟨accepted, by simpa [hexpired, bind, Except.bind] using hrest, ?_⟩
          rw [hiff, List.exists_mem_cons_iff]
          simp [hexpired.not_gt]
        · refine ⟨true, by simp [hexpired, bind, Except.bind, pure, Except.pure], ?_⟩
          rw [List.exists_mem_cons_iff]
          simp [lt_of_not_ge hexpired]
    · refine ⟨accepted, (acceptsToken_of_ne hkey).trans hrest, ?_⟩
      rw [hiff, List.exists_mem_cons_iff]
      simp [hkey]

theorem aware_rotateKeys (haware : Aware keys) :
    Aware (rotateKeys r.newKey (.utc r.now) r.gracePeriod keys) := by
  intro k hk expiresAt hexpires
  rcases List.mem_append.mp hk with hk | hk
  · obtain ⟨old, hold, rfl⟩ := List.mem_map.mp hk
    split at hexpires
    · cases hexpires
      rfl
    · exact haware old hold expiresAt hexpires
  · cases List.mem_singleton.mp hk
    cases hexpires

/-- One rotation: keys that expire stay, the others get its grace period, and a new one is
issued. -/
theorem holdsKey_cons :
    HoldsKey keys (r :: rs) token t ↔
      HoldsKey (rotateKeys r.newKey (.utc r.now) r.gracePeriod keys) rs token t := by
  constructor
  · rintro (⟨hkey, hbefore⟩ | ⟨hkey, hgrace⟩ | @⟨earlier, later, issuer, hrotations, hkey, hgrace⟩)
    · refine .expiring (List.mem_append_left _ (List.mem_map.mpr ⟨_, hkey, ?_⟩)) hbefore
      simp
    · exact .expiring (List.mem_append_left _ (List.mem_map.mpr ⟨_, hkey, rfl⟩)) (hgrace r rfl)
    · cases earlier with
      | nil =>
        cases hrotations
        subst hkey
        exact .lasting (List.mem_append_right _ (List.mem_singleton.mpr rfl)) hgrace
      | cons first earlier =>
        cases hrotations
        exact .issued rfl hkey hgrace
  · rintro (⟨hkey, hbefore⟩ | ⟨hkey, hgrace⟩ | ⟨hrotations, hkey, hgrace⟩)
    · rcases List.mem_append.mp hkey with hkey | hkey
      · obtain ⟨⟨key, expiresAt⟩, hold, heq⟩ := List.mem_map.mp hkey
        cases expiresAt with
        | none =>
          cases heq
          refine .lasting hold fun first hfirst => ?_
          cases hfirst
          exact hbefore
        | some expiresAt =>
          rw [if_neg (by simp)] at heq
          exact .expiring (heq ▸ hold) hbefore
      · simp at hkey
    · rcases List.mem_append.mp hkey with hkey | hkey
      · obtain ⟨⟨key, expiresAt⟩, -, heq⟩ := List.mem_map.mp hkey
        cases expiresAt with
        | none => cases heq
        | some expiresAt =>
          rw [if_neg (by simp)] at heq
          cases heq
      · cases List.mem_singleton.mp hkey
        exact .issued (List.nil_append _).symm rfl hgrace
    · subst hrotations
      exact .issued (List.cons_append).symm hkey hgrace

/-- Any number of rotations. -/
theorem acceptsToken_rotations (haware : Aware keys) (rs : List Rotation) :
    ∃ accepted, acceptsToken token (.utc t) (rs.foldl
        (fun keys r => rotateKeys r.newKey (.utc r.now) r.gracePeriod keys) keys) = .ok accepted ∧
      (accepted = true ↔ HoldsKey keys rs token t) := by
  induction rs generalizing keys with
  | nil => exact acceptsToken_eq haware
  | cons r rs ih =>
    rw [List.foldl_cons, holdsKey_cons]
    exact ih (aware_rotateKeys haware)

/-- Who holds a token was given it. -/
theorem HoldsKey.given (h : HoldsKey keys rs token t) :
    token ∈ keys.map ApiKey.key ∨ token ∈ rs.map Rotation.newKey := by
  rcases h with ⟨hkey, -⟩ | ⟨hkey, -⟩ | ⟨rfl, rfl, -⟩
  · exact Or.inl (List.mem_map.mpr ⟨_, hkey, rfl⟩)
  · exact Or.inl (List.mem_map.mpr ⟨_, hkey, rfl⟩)
  · exact Or.inr (List.mem_map.mpr ⟨_, by simp, rfl⟩)

end

/-! ## Runs -/

section

variable {f : KeyFileText} {clients : List ClientConfig} {es : List KeyEvent} {e : KeyEvent}
  {s₀ s s' : KeyState} {token : String} {t : Int}

/-- The file holds what all rotations so far have left, the gateway what those before its last
start have. -/
structure KeyInv (f : KeyFileText) (clients : List ClientConfig) (es : List KeyEvent)
    (s : KeyState) : Prop where
  file : f.loadClients s.file = some (clients.map (afterEvents es))
  store : s.store = ⟨clients.map (afterEvents (loadedEvents es))⟩

theorem afterEvents_restart (es : List KeyEvent) (client : ClientConfig) :
    afterEvents (es ++ [.restart]) client = afterEvents es client := by
  simp [afterEvents, rotationsOf, List.filterMap_append]

theorem afterEvents_rotate (es : List KeyEvent) (r : Rotation) (client : ClientConfig) :
    afterEvents (es ++ [.rotate r]) client =
      rotateClient r.clientId r.newKey (.utc r.now) r.gracePeriod (afterEvents es client) := by
  by_cases h : client.clientId = r.clientId
  · simp [afterEvents, rotationsOf, rotateClient, List.filterMap_append, h]
  · simp [afterEvents, rotationsOf, rotateClient, List.filterMap_append, h, Ne.symm h]

theorem clientId_afterEvents {client : ClientConfig} :
    (afterEvents es client).clientId = client.clientId := rfl

/-- The clients in the file after one rotation more. -/
theorem map_afterEvents_rotate (r : Rotation) :
    clients.map (afterEvents (es ++ [.rotate r])) =
      (clients.map (afterEvents es)).map
        (rotateClient r.clientId r.newKey (.utc r.now) r.gracePeriod) := by
  rw [List.map_map]
  exact List.map_congr_left fun client _ => afterEvents_rotate es r client

theorem loadClients_rotateMain {r : Rotation} {text : String}
    (hread : (∃ client ∈ clients, client.clientId = r.clientId) →
      f.RoundTrip (clients.map (afterEvents (es ++ [.rotate r]))))
    (hfile : f.loadClients text = some (clients.map (afterEvents es))) :
    f.loadClients (rotateMain f r text) = some (clients.map (afterEvents (es ++ [.rotate r]))) := by
  unfold rotateMain
  rw [hfile]
  by_cases hmem : ∃ client ∈ clients, client.clientId = r.clientId
  · have hok : rotateClientKey r.clientId r.newKey (.utc r.now) r.gracePeriod
        (clients.map (afterEvents es)) = .ok (clients.map (afterEvents (es ++ [.rotate r]))) := by
      rw [map_afterEvents_rotate]
      exact rotateClientKey_ok (by simpa [clientId_afterEvents] using hmem)
    simp only [hok]
    exact KeyFileText.loadClients_saveClients (hread hmem)
  · -- the script has found no such client, and has written nothing
    have hnone : ∀ client ∈ clients, client.clientId ≠ r.clientId :=
      fun client hclient h => hmem ⟨client, hclient, h⟩
    have herror : rotateClientKey r.clientId r.newKey (.utc r.now) r.gracePeriod
        (clients.map (afterEvents es)) = .error ⟨r.clientId⟩ := by
      refine if_neg ?_
      rw [List.any_map, List.any_eq_true]
      rintro ⟨client, hclient, hid⟩
      exact hnone client hclient (of_decide_eq_true hid)
    have hsame : clients.map (afterEvents (es ++ [.rotate r])) = clients.map (afterEvents es) := by
      refine List.map_congr_left fun client hclient => ?_
      rw [afterEvents_rotate]
      exact if_pos (hnone client hclient)
    simp only [herror]
    rw [hsame, hfile]

theorem KeyInv.step (hread : ReadsBack f clients (es ++ [e])) (hinv : KeyInv f clients es s)
    (h : keyStep f s e = some s') : KeyInv f clients (es ++ [e]) s' := by
  cases e with
  | rotate r =>
    cases h
    refine ⟨loadClients_rotateMain (hread es r [] rfl) hinv.file, ?_⟩
    rw [loadedEvents, List.rdropWhile_concat_pos _ _ _ (by simp)]
    exact hinv.store
  | restart =>
    obtain ⟨loaded, hloaded, rfl⟩ := Option.map_eq_some_iff.mp h
    rw [hinv.file] at hloaded
    cases hloaded
    have hsame : clients.map (afterEvents (es ++ [.restart])) = clients.map (afterEvents es) :=
      List.map_congr_left fun client _ => afterEvents_restart es client
    refine ⟨hsame ▸ hinv.file, ?_⟩
    rw [loadedEvents, List.rdropWhile_concat_neg _ _ _ (by simp), hsame]

theorem readsBack_of_snoc (h : ReadsBack f clients (es ++ [e])) : ReadsBack f clients es := by
  intro pre r post hes
  exact h pre r (post ++ [e]) (by simp [hes])

theorem keyInv_run (hfile : f.loadClients s₀.file = some clients) (hstore : s₀.store = ⟨clients⟩)
    (hread : ReadsBack f clients es) (hrun : Run (Fires (keyStep f)) s₀ es s) :
    KeyInv f clients es s := by
  have hnil : clients.map (afterEvents []) = clients := List.map_id clients
  induction hrun with
  | nil => exact ⟨by rw [hnil, hfile], by rw [hstore]; exact congrArg _ hnil.symm⟩
  | snoc _ hstep ih => exact (ih (readsBack_of_snoc hread)).step hread hstep

/-! ## The result -/

/-- The client found is the one that holds the token. -/
theorem authenticateClients_eq {es : List KeyEvent}
    (haware : ∀ client ∈ clients, Aware client.keys)
    (howner : ∀ client ∈ clients, ∀ other ∈ clients,
      HoldsKey client.keys (rotationsOf client.clientId es) token t →
      HoldsKey other.keys (rotationsOf other.clientId es) token t → other = client) :
    ∃ found, authenticateClients token (.utc t) (clients.map (afterEvents es)) = .ok found ∧
      ∀ identity, found = some identity ↔
        ∃ client ∈ clients, identity = ⟨client.clientId, client.allowedPathPrefixes⟩ ∧
          HoldsKey client.keys (rotationsOf client.clientId es) token t := by
  induction clients with
  | nil => exact ⟨none, rfl, by simp⟩
  | cons client rest ih =>
    rw [List.forall_mem_cons] at haware
    obtain ⟨found, hrest, hiff⟩ := ih haware.2 fun c hc o ho =>
      howner c (List.mem_cons_of_mem _ hc) o (List.mem_cons_of_mem _ ho)
    obtain ⟨accepted, haccepts, hholds⟩ : ∃ accepted,
        acceptsToken token (.utc t) (afterEvents es client).keys = .ok accepted ∧
          (accepted = true ↔ HoldsKey client.keys (rotationsOf client.clientId es) token t) :=
      acceptsToken_rotations haware.1 _
    have hcons : authenticateClients token (.utc t) ((client :: rest).map (afterEvents es)) =
        if accepted then .ok (some ⟨client.clientId, client.allowedPathPrefixes⟩)
        else .ok found := by
      rw [List.map_cons, authenticateClients, haccepts, hrest]
      cases accepted <;> rfl
    rw [hcons]
    cases accepted with
    | true =>
      have hclient := hholds.mp rfl
      refine ⟨_, rfl, fun identity => ⟨fun h => ?_, ?_⟩⟩
      · cases h
        exact ⟨client, List.mem_cons_self, rfl, hclient⟩
      · rintro ⟨other, hother, rfl, hother'⟩
        rw [howner client List.mem_cons_self other hother hclient hother']
    | false =>
      refine ⟨found, rfl, fun identity => (hiff identity).trans ?_⟩
      rw [List.exists_mem_cons_iff]
      refine ⟨Or.inr, fun h => h.resolve_left ?_⟩
      rintro ⟨-, hclient⟩
      cases hholds.mpr hclient

theorem rotationsOf_loaded (clientId : String) (es : List KeyEvent) :
    rotationsOf clientId (loadedEvents es) <+: rotationsOf clientId es :=
  List.IsPrefix.filterMap _ (List.rdropWhile_prefix _ es)

/-- After any number of rotations and restarts, a token is accepted for just the client that
holds it: until it expires, if it came with an expiry time, and else until the grace period of
the first rotation after its issue is over, of those that the gateway has loaded. -/
theorem key_lifetimes (hfile : f.loadClients s₀.file = some clients)
    (hstore : s₀.store = ⟨clients⟩) (haware : ∀ client ∈ clients, Aware client.keys)
    (howner : OneOwner clients es) (hread : ReadsBack f clients es)
    (hrun : Run (Fires (keyStep f)) s₀ es s) (token : String) (t : Int) :
    ∃ found, s.store.authenticate token (.utc t) = .ok found ∧
      ∀ identity, found = some identity ↔
        ∃ client ∈ clients, identity = ⟨client.clientId, client.allowedPathPrefixes⟩ ∧
          HoldsKey client.keys (rotationsOf client.clientId (loadedEvents es)) token t := by
  have hgiven : ∀ {client : ClientConfig},
      HoldsKey client.keys (rotationsOf client.clientId (loadedEvents es)) token t →
        token ∈ client.keys.map ApiKey.key ∨
          token ∈ (rotationsOf client.clientId es).map Rotation.newKey := by
    intro client h
    refine h.given.imp_right fun hmem => ?_
    exact List.map_subset _ (rotationsOf_loaded client.clientId es).subset hmem
  rw [(keyInv_run hfile hstore hread hrun).store]
  refine authenticateClients_eq haware fun client hclient other hother h h' => ?_
  exact howner token client hclient other hother (hgiven h) (hgiven h')

end

/-- The file of a client with the key `old` that does not expire. -/
def issuedFile : String :=
  "\x7b\n  \"clients\": [\n    \x7b\n      \"client_id\": \"chat\",\n" ++
  "      \"allowed_path_prefixes\": [\n        \"/v1/\"\n      ],\n      \"keys\": [\n" ++
  "        \x7b\n          \"key\": \"old\",\n          \"expires_at\": null\n        \x7d\n" ++
  "      ]\n    \x7d\n  ]\n\x7d"

/-- The texts of that file, before and after its rotation. -/
def issuedText : KeyFileText :=
  { rotatedText with
    loads := fun text =>
      if text = issuedFile ++ "\n" then
        some (.obj [("clients", .arr [.obj [("client_id", .str "chat"),
          ("allowed_path_prefixes", .arr [.str "/v1/"]),
          ("keys", .arr [.obj [("key", .str "old"), ("expires_at", .null)]])]])])
      else rotatedText.loads text }

/-- The client of that file. -/
def issuedClients : List ClientConfig := [⟨"chat", ["/v1/"], [⟨"old", none⟩]⟩]

/-- A rotation and a restart. -/
def rotatedOnce : List KeyEvent := [.rotate ⟨"chat", "new", 0, 86400000000⟩, .restart]

theorem issuedText_readsBack : ReadsBack issuedText issuedClients rotatedOnce := by
  intro pre r post hes _
  cases pre with
  | cons first pre =>
    -- only the first event is a rotation
    simp only [rotatedOnce, List.cons_append, List.cons.injEq] at hes
    cases pre <;> simp at hes
  | nil =>
    cases hes
    have hafter : issuedClients.map (afterEvents [.rotate ⟨"chat", "new", 0, 86400000000⟩]) =
        [⟨"chat", ["/v1/"], [⟨"old", some (.utc 86400000000)⟩, ⟨"new", none⟩]⟩] := rfl
    rw [List.nil_append, hafter]
    refine ⟨fun _ => rfl, ?_, by simp [issuedText, rotatedText], ?_⟩
    · intro client hclient apiKey hapiKey expiresAt hexpires
      cases List.mem_singleton.mp hclient
      simp only [List.mem_cons, List.not_mem_nil, or_false] at hapiKey
      rcases hapiKey with rfl | rfl
      · cases hexpires
        simp [issuedText, rotatedText]
      · cases hexpires
    · have hne : rotatedFile ++ "\n" ≠ issuedFile ++ "\n" := by decide +kernel
      simp only [issuedText, rotatedText, if_neg hne, if_true]
      rfl

/-- The old key is accepted for another day. -/
theorem key_lifetimes_day :
    ∃ s, Run (Fires (keyStep issuedText)) ⟨issuedFile ++ "\n", ⟨issuedClients⟩⟩ rotatedOnce s ∧
      ∀ t, ∃ found, s.store.authenticate "old" (.utc t) = .ok found ∧
        (found = some ⟨"chat", ["/v1/"]⟩ ↔ t < 86400000000) := by
  have hfile : issuedText.loadClients (issuedFile ++ "\n") = some issuedClients := by
    simp only [KeyFileText.loadClients, issuedText, if_true]
    rfl
  have haware : ∀ client ∈ issuedClients, Aware client.keys := by
    intro client hclient k hk expiresAt hexpires
    cases List.mem_singleton.mp hclient
    cases List.mem_singleton.mp hk
    cases hexpires
  have howner : OneOwner issuedClients rotatedOnce := by
    intro token client hclient other hother _ _
    rw [List.mem_singleton.mp hclient, List.mem_singleton.mp hother]
  have hexec : (exec (keyStep issuedText) ⟨issuedFile ++ "\n", ⟨issuedClients⟩⟩
      rotatedOnce).isSome := by
    decide +kernel
  obtain ⟨s, hs⟩ := Option.isSome_iff_exists.mp hexec
  refine ⟨s, run_of_exec hs, fun t => ?_⟩
  obtain ⟨found, hfound, hiff⟩ :=
    @key_lifetimes issuedText issuedClients rotatedOnce ⟨issuedFile ++ "\n", ⟨issuedClients⟩⟩ s
      hfile rfl haware howner issuedText_readsBack (run_of_exec hs) "old" t
  have hloaded : rotationsOf "chat" (loadedEvents rotatedOnce) =
      [⟨"chat", "new", 0, 86400000000⟩] := by
    decide +kernel
  refine ⟨found, hfound, (hiff _).trans ⟨?_, fun ht => ?_⟩⟩
  · rintro ⟨client, hclient, -, hkey | ⟨-, hgrace⟩ | @⟨earlier, later, r, hrotations, hkey, -⟩⟩
    · cases List.mem_singleton.mp hclient
      simp at hkey
    · cases List.mem_singleton.mp hclient
      rw [hloaded] at hgrace
      have hlt : t < (0 : Int) + 86400000000 := hgrace ⟨"chat", "new", 0, 86400000000⟩ rfl
      rwa [zero_add] at hlt
    · -- the key of the rotation is another one
      cases List.mem_singleton.mp hclient
      rw [hloaded] at hrotations
      have hmem : r ∈ earlier ++ r :: later := List.mem_append_right _ List.mem_cons_self
      rw [← hrotations] at hmem
      rw [List.mem_singleton.mp hmem] at hkey
      exact absurd hkey (by decide)
  · refine ⟨_, List.mem_singleton.mpr rfl, rfl, .lasting (List.mem_singleton.mpr rfl) ?_⟩
    rw [hloaded]
    intro r hr
    cases hr
    exact ht.trans_eq (zero_add _).symm

end LlmHomeLab
