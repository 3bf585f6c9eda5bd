import LlmHomeLab.Api.Auth
import LlmHomeLab.Leases.PathGrammar
import LlmHomeLab.Lib.Json

/-! # The base URL of a leased client

`leases/runner.py` makes a base URL out of the orchestrator's and a token, a client posts its chat
requests there, the prefix becomes a lease header, and `chat_completions` pins the request to the
header unless that is empty. `leased_base_iff` puts the three together.
-/

namespace LlmHomeLab

/-! ## Model -/

/-- A scheme and an authority. -/
structure Origin where
  scheme : String
  authority : String
  scheme_ne : scheme ≠ ""
  scheme_letters : ∀ c ∈ scheme.toList, Text.isAsciiLetter c = true
  authority_ne : authority ≠ ""
  authority_clean : ∀ c ∈ authority.toList, Text.endsNetloc c = false ∧ Json.isSpace c = false

def Origin.text (origin : Origin) : String := origin.scheme ++ "://" ++ origin.authority

/-- An origin or an origin ending in `/v1`, with slashes behind it and spaces around it. -/
structure BaseUrl where
  origin : Origin
  v1 : Bool
  slashes : Nat
  before : String
  after : String
  before_space : ∀ c ∈ before.toList, Json.isSpace c = true
  after_space : ∀ c ∈ after.toList, Json.isSpace c = true

def BaseUrl.text (base : BaseUrl) : String :=
  base.before ++ (base.origin.text ++ (if base.v1 then "/v1" else "") ++
    String.ofList (List.replicate base.slashes '/')) ++ base.after

/-- The alphabet of `secrets.token_urlsafe`. -/
def isUrlSafe (c : Char) : Bool :=
  Text.isAsciiLetter c ∨ ('0' ≤ c ∧ c ≤ '9') ∨ c = '-' ∨ c = '_'

structure LeaseToken where
  text : String
  nonempty : text ≠ ""
  urlSafe : ∀ c ∈ text.toList, isUrlSafe c = true

/-- `base_url.strip().rstrip("/")`, less a `/v1` at its end. -/
def orchestratorOrigin (baseUrl : String) : String :=
  let stripped := (baseUrl.toList.dropWhile Json.isSpace).rdropWhile Json.isSpace
  let root := stripped.rdropWhile (· = '/')
  if "/v1".toList.isSuffixOf root then String.ofList (root.take (root.length - 3))
  else String.ofList root

def leasedClientBase (baseUrl token : String) : String :=
  orchestratorOrigin baseUrl ++ "/lease/" ++ token ++ "/v1"

/-- The scope of a POST to a URL: its path, and the headers under lower-case names. -/
def postScope (url : String) (headers : List (String × String)) (server : Option String) : Scope where
  method := "POST"
  path := (Text.urlsplitPath (fun _ => true) url).getD ""
  headers := headers.map fun item => (item.1.toLower, item.2)
  server := server

/-- A chat request to the base URL of a leased client. -/
def leasedChatScope (baseUrl token : String) (headers : List (String × String))
    (server : Option String) : Scope :=
  postScope (leasedClientBase baseUrl token ++ "/chat/completions") headers server

/-- The lease header a client sends, the first of them. -/
def clientLease (headers : List (String × String)) : Option String :=
  header leaseHeader (headers.map fun item => (item.1.toLower, item.2))

/-- The token `chat_completions` pins a request to: the lease header, where it is truthy. -/
def pinnedToken (scope : Scope) : Option String :=
  (header leaseHeader scope.headers).filter (· ≠ "")

section

variable (checkNetloc : List Char → Bool)

/-- The application, with `auth_enabled` where there is a key store. -/
def serveApp (auth : Option (ApiKeyStore × Datetime)) (scope : Scope) : Served Handler :=
  match auth with
  | some (keyStore, now) => serve checkNetloc appRoute keyStore now scope
  | none =>
    let scope := rewriteLeasePath scope
    if Text.startsWith scope.path "/lease/" then .leasePathNotFound
    else callNext appRoute scope

/-- The request is rejected, or `chat_completions` pins it to the lease header the client sent,
and without one to the token in the path. -/
def PinnedOrRejected (auth : Option (ApiKeyStore × Datetime)) (token : String)
    (headers : List (String × String)) (scope : Scope) : Prop :=
  ∀ h, serveApp checkNetloc auth scope = .handler h →
    h = .chatCompletions ∧
      pinnedToken (rewriteLeasePath scope) = some ((clientLease headers).getD token)

/-- `enforce_auth` lets a chat request with these headers through. -/
def LetsThrough (auth : Option (ApiKeyStore × Datetime)) (scope : Scope) : Prop :=
  match auth with
  | none => True
  | some (keyStore, now) => ∃ path, requestUrlPath checkNetloc scope = some path ∧
      (path ∈ authExemptPaths ∨ (bearerToken scope ≠ some "" ∧ Admitted keyStore now scope path))

end

/-! ## The base URL -/

theorem rdropWhile_append_of_all {p : Char → Bool} {l r : List Char} (hr : ∀ c ∈ r, p c = true)
    (hl : ∀ c, l.getLast? = some c → p c = false) : (l ++ r).rdropWhile p = l := by
  rw [List.rdropWhile, List.reverse_append]
  have hsplit := (Text.takeWhile_append_of_all (l := r.reverse) (r := l.reverse) (p := p)
    (fun c hc => hr c (List.mem_reverse.mp hc))
    (fun c hc => hl c (by rwa [List.head?_reverse] at hc))).2
  rw [hsplit, List.reverse_reverse]

theorem isSpace_letter {c : Char} (h : Text.isAsciiLetter c = true) : Json.isSpace c = false := by
  have hrange : (97 ≤ c.toNat ∧ c.toNat ≤ 122) ∨ (65 ≤ c.toNat ∧ c.toNat ≤ 90) := by
    simpa [Text.isAsciiLetter, Char.le_def, UInt32.le_iff_toNat_le] using h
  simp only [Json.isSpace, decide_eq_false_iff_not]
  omega

namespace Origin

variable (origin : Origin)

theorem text_toList : origin.text.toList =
    origin.scheme.toList ++ ':' :: '/' :: '/' :: origin.authority.toList := by
  simp [text]

theorem slash_notMem : '/' ∉ origin.authority.toList := by
  intro hmem
  simpa [Text.endsNetloc] using (origin.authority_clean _ hmem).1

/-- An origin begins with a letter. -/
theorem head_text {c : Char} (h : origin.text.toList.head? = some c) : Json.isSpace c = false := by
  obtain ⟨d, rest, hd⟩ := List.exists_cons_of_ne_nil
    (show origin.scheme.toList ≠ [] by simpa using origin.scheme_ne)
  rw [text_toList, hd, List.cons_append, List.head?_cons, Option.some.injEq] at h
  subst h
  exact isSpace_letter (origin.scheme_letters d (by rw [hd]; exact List.mem_cons_self))

/-- An origin ends in a character of its authority. -/
theorem last_text {c : Char} (h : origin.text.toList.getLast? = some c) :
    c ∈ origin.authority.toList := by
  have hne : origin.authority.toList ≠ [] := by simpa using origin.authority_ne
  have happ : origin.text.toList =
      (origin.scheme.toList ++ "://".toList) ++ origin.authority.toList := by
    simp [text]
  rw [happ, List.getLast?_append_of_ne_nil _ hne] at h
  exact List.mem_of_getLast? h

/-- An origin that ends in `/v1` is that of a host called `v1`. -/
theorem v1_suffix_iff : "/v1".toList <:+ origin.text.toList ↔ origin.authority = "v1" := by
  constructor
  · intro h
    have hauthority : '/' :: origin.authority.toList <:+ origin.text.toList :=
      ⟨origin.scheme.toList ++ [':', '/'], by simp [text]⟩
    rw [String.ext_iff]
    rcases List.suffix_or_suffix_of_suffix h hauthority with hs | hs
    · -- the slash of `/v1` is not one of the authority
      obtain ⟨init, hinit⟩ := hs
      cases init with
      | nil => exact (List.cons.inj hinit).2.symm
      | cons c init =>
        have hmem : '/' ∈ origin.authority.toList := by
          rw [← (List.cons.inj hinit).2]
          simp
        exact absurd hmem origin.slash_notMem
    · have hcons : "/v1".toList = ['/', 'v', '1'] := rfl
      rw [hcons] at hs
      simpa [List.suffix_cons_iff] using hs
  · intro h
    exact ⟨origin.scheme.toList ++ [':', '/'], by simp [text, h]⟩

theorem text_clean : ∀ c ∈ origin.text.toList, Json.isSpace c = false := by
  intro c hc
  rw [text_toList, List.mem_append, List.mem_cons, List.mem_cons, List.mem_cons] at hc
  rcases hc with hc | rfl | rfl | rfl | hc
  · exact isSpace_letter (origin.scheme_letters c hc)
  · decide
  · decide
  · decide
  · exact (origin.authority_clean c hc).2

end Origin

namespace BaseUrl

variable (base : BaseUrl)

/-- The base URL is one that loses its authority with the `/v1`. -/
def Loses : Prop := base.v1 = false ∧ base.origin.authority = "v1"

/-- What is left without the spaces and the slashes. -/
def root : List Char := base.origin.text.toList ++ if base.v1 then "/v1".toList else []

theorem text_toList : base.text.toList = base.before.toList ++
    ((base.root ++ List.replicate base.slashes '/') ++ base.after.toList) := by
  rw [text, root]
  cases base.v1 <;> simp

theorem root_clean : ∀ c ∈ base.root, Json.isSpace c = false := by
  intro c hc
  rw [root, List.mem_append] at hc
  rcases hc with hc | hc
  · exact base.origin.text_clean c hc
  · split at hc
    · have hv1 : "/v1".toList.all (fun d => !Json.isSpace d) = true := by decide
      simpa using List.all_eq_true.mp hv1 c hc
    · cases hc

theorem root_last {c : Char} (h : base.root.getLast? = some c) : c ≠ '/' := by
  rw [root] at h
  split at h
  · rw [List.getLast?_append_of_ne_nil _ (by decide)] at h
    cases h
    decide
  · rw [List.append_nil] at h
    rintro rfl
    exact base.origin.slash_notMem (base.origin.last_text h)

/-- Spaces and slashes are stripped from the base URL, and nothing else. -/
theorem stripped_eq : (((base.text.toList.dropWhile Json.isSpace).rdropWhile
    Json.isSpace).rdropWhile (fun c => decide (c = '/'))) = base.root := by
  have hclean : ∀ c ∈ base.root ++ List.replicate base.slashes '/', Json.isSpace c = false := by
    intro c hc
    rcases List.mem_append.mp hc with hc | hc
    · exact base.root_clean c hc
    · rw [List.eq_of_mem_replicate hc]
      decide
  have hne : base.root ++ List.replicate base.slashes '/' ≠ [] := by
    simp [root, Origin.text_toList]
  have hbefore : base.text.toList.dropWhile Json.isSpace =
      (base.root ++ List.replicate base.slashes '/') ++ base.after.toList := by
    rw [text_toList]
    refine (Text.takeWhile_append_of_all base.before_space fun c hc => ?_).2
    rw [List.head?_append_of_ne_nil _ hne] at hc
    exact hclean c (List.mem_of_mem_head? hc)
  rw [hbefore, rdropWhile_append_of_all base.after_space
    fun c hc => hclean c (List.mem_of_getLast? hc)]
  refine rdropWhile_append_of_all (fun c hc => ?_) fun c hc => ?_
  · simp [List.eq_of_mem_replicate hc]
  · simpa using base.root_last hc

theorem orchestratorOrigin_eq (h : ¬ base.Loses) :
    orchestratorOrigin base.text = base.origin.text := by
  unfold orchestratorOrigin
  simp only [stripped_eq]
  cases hv1 : base.v1 with
  | true =>
    have hroot : base.root = base.origin.text.toList ++ "/v1".toList := by simp [root, hv1]
    have hsuffix : "/v1".toList.isSuffixOf base.root = true :=
      List.isSuffixOf_iff_suffix.mpr ⟨_, hroot.symm⟩
    have htake : base.root.take (base.root.length - 3) = base.origin.text.toList := by
      rw [hroot]
      simp
    rw [if_pos hsuffix, htake, String.ofList_toList]
  | false =>
    have hroot : base.root = base.origin.text.toList := by simp [root, hv1]
    have hsuffix : ¬ "/v1".toList.isSuffixOf base.root = true := by
      rw [hroot, List.isSuffixOf_iff_suffix, Origin.v1_suffix_iff]
      exact fun hauthority => h ⟨hv1, hauthority⟩
    rw [if_neg hsuffix, hroot, String.ofList_toList]

/-- A host called `v1` is taken for the `/v1` of a base URL. -/
theorem orchestratorOrigin_loses (h : base.Loses) :
    orchestratorOrigin base.text = base.origin.scheme ++ ":/" := by
  obtain ⟨hv1, hauthority⟩ := h
  unfold orchestratorOrigin
  simp only [stripped_eq]
  have hroot : base.root = base.origin.scheme.toList ++ [':', '/'] ++ "/v1".toList := by
    simp [root, hv1, Origin.text_toList, hauthority]
  have hsuffix : "/v1".toList.isSuffixOf base.root = true :=
    List.isSuffixOf_iff_suffix.mpr ⟨_, hroot.symm⟩
  have htake : base.root.take (base.root.length - 3) = base.origin.scheme.toList ++ [':', '/'] := by
    rw [hroot]
    exact List.take_left' (by simp)
  rw [if_pos hsuffix, htake, String.ext_iff]
  simp

end BaseUrl

/-! ## The path of a leased chat request -/

namespace LeaseToken

variable (token : LeaseToken)

theorem char_range {c : Char} (h : isUrlSafe c = true) : (97 ≤ c.toNat ∧ c.toNat ≤ 122) ∨
    (65 ≤ c.toNat ∧ c.toNat ≤ 90) ∨ (48 ≤ c.toNat ∧ c.toNat ≤ 57) ∨ c.toNat = 45 ∨ c.toNat = 95 := by
  have hval : ∀ d : Char, c = d ↔ c.toNat = d.toNat := fun d => Char.toNat_inj.symm
  simpa [isUrlSafe, Text.isAsciiLetter, Char.le_def, UInt32.le_iff_toNat_le, hval, or_assoc] using h

theorem char_clean {c : Char} (h : c ∈ token.text.toList) : c ≠ '/' ∧
    Text.endsPath c = false ∧ Text.isRemoved c = false ∧ c.toNat < 128 := by
  have hrange := char_range (token.urlSafe c h)
  have hval : ∀ d : Char, c = d ↔ c.toNat = d.toNat := fun d => Char.toNat_inj.symm
  simp only [ne_eq, Text.endsPath, Text.isRemoved, decide_eq_false_iff_not, hval, Char.reduceToNat]
  omega

theorem slash_notMem : '/' ∉ token.text.toList := fun h => (token.char_clean h).1 rfl

theorem encodeUtf8_text : encodeUtf8 token.text = token.text :=
  encodeUtf8_eq_iff.mpr fun _ hc => (token.char_clean hc).2.2.2

theorem carriesLease :
    CarriesLease "POST" ("/lease/" ++ token.text ++ "/v1/chat/completions") token.text
      "/v1/chat/completions" :=
  ⟨token.nonempty, token.slash_notMem, "/v1/chat/completions", .chat, rfl⟩

/-- The path of a URL with the token in a segment of its own. -/
theorem urlPath {scheme authority front back : String} (hne : scheme ≠ "")
    (hscheme : ∀ c ∈ scheme.toList, Text.isAsciiLetter c = true)
    (hauthority : ∀ c ∈ authority.toList, Text.endsNetloc c = false ∧ Text.isRemoved c = false)
    (hfront : front.toList.head? = some '/')
    (hclean : (front.toList ++ back.toList).all
      (fun c => !Text.endsPath c && !Text.isRemoved c) = true) :
    Text.urlsplitPath (fun _ => true)
      (scheme ++ "://" ++ authority ++ (front ++ token.text ++ back)) =
      some (front ++ token.text ++ back) := by
  obtain ⟨hfrontClean, hbackClean⟩ :
      (∀ c ∈ front.toList, Text.endsPath c = false ∧ Text.isRemoved c = false) ∧
        ∀ c ∈ back.toList, Text.endsPath c = false ∧ Text.isRemoved c = false := by
    simpa using hclean
  rw [Text.urlsplitPath_of_clean hne hscheme hauthority]
  · rfl
  · rw [String.toList_append, String.toList_append, List.append_assoc, List.head?_append, hfront]
    rfl
  · intro c hc
    rw [String.toList_append, String.toList_append, List.mem_append, List.mem_append] at hc
    rcases hc with (hc | hc) | hc
    · exact hfrontClean c hc
    · exact ⟨(token.char_clean hc).2.1, (token.char_clean hc).2.2.1⟩
    · exact hbackClean c hc

end LeaseToken

theorem isRemoved_of_isSpace {c : Char} (h : Json.isSpace c = false) : Text.isRemoved c = false := by
  simp only [Text.isRemoved, decide_eq_false_iff_not]
  rintro (rfl | rfl | rfl) <;> exact absurd h (by decide)

/-- The path a chat request of a leased client is sent to. -/
theorem leased_urlPath (base : BaseUrl) (token : LeaseToken) (h : ¬ base.Loses) :
    Text.urlsplitPath (fun _ => true)
      (leasedClientBase base.text token.text ++ "/chat/completions") =
      some ("/lease/" ++ token.text ++ "/v1/chat/completions") := by
  have hurl : leasedClientBase base.text token.text ++ "/chat/completions" =
      base.origin.scheme ++ "://" ++ base.origin.authority ++
        ("/lease/" ++ token.text ++ "/v1/chat/completions") := by
    rw [leasedClientBase, base.orchestratorOrigin_eq h, Origin.text, String.ext_iff]
    simp
  rw [hurl]
  exact token.urlPath base.origin.scheme_ne base.origin.scheme_letters
    (fun c hc => ⟨(base.origin.authority_clean c hc).1,
      isRemoved_of_isSpace (base.origin.authority_clean c hc).2⟩) rfl (by decide)

/-- A base URL that loses its authority leads to a host called `lease`. -/
theorem lost_urlPath (base : BaseUrl) (token : LeaseToken) (h : base.Loses) :
    Text.urlsplitPath (fun _ => true)
      (leasedClientBase base.text token.text ++ "/chat/completions") =
      some ("/" ++ token.text ++ "/v1/chat/completions") := by
  have hurl : leasedClientBase base.text token.text ++ "/chat/completions" =
      base.origin.scheme ++ "://" ++ "lease" ++ ("/" ++ token.text ++ "/v1/chat/completions") := by
    rw [leasedClientBase, base.orchestratorOrigin_loses h, String.ext_iff]
    simp
  rw [hurl]
  have hlease : "lease".toList.all (fun c => !Text.endsNetloc c && !Text.isRemoved c) = true := by
    decide
  exact token.urlPath base.origin.scheme_ne base.origin.scheme_letters (by simpa using hlease) rfl
    (by decide)

/-! ## The headers -/

/-- Names are in lower case, so the first lease header is found if there is one. -/
theorem hasLeaseHeader_lower (headers : List (String × String)) :
    hasLeaseHeader (headers.map fun item => (item.1.toLower, item.2)) =
      (clientLease headers).isSome := by
  rw [clientLease, header]
  induction headers with
  | nil => rfl
  | cons item rest ih =>
    have hlower : item.1.toLower.toLower = item.1.toLower := by
      rw [String.ext_iff, String.toLower, String.toLower, String.toList_map, String.toList_map,
        List.map_map]
      exact List.map_congr_left fun c _ => Char.toLower_toLower_eq_toLower c
    by_cases hname : item.1.toLower = leaseHeader
    · simp [hasLeaseHeader, hname, leaseHeader_toLower]
    · have hne : (leaseHeader == item.1.toLower) = false := by simpa using Ne.symm hname
      rw [List.map_cons, hasLeaseHeader, List.any_cons, List.lookup, hne]
      simp only [hlower, hname, decide_false, Bool.false_or]
      exact ih

/-! ## The application -/

section

variable (checkNetloc : List Char → Bool)

/-- `enforce_auth` calls the route of a request it lets through, and of no other. -/
theorem enforceAuth_handler_iff {η : Type} {route : String → String → Option η}
    {keyStore : ApiKeyStore} {now : Datetime} {scope : Scope} {h : η} :
    enforceAuth checkNetloc route keyStore now scope = .handler h ↔
      route scope.method scope.path = some h ∧
        LetsThrough checkNetloc (some (keyStore, now)) scope := by
  refine ⟨enforceAuth_handler checkNetloc route, ?_⟩
  rintro ⟨hroute, path, hpath, hexempt | ⟨hne, token, identity, htoken, hauth, hallowed⟩⟩
  · exact enforceAuth_of_exempt checkNetloc route hpath hexempt hroute keyStore now
  · by_cases hexempt : path ∈ authExemptPaths
    · exact enforceAuth_of_exempt checkNetloc route hpath hexempt hroute keyStore now
    · have hne : token ≠ "" := by
        rintro rfl
        exact hne htoken
      simp [enforceAuth, hpath, hexempt, htoken, hne, hauth, hallowed, callNext, hroute]

theorem serveApp_handler_iff {auth : Option (ApiKeyStore × Datetime)} {scope routed : Scope}
    (hrewrite : rewriteLeasePath scope = routed) {h : Handler} :
    serveApp checkNetloc auth scope = .handler h ↔
      Text.startsWith routed.path "/lease/" = false ∧
        appRoute routed.method routed.path = some h ∧ LetsThrough checkNetloc auth routed := by
  by_cases hlease : Text.startsWith routed.path "/lease/" = true
  · cases auth <;> simp [serveApp, serve, hrewrite, hlease]
  · rw [Bool.not_eq_true] at hlease
    cases auth with
    | none =>
      simp only [serveApp, hrewrite, hlease, Bool.false_eq_true, if_false, LetsThrough, and_true,
        true_and]
      constructor
      · exact callNext_handler appRoute
      · intro hroute
        rw [callNext, hroute]
    | some auth =>
      simp only [serveApp, serve, hrewrite, hlease, Bool.false_eq_true, if_false, true_and]
      exact enforceAuth_handler_iff checkNetloc

end

/-- A template that ends in a text is matched by paths that end in it, or have a newline more. -/
theorem matchPieces_suffix {t : String} : ∀ {front : List Piece} {cs : List Char},
    matchPieces (front ++ [Piece.text t]) cs = true → t.toList <:+ cs ∨ t.toList ++ ['\n'] <:+ cs
  | [], cs, h => by
    simp only [List.nil_append, matchPieces, Bool.and_eq_true, List.isPrefixOf_iff_prefix,
      decide_eq_true_eq] at h
    obtain ⟨⟨rest, rfl⟩, hrest⟩ := h
    rw [List.drop_left] at hrest
    rcases hrest with rfl | rfl
    · exact Or.inl ⟨[], by simp⟩
    · exact Or.inr ⟨[], rfl⟩
  | .text p :: front, cs, h => by
    simp only [List.cons_append, matchPieces, Bool.and_eq_true] at h
    have hdrop := List.drop_suffix p.toList.length cs
    exact (matchPieces_suffix h.2).imp (·.trans hdrop) (·.trans hdrop)
  | .pathParam :: front, cs, h => by
    simp only [List.cons_append, matchPieces, List.any_eq_true] at h
    obtain ⟨n, -, h⟩ := h
    have hdrop := List.drop_suffix n cs
    exact (matchPieces_suffix h).imp (·.trans hdrop) (·.trans hdrop)

/-- The path of a base URL that lost its authority is not a route. -/
theorem appRoute_lost (token : LeaseToken) :
    appRoute "POST" ("/" ++ token.text ++ "/v1/chat/completions") = none := by
  have hchat : "/v1/chat/completions".toList <:+
      ("/" ++ token.text ++ "/v1/chat/completions").toList := by
    rw [String.toList_append]
    exact List.suffix_append _ _
  -- the end of the path is not that of another template
  have hother : ∀ (front : List Piece) {t : String},
      matchPieces (front ++ [.text t]) ("/" ++ token.text ++ "/v1/chat/completions").toList = true →
      ¬ "/v1/chat/completions".toList <:+ t.toList ∧ ¬ t.toList <:+ "/v1/chat/completions".toList ∧
        ¬ "/v1/chat/completions".toList <:+ t.toList ++ ['\n'] ∧
        ¬ t.toList ++ ['\n'] <:+ "/v1/chat/completions".toList → False := by
    intro front t hmatch
    rintro ⟨h1, h2, h3, h4⟩
    rcases matchPieces_suffix hmatch with hs | hs
    · exact (List.suffix_or_suffix_of_suffix hchat hs).elim h1 h2
    · exact (List.suffix_or_suffix_of_suffix hchat hs).elim h3 h4
  -- and it is longer than the template of the chat requests
  have hlength : 22 ≤ ("/" ++ token.text ++ "/v1/chat/completions").toList.length := by
    have hpos := List.length_pos_iff.mpr (show token.text.toList ≠ [] by simpa using token.nonempty)
    have hchat : "/v1/chat/completions".toList.length = 20 := rfl
    rw [String.toList_append, String.toList_append, List.length_append, List.length_append, hchat]
    have hslash : "/".toList.length = 1 := rfl
    omega
  have hposts : (appRoutes.filter (·.1 = "POST")).map (·.2.1) =
      [[.text "/v1/nodes/register"], [.text "/v1/nodes/", .pathParam, .text "/heartbeat"],
        [.text "/v1/node-leases"], [.text "/v1/node-leases/heartbeat"],
        [.text "/v1/node-leases/force-release"], [.text "/v1/chat/completions"]] := by decide
  rw [appRoute, Option.map_eq_none_iff, List.find?_eq_none]
  intro r hr
  rw [Bool.and_eq_true, decide_eq_true_eq]
  rintro ⟨hmethod, hmatch⟩
  have hpost := List.mem_map_of_mem (f := (·.2.1))
    (List.mem_filter.mpr ⟨hr, decide_eq_true hmethod⟩ : r ∈ appRoutes.filter (·.1 = "POST"))
  rw [hposts] at hpost
  simp only [List.mem_cons, List.not_mem_nil, or_false] at hpost
  rcases hpost with hr | hr | hr | hr | hr | hr <;> rw [hr] at hmatch
  · exact hother [] hmatch (by decide)
  · exact hother [.text "/v1/nodes/", .pathParam] hmatch (by decide)
  · exact hother [] hmatch (by decide)
  · exact hother [] hmatch (by decide)
  · exact hother [] hmatch (by decide)
  · simp only [matchPieces, Bool.and_eq_true, List.isPrefixOf_iff_prefix, decide_eq_true_eq] at hmatch
    obtain ⟨⟨rest, hrest⟩, hend⟩ := hmatch
    rw [← hrest] at hend hlength
    rw [List.drop_left] at hend
    have hchat : "/v1/chat/completions".toList.length = 20 := rfl
    rw [List.length_append, hchat] at hlength
    rcases hend with rfl | rfl <;> simp at hlength

/-- Nor is it one that the prefix is taken from. -/
theorem rewriteLeasePath_lost (token : LeaseToken) {scope : Scope} (hmethod : scope.method = "POST")
    (hpath : scope.path = "/" ++ token.text ++ "/v1/chat/completions") :
    rewriteLeasePath scope = scope := by
  refine rewriteLeasePath_otherwise (fun segment target hon => ?_) ?_
  · obtain ⟨rest, hroute, heq⟩ := hon.route
    have hrest : rest = "/v1/chat/completions" := by
      have hacc := acceptsLeasePath_iff.mpr ⟨target, hroute⟩
      rw [hmethod] at hacc
      simpa [acceptsLeasePath] using hacc
    rw [hpath, hrest, String.ext_iff] at heq
    simp only [String.toList_append] at heq
    have hslash : "/".toList ++ token.text.toList = "/lease/".toList ++ segment.toList :=
      List.append_cancel_right heq
    -- the token would have a slash in it
    have htoken : token.text.toList = "lease/".toList ++ segment.toList := (List.cons.inj hslash).2
    have hmem : '/' ∈ token.text.toList := by
      rw [htoken]
      simp
    exact token.slash_notMem hmem
  · rintro ⟨path, segment, target, heq, -⟩
    rw [hpath, String.ext_iff] at heq
    have hlast := congrArg List.getLast? heq
    simp only [String.toList_append] at hlast
    rw [List.getLast?_append_of_ne_nil _ (by decide),
      List.getLast?_append_of_ne_nil _ (by decide)] at hlast
    exact absurd hlast (by decide)

/-! ## Leased traffic -/

theorem leasedChatScope_path (base : BaseUrl) (token : LeaseToken)
    (headers : List (String × String)) (server : Option String) (h : ¬ base.Loses) :
    (leasedChatScope base.text token.text headers server).path =
      "/lease/" ++ token.text ++ "/v1/chat/completions" := by
  simp only [leasedChatScope, postScope, leased_urlPath base token h, Option.getD_some]

theorem leasedChatScope_lost (base : BaseUrl) (token : LeaseToken)
    (headers : List (String × String)) (server : Option String) (h : base.Loses) :
    (leasedChatScope base.text token.text headers server).path =
      "/" ++ token.text ++ "/v1/chat/completions" := by
  simp only [leasedChatScope, postScope, lost_urlPath base token h, Option.getD_some]

/-- What `chat_completions` finds of the header a client sent, and of the token. -/
theorem pinnedToken_pinLease (token : LeaseToken) (scope : Scope)
    (headers : List (String × String))
    (hheaders : scope.headers = headers.map fun item => (item.1.toLower, item.2)) :
    pinnedToken { scope with headers := pinLease token.text scope.headers } =
      ((clientLease headers).getD token.text |> some).filter (· ≠ "") := by
  have hhas := hasLeaseHeader_lower headers
  rw [← hheaders] at hhas
  cases hclient : clientLease headers with
  | none =>
    rw [hclient] at hhas
    simp only [pinnedToken, header_pinLease_self hhas, token.encodeUtf8_text, Option.getD_none]
  | some own =>
    rw [hclient] at hhas
    have hpin : pinLease token.text scope.headers = scope.headers := if_pos hhas
    rw [clientLease, ← hheaders] at hclient
    simp only [pinnedToken, hpin, hclient, Option.getD_some]

/-- A chat request to the base URL of a leased client is pinned or rejected, exactly when its first
lease header is not empty, or the base URL has lost its authority, or `enforce_auth` stops it. -/
theorem leased_base_iff (checkNetloc : List Char → Bool) (auth : Option (ApiKeyStore × Datetime))
    (base : BaseUrl) (token : LeaseToken) (headers : List (String × String))
    (server : Option String) :
    PinnedOrRejected checkNetloc auth token.text headers
        (leasedChatScope base.text token.text headers server) ↔
      ¬ (clientLease headers = some "" ∧ ¬ base.Loses ∧ LetsThrough checkNetloc auth
        { leasedChatScope base.text token.text headers server with
          path := "/v1/chat/completions" }) := by
  generalize hscope : leasedChatScope base.text token.text headers server = scope
  have hmethod : scope.method = "POST" := by
    rw [← hscope]
    rfl
  have hheaders : scope.headers = headers.map fun item => (item.1.toLower, item.2) := by
    rw [← hscope]
    rfl
  by_cases hloses : base.Loses
  · -- the request goes to a path that is not a route
    have hpath := leasedChatScope_lost base token headers server hloses
    rw [hscope] at hpath
    refine iff_of_true (fun h hrun => ?_) fun hcond => hcond.2.1 hloses
    have hroute := ((serveApp_handler_iff checkNetloc
      (rewriteLeasePath_lost token hmethod hpath)).mp hrun).2.1
    rw [hmethod, hpath, appRoute_lost] at hroute
    cases hroute
  · have hpath := leasedChatScope_path base token headers server hloses
    rw [hscope] at hpath
    have hcarries : CarriesLease scope.method scope.path token.text "/v1/chat/completions" := by
      rw [hmethod, hpath]
      exact token.carriesLease
    have hpin : pinnedToken (rewriteLeasePath scope) =
        (some ((clientLease headers).getD token.text)).filter (· ≠ "") := by
      rw [hcarries.rewrite_eq]
      exact pinnedToken_pinLease token scope headers hheaders
    have hroute : appRoute "POST" "/v1/chat/completions" = some .chatCompletions := by
      decide +kernel
    have hserve : ∀ h, serveApp checkNetloc auth scope = .handler h ↔ h = .chatCompletions ∧
        LetsThrough checkNetloc auth (rewriteLeasePath scope) := by
      intro h
      rw [serveApp_handler_iff checkNetloc rfl, hcarries.rewrite_eq]
      simp only [hmethod, hroute, Option.some.injEq]
      constructor
      · rintro ⟨-, rfl, hlets⟩
        exact ⟨rfl, hlets⟩
      · rintro ⟨rfl, hlets⟩
        exact ⟨by decide, rfl, hlets⟩
    by_cases hempty : clientLease headers = some ""
    · -- the client's header stays, and pins nothing
      have hrouted : rewriteLeasePath scope = { scope with path := "/v1/chat/completions" } := by
        have hhas : hasLeaseHeader scope.headers = true := by
          rw [hheaders, hasLeaseHeader_lower, hempty]
          rfl
        rw [hcarries.rewrite_eq, pinLease, if_pos hhas]
      rw [← hrouted]
      constructor
      · rintro hpinned ⟨-, -, hlets⟩
        have := (hpinned _ ((hserve _).mpr ⟨rfl, hlets⟩)).2
        rw [hpin, hempty] at this
        cases this
      · intro hcond h hrun
        exact absurd ⟨hempty, hloses, ((hserve h).mp hrun).2⟩ hcond
    · refine iff_of_true (fun h hrun => ⟨((hserve h).mp hrun).1, ?_⟩) fun hcond => hempty hcond.1
      have hne : (clientLease headers).getD token.text ≠ "" := by
        cases hclient : clientLease headers with
        | none => exact token.nonempty
        | some own =>
          rintro rfl
          exact hempty hclient
      rw [hpin, Option.filter_some, if_pos (by simpa using hne)]

/-- The base URL `http://lab`. -/
def labBase : BaseUrl where
  origin := {
    scheme := "http"
    authority := "lab"
    scheme_ne := by decide
    scheme_letters := List.all_eq_true.mp (by decide)
    authority_ne := by decide
    authority_clean := by simp [Text.endsNetloc, Json.isSpace] }
  v1 := false
  slashes := 0
  before := ""
  after := ""
  before_space := by simp
  after_space := by simp

/-- With an empty lease header of its own, a chat request to the base URL of a lease is processed
as an ordinary one. -/
theorem empty_header_unpinned :
    ¬ PinnedOrRejected (fun _ => true) none "t" [("X-LLM-Node-Lease", "")]
      (leasedChatScope labBase.text "t" [("X-LLM-Node-Lease", "")] none) := by
  intro h
  have hrun := h .chatCompletions (by decide +kernel)
  exact absurd hrun.2 (by decide +kernel)

end LlmHomeLab
