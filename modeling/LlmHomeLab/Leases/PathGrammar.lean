import LlmHomeLab.Leases.Path

/-! # Which paths carry a lease token

The paths behind `/lease/{token}` that are accepted, as the specification lists them, and
`_LeasePathMiddleware` around the application. `lease_grammar_iff` says for which requests the
regular expression and the header agree with the list.
-/

namespace LlmHomeLab

/-! ## Model -/

/-- Method, path behind the token, and the route they stand for. -/
inductive LeaseRoute : String → String → String → Prop
  | chat : LeaseRoute "POST" "/v1/chat/completions" "/v1/chat/completions"
  | capacity : LeaseRoute "GET" "/v1/capacity" "/v1/capacity"
  | capacityAlias : LeaseRoute "GET" "/capacity" "/v1/capacity"

/-- A path that carries a token: one non-empty segment, and a route behind it. -/
structure CarriesLease (method path token target : String) : Prop where
  nonempty : token ≠ ""
  segment : '/' ∉ token.toList
  route : ∃ rest, LeaseRoute method rest target ∧ path = "/lease/" ++ token ++ rest

/-- `_LeasePathMiddleware`: a 404, or the application. -/
def leasePathMiddleware {α : Type} (notFound app : Scope → α) (scope : Scope) : α :=
  let scope := rewriteLeasePath scope
  if Text.startsWith scope.path "/lease/" then notFound scope else app scope

/-- The request goes on as one to `target`, pinned to the token unless it has a lease header.
`shown` is how a reader of the header sees the token: as its bytes, or as its text. -/
structure GoesOnAs (shown : String → String) (scope : Scope) (token target : String) : Prop where
  path : (rewriteLeasePath scope).path = target
  method : (rewriteLeasePath scope).method = scope.method
  pinned : hasLeaseHeader scope.headers = false →
    header leaseHeader (rewriteLeasePath scope).headers = some (shown token)
  own : hasLeaseHeader scope.headers = true →
    (rewriteLeasePath scope).headers = scope.headers
  runs : ∀ {α : Type} (notFound app : Scope → α),
    leasePathMiddleware notFound app scope = app (rewriteLeasePath scope)

/-- The list of paths is what decides. -/
structure FollowsGrammar (shown : String → String) (scope : Scope) : Prop where
  rewrites : ∀ token target, CarriesLease scope.method scope.path token target →
    GoesOnAs shown scope token target
  otherwise : (∀ token target, ¬ CarriesLease scope.method scope.path token target) →
    ∀ {α : Type} (notFound app : Scope → α), leasePathMiddleware notFound app scope =
      if Text.startsWith scope.path "/lease/" then notFound scope else app scope

/-- The path is one of the list but for a newline at its end. -/
def EndsInNewline (scope : Scope) : Prop :=
  ∃ path token target, scope.path = path ++ "\n" ∧ CarriesLease scope.method path token target

/-- A token that becomes the lease header is ASCII. -/
def TokenIsAscii (scope : Scope) : Prop :=
  ∀ token target, CarriesLease scope.method scope.path token target →
    hasLeaseHeader scope.headers = false → ∀ c ∈ token.toList, c.toNat < 128

/-! ## The regular expression -/

theorem acceptsLeasePath_iff {method rest : String} :
    acceptsLeasePath method rest = true ↔ ∃ target, LeaseRoute method rest target := by
  simp only [acceptsLeasePath, decide_eq_true_eq, List.mem_cons, Prod.mk.injEq, List.not_mem_nil,
    or_false]
  constructor
  · rintro (⟨rfl, rfl⟩ | ⟨rfl, rfl⟩ | ⟨rfl, rfl⟩)
    · exact ⟨_, .chat⟩
    · exact ⟨_, .capacity⟩
    · exact ⟨_, .capacityAlias⟩
  · rintro ⟨target, h⟩
    cases h <;> simp

theorem LeaseRoute.target_eq {method rest target : String} (h : LeaseRoute method rest target) :
    (if rest = "/capacity" then "/v1/capacity" else rest) = target := by
  cases h <;> rfl

/-- The path behind a token begins with a slash and has no newline. -/
theorem LeaseRoute.rest_eq {method rest target : String} (h : LeaseRoute method rest target) :
    ∃ line, rest.toList = '/' :: line ∧ '\n' ∉ line := by
  cases h
  · exact ⟨"v1/chat/completions".toList, rfl, by decide⟩
  · exact ⟨"v1/capacity".toList, rfl, by decide⟩
  · exact ⟨"capacity".toList, rfl, by decide⟩

theorem matchLine_iff {s line : List Char} :
    matchLine s = some line ↔ '\n' ∉ line ∧ (s = line ∨ s = line ++ ['\n']) := by
  have hclean : ∀ l : List Char, '\n' ∉ l → ∀ c ∈ l, decide (c ≠ '\n') = true := by
    intro l hl c hc
    simp only [decide_eq_true_eq]
    exact fun heq => hl (heq ▸ hc)
  unfold matchLine
  simp only [Option.ite_none_right_eq_some, Option.some.injEq]
  constructor
  · rintro ⟨hs, rfl⟩
    refine ⟨fun hmem => ?_, hs⟩
    simpa using List.mem_takeWhile_imp hmem
  · rintro ⟨hnot, hs⟩
    have htake : s.takeWhile (fun c => decide (c ≠ '\n')) = line := by
      rcases hs with rfl | rfl
      · simpa using (Text.takeWhile_append_of_all (r := []) (hclean s hnot) (by simp)).1
      · exact (Text.takeWhile_append_of_all (r := ['\n']) (hclean line hnot) (by simp)).1
    rw [htake]
    exact ⟨hs, rfl⟩

theorem startsWith_lease {path : String} :
    Text.startsWith path "/lease/" = true ↔ ∃ tail, path = "/lease/" ++ tail := by
  rw [Text.startsWith_iff]
  constructor
  · rintro ⟨tail, htail⟩
    refine ⟨String.ofList tail, String.ext_iff.mpr ?_⟩
    rw [String.toList_append, ← htail]
    exact congrArg _ String.toList_ofList.symm
  · rintro ⟨tail, rfl⟩
    rw [String.toList_append]
    exact List.prefix_append _ _

/-- A segment and what follows it are taken apart at the first slash. -/
theorem matchLeasePath_segment {token rest : String} (hne : token ≠ "")
    (hsegment : '/' ∉ token.toList) (hrest : rest = "" ∨ ∃ line, rest.toList = '/' :: line) :
    matchLeasePath ("/lease/" ++ (token ++ rest)) =
      match rest.toList with
      | [] => some (token, "/")
      | slash :: tail => (matchLine tail).map fun line => (token, String.ofList (slash :: line)) := by
  have hsplit := Text.takeWhile_append_of_all (l := token.toList) (r := rest.toList)
    (p := fun c => decide (c ≠ '/'))
    (by
      intro c hc
      simp only [decide_eq_true_eq]
      exact fun heq => hsegment (heq ▸ hc))
    (by
      intro c hc
      rcases hrest with rfl | ⟨line, hline⟩
      · simp at hc
      · rw [hline] at hc
        cases hc
        simp)
  have hnil : token.toList ≠ [] := by simpa using hne
  cases hline : rest.toList
  all_goals
    rw [hline] at hsplit
    simp only [matchLeasePath, startsWith_lease.mpr ⟨_, rfl⟩, Text.removeLeading_append,
      String.toList_append, hsplit.1, hsplit.2, hline, if_true, if_neg hnil, String.ofList_toList]

/-- Every text is a segment and what follows it. -/
theorem exists_segment (tail : List Char) :
    ∃ segment behind, tail = segment ++ behind ∧ '/' ∉ segment ∧
      (behind = [] ∨ ∃ line, behind = '/' :: line) := by
  induction tail with
  | nil => exact ⟨[], [], rfl, List.not_mem_nil, Or.inl rfl⟩
  | cons c rest ih =>
    by_cases hc : c = '/'
    · exact ⟨[], c :: rest, rfl, List.not_mem_nil, Or.inr ⟨rest, by rw [hc]⟩⟩
    · obtain ⟨segment, behind, rfl, hsegment, hbehind⟩ := ih
      refine ⟨c :: segment, behind, rfl, ?_, hbehind⟩
      simp [hsegment, Ne.symm hc]

/-- An empty segment is not a token. -/
theorem matchLeasePath_empty {rest : String} (hrest : rest = "" ∨ ∃ line, rest.toList = '/' :: line) :
    matchLeasePath ("/lease/" ++ rest) = none := by
  have htake : rest.toList.takeWhile (fun c => decide (c ≠ '/')) = [] := by
    rcases hrest with rfl | ⟨line, hline⟩
    · rfl
    · simp [hline]
  unfold matchLeasePath
  simp only [startsWith_lease.mpr ⟨_, rfl⟩, Text.removeLeading_append, htake, if_true]

theorem matchLeasePath_iff {path token rest : String} :
    matchLeasePath path = some (token, rest) ↔ token ≠ "" ∧ '/' ∉ token.toList ∧
      (rest = "/" ∧ path = "/lease/" ++ token ∨
        (∃ line, rest.toList = '/' :: line ∧ '\n' ∉ line) ∧
          (path = "/lease/" ++ token ++ rest ∨ path = "/lease/" ++ token ++ rest ++ "\n")) := by
  constructor
  · intro h
    have hstarts : Text.startsWith path "/lease/" = true := by
      by_contra hnot
      simp [matchLeasePath, hnot] at h
    obtain ⟨tail, rfl⟩ := startsWith_lease.mp hstarts
    -- the segment in front of the first slash, and what is behind it
    obtain ⟨segment, behind, hsplit, hsegment, hbehind⟩ := exists_segment tail.toList
    have htail : tail = String.ofList segment ++ String.ofList behind := by
      rw [String.ext_iff]
      simp [hsplit]
    have hrest : String.ofList behind = "" ∨
        ∃ line, (String.ofList behind).toList = '/' :: line := by
      rcases hbehind with rfl | ⟨line, rfl⟩
      · exact Or.inl rfl
      · exact Or.inr ⟨line, by simp⟩
    have hne : String.ofList segment ≠ "" := by
      intro hnil
      rw [htail, hnil, String.empty_append, matchLeasePath_empty hrest] at h
      cases h
    have hsegment : '/' ∉ (String.ofList segment).toList := by simpa using hsegment
    generalize String.ofList segment = segment at htail hne hsegment
    generalize String.ofList behind = behind at htail hrest
    subst htail
    rw [matchLeasePath_segment hne hsegment hrest] at h
    rcases hrest with rfl | ⟨line, hline⟩
    · cases h
      exact ⟨hne, hsegment, Or.inl ⟨rfl, by simp⟩⟩
    · rw [hline] at h
      obtain ⟨line', hmatch, heq⟩ := Option.map_eq_some_iff.mp h
      cases heq
      obtain ⟨hclean, hend⟩ := matchLine_iff.mp hmatch
      refine ⟨hne, hsegment, Or.inr ⟨⟨line', by simp, hclean⟩, ?_⟩⟩
      rcases hend with rfl | rfl
      · refine Or.inl (String.ext_iff.mpr ?_)
        simp [hline]
      · refine Or.inr (String.ext_iff.mpr ?_)
        simp [hline]
  · rintro ⟨hne, hsegment, ⟨rfl, rfl⟩ | ⟨⟨line, hline, hclean⟩, hpath⟩⟩
    · have hmatch := @matchLeasePath_segment _ "" hne hsegment (Or.inl rfl)
      rw [String.append_empty] at hmatch
      exact hmatch
    · have hrest : rest = String.ofList ('/' :: line) := by
        rw [String.ext_iff]
        simp [hline]
      rcases hpath with rfl | rfl
      · rw [String.append_assoc, matchLeasePath_segment hne hsegment (Or.inr ⟨line, hline⟩), hline]
        simp only [matchLine_iff.mpr ⟨hclean, Or.inl rfl⟩, Option.map_some, hrest]
      · have hlong : (rest ++ "\n").toList = '/' :: (line ++ ['\n']) := by simp [hline]
        rw [String.append_assoc, String.append_assoc,
          matchLeasePath_segment hne hsegment (Or.inr ⟨_, hlong⟩), hlong]
        simp only [matchLine_iff.mpr ⟨hclean, Or.inr rfl⟩, Option.map_some, hrest]

/-! ## The bytes of a text -/

theorem encodeUtf8_toList (s : String) : (encodeUtf8 s).toList =
    (s.toList.flatMap String.utf8EncodeChar).map fun b => Char.ofNat b.toNat := by
  have hbytes : s.toUTF8.data.toList = s.toList.flatMap String.utf8EncodeChar := by
    rw [String.toUTF8_eq_toByteArray, ← String.utf8Encode_toList]
    simp [List.utf8Encode]
  rw [encodeUtf8, String.toList_ofList, hbytes]

theorem utf8Size_eq_one_iff {c : Char} : c.utf8Size = 1 ↔ c.toNat < 128 := by
  rw [Char.utf8Size_eq_one_iff, UInt32.le_iff_toNat_le]
  exact Nat.lt_succ_iff.symm

theorem encodeChar_of_ascii {c : Char} (h : c.toNat < 128) :
    (String.utf8EncodeChar c).map (fun b => Char.ofNat b.toNat) = [c] := by
  rw [String.utf8EncodeChar_eq_singleton (utf8Size_eq_one_iff.mpr h)]
  have hbyte : c.val.toUInt8.toNat = c.toNat := by
    rw [UInt32.toNat_toUInt8]
    exact Nat.mod_eq_of_lt (Nat.lt_trans h (by decide))
  rw [List.map_singleton, hbyte, Char.ofNat_toNat]

/-- Every character gives a byte, and only the ASCII ones give no more than one. -/
theorem ascii_of_length_encoded (l : List Char) :
    l.length ≤ (l.flatMap String.utf8EncodeChar).length ∧
      ((l.flatMap String.utf8EncodeChar).length ≤ l.length → ∀ c ∈ l, c.toNat < 128) := by
  induction l with
  | nil => exact ⟨Nat.le_refl _, fun _ _ hc => absurd hc List.not_mem_nil⟩
  | cons c rest ih =>
    have hpos := Char.utf8Size_pos c
    simp only [List.flatMap_cons, List.length_append, String.length_utf8EncodeChar,
      List.length_cons, List.forall_mem_cons]
    refine ⟨by omega, fun hle => ?_⟩
    exact ⟨utf8Size_eq_one_iff.mp (by omega), ih.2 (by omega)⟩

/-- A text is its bytes when it is ASCII, and not otherwise. -/
theorem encodeUtf8_eq_iff {s : String} : encodeUtf8 s = s ↔ ∀ c ∈ s.toList, c.toNat < 128 := by
  rw [String.ext_iff, encodeUtf8_toList]
  constructor
  · intro h
    have hlength := congrArg List.length h
    rw [List.length_map] at hlength
    exact (ascii_of_length_encoded s.toList).2 (Nat.le_of_eq hlength)
  · intro h
    generalize s.toList = l at h
    induction l with
    | nil => rfl
    | cons c rest ih =>
      rw [List.flatMap_cons, List.map_append, encodeChar_of_ascii (h c List.mem_cons_self),
        ih fun d hd => h d (List.mem_cons_of_mem _ hd)]
      rfl

/-! ## The rewrite -/

theorem leaseHeader_toLower : leaseHeader.toLower = leaseHeader := by
  rw [String.ext_iff, String.toLower, String.toList_map]
  decide

/-- Without a lease header of its own a request gets one, and it is the one that is read. -/
theorem header_pinLease_self {headers : List (String × String)}
    (h : hasLeaseHeader headers = false) (token : String) :
    header leaseHeader (pinLease token headers) = some (encodeUtf8 token) := by
  have hnone : headers.lookup leaseHeader = none := by
    rw [List.lookup_eq_none_iff]
    intro item hitem
    have hother := List.any_eq_false.mp h item hitem
    rw [bne_iff_ne]
    rintro heq
    rw [← heq, leaseHeader_toLower] at hother
    simp at hother
  rw [pinLease, if_neg (by simp [h]), header, List.lookup_append, hnone]
  simp [List.lookup]

theorem CarriesLease.match_eq {method path token target : String}
    (h : CarriesLease method path token target) :
    ∃ rest, LeaseRoute method rest target ∧ matchLeasePath path = some (token, rest) := by
  obtain ⟨rest, hroute, rfl⟩ := h.route
  exact ⟨rest, hroute,
    matchLeasePath_iff.mpr ⟨h.nonempty, h.segment, Or.inr ⟨hroute.rest_eq, Or.inl rfl⟩⟩⟩

theorem rewriteLeasePath_of_match {scope : Scope} {token rest target : String}
    (hmatch : matchLeasePath scope.path = some (token, rest))
    (hroute : LeaseRoute scope.method rest target) :
    rewriteLeasePath scope =
      { scope with path := target, headers := pinLease token scope.headers } := by
  unfold rewriteLeasePath
  rw [hmatch]
  simp only [acceptsLeasePath_iff.mpr ⟨target, hroute⟩, if_true, hroute.target_eq]

/-- What is rewritten is on the list, or is so but for a newline at its end. -/
theorem rewriteLeasePath_otherwise {scope : Scope}
    (hnot : ∀ token target, ¬ CarriesLease scope.method scope.path token target)
    (hline : ¬ EndsInNewline scope) : rewriteLeasePath scope = scope := by
  unfold rewriteLeasePath
  split
  · rfl
  next token rest hmatch =>
    by_cases hacc : acceptsLeasePath scope.method rest = true
    · obtain ⟨target, hroute⟩ := acceptsLeasePath_iff.mp hacc
      obtain ⟨hne, hsegment, ⟨hroot, -⟩ | ⟨-, hpath | hpath⟩⟩ := matchLeasePath_iff.mp hmatch
      · rw [hroot] at hacc
        simp [acceptsLeasePath] at hacc
      · exact absurd ⟨hne, hsegment, rest, hroute, hpath⟩ (hnot token target)
      · exact absurd ⟨_, token, target, hpath, hne, hsegment, rest, hroute, rfl⟩ hline
    · rw [if_neg hacc]

/-- A route of the application is not under `/lease/`. -/
theorem LeaseRoute.target_clean {method rest target : String} (h : LeaseRoute method rest target) :
    Text.startsWith target "/lease/" = false := by
  cases h <;> rfl

/-- A path of the list does not end in a newline. -/
theorem CarriesLease.no_newline {method path token target : String}
    (h : CarriesLease method path token target) (line : String) : path ≠ line ++ "\n" := by
  obtain ⟨rest, hroute, rfl⟩ := h.route
  obtain ⟨tail, htail, hclean⟩ := hroute.rest_eq
  intro heq
  have hlast : rest.toList.getLast? = some '\n' := by
    have heq := congrArg (fun s => s.toList.getLast?) heq
    simp only [String.toList_append] at heq
    rw [List.getLast?_append_of_ne_nil _ (by simp [htail])] at heq
    rw [heq]
    simp
  have hmem := List.mem_of_getLast? hlast
  rw [htail] at hmem
  simp [hclean] at hmem

/-- The scope of a path on the list becomes that of its route. -/
theorem CarriesLease.rewrite_eq {scope : Scope} {token target : String}
    (h : CarriesLease scope.method scope.path token target) :
    rewriteLeasePath scope =
      { scope with path := target, headers := pinLease token scope.headers } := by
  obtain ⟨rest, hroute, hmatch⟩ := h.match_eq
  exact rewriteLeasePath_of_match hmatch hroute

/-- The newline at the end is taken for the end. -/
theorem EndsInNewline.rewrite_eq {scope : Scope} (h : EndsInNewline scope) :
    ∃ token target, Text.startsWith target "/lease/" = false ∧ rewriteLeasePath scope =
      { scope with path := target, headers := pinLease token scope.headers } := by
  obtain ⟨path, token, target, hpath, hcarries⟩ := h
  obtain ⟨rest, hroute, rfl⟩ := hcarries.route
  refine ⟨token, target, hroute.target_clean, rewriteLeasePath_of_match ?_ hroute⟩
  exact matchLeasePath_iff.mpr
    ⟨hcarries.nonempty, hcarries.segment, Or.inr ⟨hroute.rest_eq, Or.inr hpath⟩⟩

theorem CarriesLease.goesOn {scope : Scope} {token target : String}
    (h : CarriesLease scope.method scope.path token target) :
    GoesOnAs encodeUtf8 scope token target := by
  obtain ⟨rest, hroute, -⟩ := h.route
  have hrewrite := h.rewrite_eq
  refine ⟨?_, ?_, ?_, ?_, ?_⟩
  · rw [hrewrite]
  · rw [hrewrite]
  · intro hhas
    rw [hrewrite]
    exact header_pinLease_self hhas token
  · intro hhas
    rw [hrewrite]
    exact if_pos hhas
  · intro α notFound app
    have hclean : Text.startsWith (rewriteLeasePath scope).path "/lease/" = false := by
      rw [hrewrite]
      exact hroute.target_clean
    simp [leasePathMiddleware, hclean]

/-! ## The list decides -/

/-- Requests follow the list of paths, with the bytes of the token as their lease header, exactly
when the path is not one of the list with a newline behind it; the header is the text of the token
when that is ASCII too. -/
theorem lease_grammar_iff (scope : Scope) :
    (FollowsGrammar encodeUtf8 scope ↔ ¬ EndsInNewline scope) ∧
      (FollowsGrammar id scope ↔ ¬ EndsInNewline scope ∧ TokenIsAscii scope) := by
  -- a newline at the end has the application run where there is no route
  have hnewline : ∀ shown, FollowsGrammar shown scope → ¬ EndsInNewline scope := by
    intro shown h hline
    obtain ⟨token, target, hclean, hrewrite⟩ := hline.rewrite_eq
    obtain ⟨path, token', target', hpath, hcarries⟩ := hline
    have hruns := h.otherwise (fun _ _ hon => hon.no_newline path hpath)
      (fun _ => true) (fun _ => false)
    have hstarts : Text.startsWith scope.path "/lease/" = true := by
      obtain ⟨rest, -, rfl⟩ := hcarries.route
      rw [hpath, String.append_assoc, String.append_assoc]
      exact startsWith_lease.mpr ⟨_, rfl⟩
    simp [leasePathMiddleware, hrewrite, hclean, hstarts] at hruns
  have hotherwise : ∀ shown, ¬ EndsInNewline scope →
      (∀ token target, CarriesLease scope.method scope.path token target →
        GoesOnAs shown scope token target) → FollowsGrammar shown scope := by
    intro shown hline hon
    refine ⟨hon, fun hnot α notFound app => ?_⟩
    rw [leasePathMiddleware, rewriteLeasePath_otherwise hnot hline]
  refine ⟨⟨hnewline _, fun hline => hotherwise _ hline fun _ _ hon => hon.goesOn⟩, ?_⟩
  constructor
  · intro h
    refine ⟨hnewline _ h, fun token target hon hhas => encodeUtf8_eq_iff.mp ?_⟩
    have hseen := (h.rewrites token target hon).pinned hhas
    rw [hon.goesOn.pinned hhas] at hseen
    exact Option.some.inj hseen
  · rintro ⟨hline, hascii⟩
    refine hotherwise _ hline fun token target hon => { hon.goesOn with pinned := fun hhas => ?_ }
    rw [hon.goesOn.pinned hhas, encodeUtf8_eq_iff.mpr (hascii token target hon hhas)]
    rfl

/-- `GET /lease/t/v1/capacity` with a newline behind it runs the route. -/
theorem newline_runs_route :
    ¬ FollowsGrammar encodeUtf8 ⟨"GET", "/lease/t/v1/capacity\n", [], "http", none⟩ := by
  intro h
  have hoff : ∀ token target, ¬ CarriesLease "GET" "/lease/t/v1/capacity\n" token target :=
    fun _ _ hon => hon.no_newline "/lease/t/v1/capacity" (by decide)
  have hruns := h.otherwise hoff (fun _ => true) (fun _ => false)
  exact absurd hruns (by decide +kernel)

end LlmHomeLab
