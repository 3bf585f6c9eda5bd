import LlmHomeLab.Leases.Calls

/-! # Tokens of leases

The two tables of the book hold the same leases over any run, whatever the clock does. A token
that has left the book does not come back, and presenting a token touches no lease but its own.
Both rest on `secrets.token_urlsafe` not drawing a token twice.
-/

namespace LlmHomeLab

/-- The lease a call granted. -/
def LeaseEvent.grants (e : LeaseEvent) : Option NodeLease :=
  match e.call, e.answer with
  | .reserve .., .lease (.ok lease) => some lease
  | _, _ => none

/-- The token a call presents. -/
def LeaseCall.presents : LeaseCall → Option String
  | .require token => some token
  | .heartbeat token => some token
  | .release token => some token
  | _ => none

/-- The lease a call ended on request. -/
def LeaseEvent.ends (e : LeaseEvent) : Option NodeLease :=
  match e.call, e.answer with
  | .release _, .lease (.ok lease) => some lease
  | .forceRelease _, .lease (.ok lease) => some lease
  | _, _ => none

/-- The tokens drawn for leases. -/
def drawnTokens (es : List LeaseEvent) : List String :=
  (es.filterMap LeaseEvent.grants).map NodeLease.token

theorem drawnTokens_append (es fs : List LeaseEvent) :
    drawnTokens (es ++ fs) = drawnTokens es ++ drawnTokens fs := by
  simp [drawnTokens]

namespace NodeLeaseBook

variable {book book' : NodeLeaseBook} {now : Int} {call : LeaseCall} {answer : LeaseAnswer}
  {es : List LeaseEvent} {e : LeaseEvent}

/-! ## One call -/

/-- A token in the book was there before the call, or the call drew it. -/
theorem Effect.token_known (h : book.Consistent) (heff : Effect book now call answer book')
    {t : String} {l : NodeLease} (hl : book'.byToken.get? t = some l) :
    (∃ l₀, book.byToken.get? t = some l₀) ∨
      ∃ lease, LeaseEvent.grants ⟨call, now, answer⟩ = some lease ∧ lease.token = t := by
  cases heff with
  | looked hlooked _ => exact Or.inl ⟨l, hlooked.drops.ofToken hl⟩
  | granted hfree hpos hmax =>
    -- the token drawn, or one that has survived the purge
    simp only [put, Dict.get?_set] at hl
    split at hl
    · next heq => exact Or.inr ⟨_, rfl, heq.symm⟩
    · exact Or.inl ⟨l, (purge_drops h now).drops.ofToken hl⟩
  | @renewed token lease htoken hlive =>
    -- the token stays, with a later expiry
    simp only [put, Dict.get?_set] at hl
    split at hl
    · next heq =>
      refine Or.inl ⟨lease, ?_⟩
      rw [heq]
      exact (h.ofToken htoken).1 ▸ htoken
    · exact Or.inl ⟨l, hl⟩
  | released htoken hlive =>
    simp only [drop, Dict.get?_pop] at hl
    split at hl
    · cases hl
    · exact Or.inl ⟨l, hl⟩
  | forced hlease =>
    simp only [drop, Dict.get?_pop] at hl
    split at hl
    · cases hl
    · exact Or.inl ⟨l, (purge_drops h now).drops.ofToken hl⟩

/-- Every call keeps the book consistent, if a new lease gets a token that is not in it. -/
theorem Effect.consistent (h : book.Consistent) (heff : Effect book now call answer book')
    (hfresh : ∀ lease, LeaseEvent.grants ⟨call, now, answer⟩ = some lease →
      book.byToken.get? lease.token = none) : book'.Consistent := by
  have hpurge := purge_drops h now
  cases heff with
  | looked hlooked _ => exact hlooked.consistent
  | @granted holder hostId token hosts wanted model ceiling hfree hpos hmax =>
    -- a token that is drawn is in use nowhere
    have hnone : (book.purge now).byToken.get? token = none := by
      cases hl : (book.purge now).byToken.get? token with
      | none => rfl
      | some l =>
        have hnot : book.byToken.get? token = none := hfresh _ rfl
        rw [hpurge.drops.ofToken hl] at hnot
        cases hnot
    refine consistent_put hpurge.consistent ?_ ?_
    · intro l hl
      rw [show (book.purge now).byHost.get? hostId = some l from hl] at hfree
      cases hfree
    · intro l hl
      rw [show (book.purge now).byToken.get? token = some l from hl] at hnone
      cases hnone
  | @renewed token lease htoken hlive =>
    have hbeat := consistent_heartbeat h token now
    unfold heartbeat at hbeat
    rw [require_of_live htoken hlive] at hbeat
    exact hbeat
  | released htoken hlive => exact consistent_drop h (h.ofToken htoken).2
  | forced hlease =>
    refine consistent_drop hpurge.consistent ?_
    exact (hpurge.consistent.ofHost hlease).1.symm ▸ hlease

/-- Apart from the lease of one token, the two books hold the same leases. -/
structure SameBut (token : String) (book book' : NodeLeaseBook) : Prop where
  byToken : ∀ {t}, t ≠ token → book'.byToken.get? t = book.byToken.get? t
  byHost : ∀ {l : NodeLease}, l.token ≠ token →
    (book'.byHost.get? l.hostId = some l ↔ book.byHost.get? l.hostId = some l)

theorem SameBut.refl (token : String) (book : NodeLeaseBook) : SameBut token book book :=
  ⟨fun _ => rfl, fun _ => Iff.rfl⟩

theorem sameBut_drop (h : book.Consistent) {token : String} {lease : NodeLease}
    (hlease : book.byToken.get? token = some lease) : SameBut token book (book.drop lease) := by
  rcases h.ofToken hlease with ⟨rfl, hhost⟩
  constructor
  · intro t ht
    exact Dict.get?_pop_of_ne _ ht
  · intro l hl
    have hne : book.byHost.get? l.hostId = some l → l.hostId ≠ lease.hostId := by
      intro hthere heq
      rw [heq, hhost] at hthere
      cases hthere
      exact hl rfl
    simp only [drop, Dict.get?_pop]
    constructor
    · intro hthere
      split at hthere
      · cases hthere
      · exact hthere
    · intro hthere
      rw [if_neg (hne hthere)]
      exact hthere

theorem sameBut_renewed (h : book.Consistent) {token : String} {lease : NodeLease}
    (hlease : book.byToken.get? token = some lease) (now : Int) :
    SameBut token book (book.put (book.renewed lease now)) := by
  rcases h.ofToken hlease with ⟨rfl, hhost⟩
  constructor
  · intro t ht
    exact Dict.get?_set_of_ne _ ht
  · intro l hl
    simp only [put, Dict.get?_set]
    constructor
    · intro hthere
      split at hthere
      · cases hthere
        exact absurd rfl hl
      · exact hthere
    · intro hthere
      rw [if_neg]
      · exact hthere
      · intro heq
        rw [show l.hostId = lease.hostId from heq, hhost] at hthere
        cases hthere
        exact hl rfl

/-- A call that presents a token touches no other lease. -/
theorem sameBut_presents (h : book.Consistent) {token : String} (hcall : call.presents = some token)
    (now : Int) : SameBut token book (book.perform call now).2 := by
  have hrequire : SameBut token book (book.require token now).2 := by
    unfold require
    split
    · exact .refl token book
    · next lease hlease =>
      split
      · exact .refl token book
      · exact sameBut_drop h hlease
  cases call with
  | require t =>
    cases hcall
    exact hrequire
  | heartbeat t =>
    cases hcall
    show SameBut token book (book.heartbeat token now).2
    unfold heartbeat
    split
    · next hreq => rwa [hreq] at hrequire
    · next hreq =>
      rcases require_ok hreq with ⟨hlease, _, rfl⟩
      exact sameBut_renewed h hlease now
  | release t =>
    cases hcall
    show SameBut token book (book.release token now).2
    unfold release
    split
    · next hreq => rwa [hreq] at hrequire
    · next hreq =>
      rcases require_ok hreq with ⟨hlease, _, rfl⟩
      exact sameBut_drop h hlease
  | reserve _ _ _ _ _ _ => cases hcall
  | isHeld _ => cases hcall
  | forceRelease _ => cases hcall
  | view _ => cases hcall

/-- A token that is not in the book changes nothing. -/
theorem perform_unknown {token : String} (hcall : call.presents = some token)
    (hnone : book.byToken.get? token = none) (now : Int) :
    book.perform call now = (.lease (.error .notHeld), book) := by
  have hrequire : book.require token now = (.error .notHeld, book) := by
    simp [require, hnone]
  cases call with
  | require t =>
    cases hcall
    simp [perform, hrequire]
  | heartbeat t =>
    cases hcall
    simp [perform, heartbeat, hrequire]
  | release t =>
    cases hcall
    simp [perform, release, hrequire]
  | reserve _ _ _ _ _ _ => cases hcall
  | isHeld _ => cases hcall
  | forceRelease _ => cases hcall
  | view _ => cases hcall

theorem Quiet.ends (h : Quiet call answer) (now : Int) :
    LeaseEvent.ends ⟨call, now, answer⟩ = none := by
  unfold LeaseEvent.ends
  split
  · next heq heq' =>
    simp only at heq heq'
    rw [heq, heq'] at h
    exact h.elim
  · next heq heq' =>
    simp only at heq heq'
    rw [heq, heq'] at h
    exact h.elim
  · rfl

theorem Effect.ended (h : book.Consistent) (heff : Effect book now call answer book')
    {lease : NodeLease} (hends : LeaseEvent.ends ⟨call, now, answer⟩ = some lease) :
    book.byToken.get? lease.token = some lease ∧ book'.byToken.get? lease.token = none := by
  cases heff with
  | looked _ hquiet =>
    rw [hquiet.ends now] at hends
    cases hends
  | granted => simp [LeaseEvent.ends] at hends
  | renewed => simp [LeaseEvent.ends] at hends
  | released htoken hlive =>
    cases hends
    refine ⟨(h.ofToken htoken).1.symm ▸ htoken, ?_⟩
    simp [drop]
  | forced hlease =>
    cases hends
    have hpurge := purge_drops h now
    refine ⟨hpurge.drops.ofToken (hpurge.consistent.ofHost hlease).2, ?_⟩
    simp [drop]

/-! ## Runs -/

/-- The book of a fresh process. -/
def start (settings : LeaseSettings) : NodeLeaseBook := ⟨settings, .empty, .empty⟩

/-- The book is consistent, and every token in it was drawn by one of the calls. -/
structure Known (es : List LeaseEvent) (book : NodeLeaseBook) : Prop where
  consistent : book.Consistent
  drawn : ∀ {t l}, book.byToken.get? t = some l → t ∈ drawnTokens es

variable {settings : LeaseSettings}

theorem drawnTokens_grants {lease : NodeLease} (h : e.grants = some lease) :
    drawnTokens [e] = [lease.token] := by
  simp [drawnTokens, h]

theorem known_run (hrun : Run Performs (start settings) es book) (hfresh : (drawnTokens es).Nodup) :
    Known es book := by
  induction hrun with
  | nil => exact ⟨consistent_empty settings, fun h => by simp [start] at h⟩
  | @snoc es a b e _ hp ih =>
    rw [drawnTokens_append] at hfresh
    have hknown := ih hfresh.of_append_left
    have heff := effect_of_performs hknown.consistent hp
    refine ⟨heff.consistent hknown.consistent ?_, ?_⟩
    · intro lease hgrants
      cases hl : a.byToken.get? lease.token with
      | none => rfl
      | some l =>
        -- the token was drawn before
        rw [drawnTokens_grants hgrants] at hfresh
        have hmem : lease.token ∈ [lease.token] := List.mem_cons_self
        exact absurd hmem (List.disjoint_of_nodup_append hfresh (hknown.drawn hl))
    · intro t l hl
      rw [drawnTokens_append]
      rcases heff.token_known hknown.consistent hl with ⟨l₀, hl₀⟩ | ⟨lease, hgrants, rfl⟩
      · exact List.mem_append_left _ (hknown.drawn hl₀)
      · rw [drawnTokens_grants hgrants]
        exact List.mem_append_right _ List.mem_cons_self

/-- A token that was drawn and is not in the book stays out of it. -/
theorem token_stays_out {pre post : List LeaseEvent} {a b : NodeLeaseBook} {t : String}
    (hpre : Run Performs (start settings) pre a) (hpost : Run Performs a post b)
    (hfresh : (drawnTokens (pre ++ post)).Nodup) (ht : t ∈ drawnTokens pre)
    (hnone : a.byToken.get? t = none) : b.byToken.get? t = none := by
  induction hpost with
  | nil => exact hnone
  | @snoc post c d e hrun hp ih =>
    rw [← List.append_assoc, drawnTokens_append] at hfresh
    have hknown : Known (pre ++ post) c := known_run (hpre.append hrun) hfresh.of_append_left
    have hout := ih hfresh.of_append_left
    cases hl : d.byToken.get? t with
    | none => rfl
    | some l =>
      have heff := effect_of_performs hknown.consistent hp
      rcases heff.token_known hknown.consistent hl with ⟨l₀, hl₀⟩ | ⟨lease, hgrants, rfl⟩
      · rw [hout] at hl₀
        cases hl₀
      · rw [drawnTokens_grants hgrants, drawnTokens_append] at hfresh
        have hmem : lease.token ∈ drawnTokens pre ++ drawnTokens post :=
          List.mem_append_left _ ht
        exact absurd List.mem_cons_self (List.disjoint_of_nodup_append hfresh hmem)

/-- What holds of the book after the calls `es`. -/
structure TokenIsolation (settings : LeaseSettings) (es : List LeaseEvent) (book : NodeLeaseBook) :
    Prop where
  consistent : book.Consistent
  oneLease : ∀ {t t' l l'}, book.byToken.get? t = some l → book.byToken.get? t' = some l' →
    l.hostId = l'.hostId → l = l'
  /-- A release takes the lease out. -/
  ended : ∀ (pre post : List LeaseEvent) (e : LeaseEvent) (a b : NodeLeaseBook) (lease : NodeLease),
    es = pre ++ e :: post → Run Performs (start settings) pre a → Performs a e b →
      e.ends = some lease →
      a.byToken.get? lease.token = some lease ∧ b.byToken.get? lease.token = none
  /-- A lease that a call took out, for whatever reason, is not in the book again. -/
  gone : ∀ (pre post : List LeaseEvent) (e : LeaseEvent) (a b : NodeLeaseBook) (lease : NodeLease),
    es = pre ++ e :: post → Run Performs (start settings) pre a → Performs a e b →
      a.byToken.get? lease.token = some lease → b.byToken.get? lease.token = none →
      book.byToken.get? lease.token = none
  unknown : ∀ (call : LeaseCall) (now : Int) (token : String), call.presents = some token →
    book.byToken.get? token = none → book.perform call now = (.lease (.error .notHeld), book)
  others : ∀ (call : LeaseCall) (now : Int) (token : String), call.presents = some token →
    SameBut token book (book.perform call now).2

/-- `Performs` is a function of the book and the event. -/
theorem performs_unique {a b c : NodeLeaseBook} (hb : Performs a e b) (hc : Performs a e c) :
    b = c := by
  have heq := hb.symm.trans hc
  exact congrArg Prod.snd heq

theorem run_performs_unique {a b c : NodeLeaseBook} (hb : Run Performs a es b)
    (hc : Run Performs a es c) : b = c := by
  induction hb generalizing c with
  | nil => exact hc.nil_eq.symm
  | snoc _ hp ih =>
    rcases hc.of_snoc with ⟨d, hd, hp'⟩
    rw [← ih hd] at hp'
    exact performs_unique hp hp'

theorem token_isolation (hrun : Run Performs (start settings) es book)
    (hfresh : (drawnTokens es).Nodup) : TokenIsolation settings es book := by
  have hknown := known_run hrun hfresh
  constructor
  · exact hknown.consistent
  · intro t t' l l' hl hl' hhost
    have h := (hknown.consistent.ofToken hl).2
    rw [hhost, (hknown.consistent.ofToken hl').2] at h
    exact (Option.some.inj h).symm
  · intro pre post e a b lease hes hpre hp hends
    rw [hes, drawnTokens_append] at hfresh
    have hknown' := known_run hpre hfresh.of_append_left
    exact (effect_of_performs hknown'.consistent hp).ended hknown'.consistent hends
  · -- the run goes through this very event: a run is determined by its events
    intro pre post e a b lease hes hpre hp hthere hnone
    subst hes
    rcases Run.split_at hrun with ⟨a', b', hpre', hp', hpost⟩
    have ha := run_performs_unique hpre hpre'
    subst ha
    have hb := performs_unique hp hp'
    subst hb
    rw [List.append_cons] at hfresh
    have hdrawn : lease.token ∈ drawnTokens (pre ++ [e]) := by
      rw [drawnTokens_append]
      rw [drawnTokens_append, drawnTokens_append, List.append_assoc] at hfresh
      exact List.mem_append_left _ ((known_run hpre hfresh.of_append_left).drawn hthere)
    exact token_stays_out (.snoc hpre hp) hpost hfresh hdrawn hnone
  · intro call now token hcall hnone
    exact perform_unknown hcall hnone now
  · intro call now token hcall
    exact sameBut_presents hknown.consistent hcall now

namespace Example

def limits : LeaseSettings :=
  { LeaseSettings.defaults with
    ttl := 100
    minActiveNodes := 0
    ttl_pos := by decide
    minActiveNodes_nonneg := by decide }

/-- A lease on the one node, granted at `now`. -/
def leaseAt (token : String) (now expiresAt : Int) : NodeLease :=
  ⟨"node", "tester", token, expiresAt, now + 10800000000, now⟩

def reserves (token : String) (now : Int) : LeaseEvent :=
  ⟨.reserve "tester" [⟨"node", .online, true, true⟩] (some "node") none none token, now,
    .lease (.ok (leaseAt token now (now + 100)))⟩

/-- The node is released, reserved again while the clock goes back, and the old token is
presented. -/
def takeover : List LeaseEvent :=
  [] ++ [reserves "first" 500] ++ [⟨.release "first", 510, .lease (.ok (leaseAt "first" 500 600))⟩] ++
    [reserves "second" 400] ++ [⟨.heartbeat "first", 410, .lease (.error .notHeld)⟩] ++
    [⟨.isHeld "node", 420, .held true⟩]

end Example

open Example in
theorem token_isolation_takeover :
    ∃ book, Run Performs (start limits) takeover book ∧
      TokenIsolation limits takeover book := by
  have hrun : ∃ book, Run Performs (start limits) takeover book := by
    refine ⟨_, .snoc (.snoc (.snoc (.snoc (.snoc .nil (performs_of_answer ?_))
      (performs_of_answer ?_)) (performs_of_answer ?_)) (performs_of_answer ?_))
      (performs_of_answer ?_)⟩
    all_goals decide +kernel
  rcases hrun with ⟨book, hrun⟩
  exact ⟨book, hrun, token_isolation hrun (by decide +kernel)⟩

end NodeLeaseBook

end LlmHomeLab
