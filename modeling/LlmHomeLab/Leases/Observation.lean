import LlmHomeLab.Leases.Tenure

/-! # Looking at leases

A read drops the expired leases it comes across, and with them the book's knowledge that there
was a lease: a heartbeat or a release with the old token is then told that the token is not
valid, where it would have been told that the lease has ended. Two runs are compared here, one of
them without some of its reads.
-/

namespace LlmHomeLab

theorem NodeLease.live_mono {lease : NodeLease} {clock now : Int} (hle : clock ≤ now)
    (h : lease.live clock = false) : lease.live now = false := by
  unfold NodeLease.live at *
  rw [Bool.and_eq_false_iff, decide_eq_false_iff_not, decide_eq_false_iff_not] at *
  omega

/-- The call drops the lease if it has expired, whoever makes it. -/
def LeaseCall.sweeps (settings : LeaseSettings) (lease : NodeLease) : LeaseCall → Bool
  | .isHeld hostId => lease.hostId = hostId
  | .view hostId => lease.hostId = hostId
  | .forceRelease _ => true
  | .reserve holder _ _ _ ceiling _ =>
    NodeLeaseBook.strip holder ≠ "" && 0 < ceiling.getD settings.defaultCeiling &&
      ceiling.getD settings.defaultCeiling ≤ settings.maxCeiling
  | _ => false

/-- The call drops the lease if it has expired. -/
def LeaseCall.drops (settings : LeaseSettings) (call : LeaseCall) (lease : NodeLease) : Bool :=
  call.sweeps settings lease || call.presents = some lease.token

/-- The token a call draws, if it grants a lease. -/
def LeaseCall.draws : LeaseCall → Option String
  | .reserve _ _ _ _ _ token => some token
  | _ => none

/-- A call of a run, and whether it is left out of the other run. -/
structure LeaseStep where
  call : LeaseCall
  now : Int
  deleted : Bool
deriving DecidableEq, Repr

/-- The steps of the other run. -/
def keptSteps (script : List LeaseStep) : List LeaseStep := script.filter fun s => !s.deleted

namespace NodeLeaseBook

variable {book book' a b a' b' : NodeLeaseBook} {clock now : Int} {call : LeaseCall}

/-! ## Sweeping -/

/-- `book'` is `book` without the expired leases that satisfy `S`. -/
structure Swept (S : NodeLease → Bool) (now : Int) (book book' : NodeLeaseBook) : Prop where
  settings : book'.settings = book.settings
  byHost : ∀ h, book'.byHost.get? h = (book.byHost.get? h).filter fun l => l.live now || !S l
  byToken : ∀ t, book'.byToken.get? t = (book.byToken.get? t).filter fun l => l.live now || !S l

/-- Dropping an expired lease sweeps the leases of its host. -/
theorem swept_drop (h : book.Consistent) {lease : NodeLease}
    (hlease : book.byHost.get? lease.hostId = some lease) (hdead : lease.live now = false) :
    Swept (fun l => l.hostId = lease.hostId) now book (book.drop lease) := by
  constructor
  · rfl
  · intro host
    simp only [drop, Dict.get?_pop]
    split
    · next heq =>
      rw [heq, hlease]
      simp [Option.filter, hdead]
    · next hne =>
      cases hl : book.byHost.get? host with
      | none => rfl
      | some l =>
        have hid := (h.ofHost hl).1
        simp [Option.filter, hid, hne]
  · intro t
    have htoken := (h.ofHost hlease).2
    simp only [drop, Dict.get?_pop]
    split
    · next heq =>
      rw [heq, htoken]
      simp [Option.filter, hdead]
    · next hne =>
      cases hl : book.byToken.get? t with
      | none => rfl
      | some l =>
        -- two leases of one host would be the same
        rcases h.ofToken hl with ⟨rfl, hhost⟩
        have hother : l.hostId ≠ lease.hostId := by
          intro heq
          rw [heq, hlease] at hhost
          cases hhost
          exact hne rfl
        simp [Option.filter, hother]

theorem swept_self {S : NodeLease → Bool}
    (hnone : ∀ t l, book.byToken.get? t = some l → l.live now = true ∨ S l = false)
    (h : book.Consistent) : Swept S now book book := by
  constructor
  · rfl
  · intro host
    cases hl : book.byHost.get? host with
    | none => rfl
    | some l =>
      rcases hnone _ l (h.ofHost hl).2 with hlive | hS
      · simp [Option.filter, hlive]
      · simp [Option.filter, hS]
  · intro t
    cases hl : book.byToken.get? t with
    | none => rfl
    | some l =>
      rcases hnone t l hl with hlive | hS
      · simp [Option.filter, hlive]
      · simp [Option.filter, hS]

theorem swept_isHeld (h : book.Consistent) (hostId : String) (now : Int) :
    Swept (fun l => l.hostId = hostId) now book (book.isHeld hostId now).2 := by
  unfold isHeld
  split
  · next hnone =>
    -- the host has no lease that could be dropped
    refine swept_self ?_ h
    intro t l hl
    right
    rw [decide_eq_false_iff_not]
    rintro rfl
    rw [(h.ofToken hl).2] at hnone
    cases hnone
  · next lease hlease =>
    have hid := (h.ofHost hlease).1
    split
    · next hlive =>
      -- the lease of the host is live, and those of the others are not looked at
      refine swept_self ?_ h
      intro t l hl
      by_cases heq : l.hostId = hostId
      · left
        have hhost := (h.ofToken hl).2
        rw [heq, hlease] at hhost
        cases hhost
        exact hlive
      · right
        simpa using heq
    · next hdead =>
      subst hid
      exact swept_drop h hlease (by simpa using hdead)

theorem view_snd (book : NodeLeaseBook) (hostId : String) (now : Int) :
    (book.view hostId now).2 = (book.isHeld hostId now).2 := by
  unfold view isHeld
  split
  · rfl
  · next lease hl => cases lease.live now <;> rfl

theorem swept_purge (h : book.Consistent) (now : Int) :
    Swept (fun _ => true) now book (book.purge now) := by
  have hpurge := purge_drops h now
  constructor
  · exact hpurge.drops.settings
  · intro host
    refine Option.ext fun l => ?_
    rw [Option.filter_eq_some_iff]
    constructor
    · intro hl
      exact ⟨hpurge.drops.ofHost hl, by simp [live_of_purge h hl]⟩
    · rintro ⟨hl, hlive⟩
      exact hpurge.drops.hostKept hl (by simpa using hlive)
  · intro t
    refine Option.ext fun l => ?_
    rw [Option.filter_eq_some_iff]
    constructor
    · intro hl
      have hlive := live_of_purge h (hpurge.consistent.ofToken hl).2
      exact ⟨hpurge.drops.ofToken hl, by simp [hlive]⟩
    · rintro ⟨hl, hlive⟩
      exact hpurge.drops.tokenKept hl (by simpa using hlive)

/-! ## Two books

`a` has been looked at more often than `b`: it lacks some leases that had expired by `clock`. -/

structure Behind (clock : Int) (b a : NodeLeaseBook) : Prop where
  consistent : b.Consistent
  looked : Looked clock b a

/-- A lease that only the book looked at less often still knows. -/
def Ghost (b a : NodeLeaseBook) (l : NodeLease) : Prop :=
  b.byToken.get? l.token = some l ∧ a.byToken.get? l.token = none

theorem Behind.refl (h : book.Consistent) : Behind clock book book := ⟨h, h, .refl _ _⟩

theorem not_ghost_self (l : NodeLease) : ¬ Ghost book book l := by
  rintro ⟨hthere, hnone⟩
  rw [hthere] at hnone
  cases hnone

theorem Behind.later (h : Behind clock b a) (hle : clock ≤ now) : Behind now b a :=
  ⟨h.consistent, h.looked.consistent, h.looked.drops.mono fun _ => NodeLease.live_mono hle⟩

theorem Behind.ghost_dead (h : Behind clock b a) {l : NodeLease} (hl : Ghost b a l) :
    l.live clock = false := by
  by_contra hlive
  have hkept := h.looked.drops.tokenKept hl.1 hlive
  rw [hl.2] at hkept
  cases hkept

/-- Under a token both books have the same, but for a ghost. -/
theorem Behind.byToken_eq (h : Behind clock b a) {t : String}
    (hghost : ∀ l, Ghost b a l → l.token ≠ t) : a.byToken.get? t = b.byToken.get? t := by
  cases hb : b.byToken.get? t with
  | none =>
    cases ha : a.byToken.get? t with
    | none => rfl
    | some l =>
      rw [h.looked.drops.ofToken ha] at hb
      cases hb
  | some l =>
    rcases h.consistent.ofToken hb with ⟨rfl, _⟩
    cases ha : a.byToken.get? l.token with
    | none => exact absurd rfl (hghost l ⟨hb, ha⟩)
    | some l' =>
      rw [h.looked.drops.ofToken ha] at hb
      exact hb

/-- The leases that are live now are in both books. -/
theorem Behind.filter_byHost (h : Behind now b a) (host : String) :
    (a.byHost.get? host).filter (·.live now) = (b.byHost.get? host).filter (·.live now) := by
  cases hb : b.byHost.get? host with
  | none =>
    cases ha : a.byHost.get? host with
    | none => rfl
    | some l =>
      rw [h.looked.drops.ofHost ha] at hb
      cases hb
  | some l =>
    by_cases hlive : l.live now = true
    · rw [h.looked.drops.hostKept hb (by simp [hlive])]
    · cases ha : a.byHost.get? host with
      | none => simp [Option.filter, hlive]
      | some l' =>
        rw [h.looked.drops.ofHost ha] at hb
        rw [hb]

/-- After the same sweep of both books, the ghosts are those that were not swept. -/
theorem Behind.swept {S : NodeLease → Bool} (h : Behind now b a) (hb : Swept S now b b')
    (ha : Swept S now a a') (hb' : b'.Consistent) (ha' : a'.Consistent) :
    Behind now b' a' ∧ ∀ l, Ghost b' a' l ↔ Ghost b a l ∧ S l = false := by
  have hdrops := h.looked.drops
  refine ⟨⟨hb', ha', ?_⟩, ?_⟩
  · constructor
    · exact ha.settings.trans (hdrops.settings.trans hb.settings.symm)
    · intro host l hl
      rw [ha.byHost, Option.filter_eq_some_iff] at hl
      rw [hb.byHost, Option.filter_eq_some_iff]
      exact ⟨hdrops.ofHost hl.1, hl.2⟩
    · intro t l hl
      rw [ha.byToken, Option.filter_eq_some_iff] at hl
      rw [hb.byToken, Option.filter_eq_some_iff]
      exact ⟨hdrops.ofToken hl.1, hl.2⟩
    · intro host l hl hlive
      rw [hb.byHost, Option.filter_eq_some_iff] at hl
      rw [ha.byHost, Option.filter_eq_some_iff]
      exact ⟨hdrops.hostKept hl.1 hlive, hl.2⟩
    · intro t l hl hlive
      rw [hb.byToken, Option.filter_eq_some_iff] at hl
      rw [ha.byToken, Option.filter_eq_some_iff]
      exact ⟨hdrops.tokenKept hl.1 hlive, hl.2⟩
  · -- a ghost is one still, unless the sweep has reached it
    intro l
    constructor
    · rintro ⟨hthere, hnone⟩
      rw [hb.byToken, Option.filter_eq_some_iff] at hthere
      rcases hthere with ⟨hthere, hkeep⟩
      have hghost : Ghost b a l := by
        refine ⟨hthere, ?_⟩
        cases hl : a.byToken.get? l.token with
        | none => rfl
        | some l' =>
          have hsame := hdrops.ofToken hl
          rw [hthere] at hsame
          cases hsame
          rw [ha.byToken, hl] at hnone
          simp [Option.filter, hkeep] at hnone
      have hdead := h.ghost_dead hghost
      exact ⟨hghost, by simpa [hdead] using hkeep⟩
    · rintro ⟨⟨hthere, hnone⟩, hS⟩
      constructor
      · rw [hb.byToken, hthere]
        simp [Option.filter, hS]
      · rw [ha.byToken, hnone]
        rfl

/-- Renewing a lease that both books have. -/
theorem Behind.put {lease : NodeLease} (h : Behind now b a) (renewed : NodeLease)
    (hlease : a.byToken.get? lease.token = some lease) (hid : renewed.hostId = lease.hostId)
    (htoken : renewed.token = lease.token) :
    Behind now (b.put renewed) (a.put renewed) ∧
      ∀ l, Ghost (b.put renewed) (a.put renewed) l ↔ Ghost b a l := by
  have hdrops := h.looked.drops
  have hput : ∀ {x : NodeLeaseBook}, x.Consistent → x.byToken.get? lease.token = some lease →
      (x.put renewed).Consistent := by
    intro x hx hl
    refine consistent_put hx ?_ ?_
    · intro l hl'
      rw [hid, (hx.ofToken hl).2] at hl'
      cases hl'
      exact htoken.symm
    · intro l hl'
      rw [htoken, hl] at hl'
      cases hl'
      exact hid.symm
  refine ⟨⟨hput h.consistent (hdrops.ofToken hlease), hput h.looked.consistent hlease, ?_⟩, ?_⟩
  · constructor
    · exact hdrops.settings
    · intro host l hl
      simp only [NodeLeaseBook.put, Dict.get?_set] at hl ⊢
      split at hl
      · next heq => rw [if_pos heq, hl]
      · next hne => rw [if_neg hne, hdrops.ofHost hl]
    · intro t l hl
      simp only [NodeLeaseBook.put, Dict.get?_set] at hl ⊢
      split at hl
      · next heq => rw [if_pos heq, hl]
      · next hne => rw [if_neg hne, hdrops.ofToken hl]
    · intro host l hl hlive
      simp only [NodeLeaseBook.put, Dict.get?_set] at hl ⊢
      split at hl
      · next heq => rw [if_pos heq, hl]
      · next hne => rw [if_neg hne, hdrops.hostKept hl hlive]
    · intro t l hl hlive
      simp only [NodeLeaseBook.put, Dict.get?_set] at hl ⊢
      split at hl
      · next heq => rw [if_pos heq, hl]
      · next hne => rw [if_neg hne, hdrops.tokenKept hl hlive]
  · intro l
    unfold Ghost
    simp only [NodeLeaseBook.put, Dict.get?_set, htoken]
    split
    · next heq =>
      -- the lease itself is in both books, before and after
      rw [heq, hlease]
      simp
    · rfl

/-- Dropping a lease that both books have. -/
theorem Behind.drop {lease : NodeLease} (h : Behind now b a)
    (hlease : a.byToken.get? lease.token = some lease) :
    Behind now (b.drop lease) (a.drop lease) ∧
      ∀ l, Ghost (b.drop lease) (a.drop lease) l ↔ Ghost b a l := by
  have hdrops := h.looked.drops
  have hlease' := hdrops.ofToken hlease
  refine ⟨⟨consistent_drop h.consistent (h.consistent.ofToken hlease').2,
    consistent_drop h.looked.consistent (h.looked.consistent.ofToken hlease).2, ?_⟩, ?_⟩
  · constructor
    · exact hdrops.settings
    · intro host l hl
      simp only [NodeLeaseBook.drop, Dict.get?_pop] at hl ⊢
      split at hl
      · cases hl
      · next hne => rw [if_neg hne, hdrops.ofHost hl]
    · intro t l hl
      simp only [NodeLeaseBook.drop, Dict.get?_pop] at hl ⊢
      split at hl
      · cases hl
      · next hne => rw [if_neg hne, hdrops.ofToken hl]
    · intro host l hl hlive
      simp only [NodeLeaseBook.drop, Dict.get?_pop] at hl ⊢
      split at hl
      · cases hl
      · next hne => rw [if_neg hne, hdrops.hostKept hl hlive]
    · intro t l hl hlive
      simp only [NodeLeaseBook.drop, Dict.get?_pop] at hl ⊢
      split at hl
      · cases hl
      · next hne => rw [if_neg hne, hdrops.tokenKept hl hlive]
  · -- the lease dropped was in both books, so it was no ghost
    intro l
    unfold Ghost
    simp only [NodeLeaseBook.drop, Dict.get?_pop]
    split
    · next heq =>
      rw [heq, hlease]
      simp
    · rfl

/-! ## Books with the same leases -/

/-- Every lookup gives the same. -/
structure Same (x y : NodeLeaseBook) : Prop where
  settings : y.settings = x.settings
  byHost : ∀ h, y.byHost.get? h = x.byHost.get? h
  byToken : ∀ t, y.byToken.get? t = x.byToken.get? t

theorem Same.behind {x y : NodeLeaseBook} (h : Same x y) (hx : x.Consistent) (hy : y.Consistent) :
    Behind now x y ∧ ∀ l, ¬ Ghost x y l := by
  refine ⟨⟨hx, hy, h.settings, ?_, ?_, ?_, ?_⟩, ?_⟩
  · intro host l hl
    rw [← hl]
    exact (h.byHost host).symm
  · intro t l hl
    rw [← hl]
    exact (h.byToken t).symm
  · intro host l hl _
    rw [← hl]
    exact h.byHost host
  · intro t l hl _
    rw [← hl]
    exact h.byToken t
  · rintro l ⟨hthere, hnone⟩
    rw [h.byToken, hthere] at hnone
    cases hnone

theorem Same.put {x y : NodeLeaseBook} (h : Same x y) (lease : NodeLease) :
    Same (x.put lease) (y.put lease) := by
  constructor
  · exact h.settings
  · intro host
    simp only [NodeLeaseBook.put, Dict.get?_set, h.byHost]
  · intro t
    simp only [NodeLeaseBook.put, Dict.get?_set, h.byToken]

theorem Behind.same_purge (h : Behind now b a) : Same (b.purge now) (a.purge now) := by
  have hb := swept_purge h.consistent now
  have ha := swept_purge h.looked.consistent now
  have hnone : ∀ l, ¬ Ghost (b.purge now) (a.purge now) l := by
    intro l hl
    have hboth := (h.swept hb ha (purge_drops h.consistent now).consistent
      (purge_drops h.looked.consistent now).consistent).2 l
    exact absurd (hboth.mp hl).2 (by simp)
  constructor
  · exact ha.settings.trans (h.looked.drops.settings.trans hb.settings.symm)
  · intro host
    have hfilter := h.filter_byHost host
    rw [ha.byHost, hb.byHost]
    simpa using hfilter
  · have hbehind := (h.swept hb ha (purge_drops h.consistent now).consistent
      (purge_drops h.looked.consistent now).consistent).1
    intro t
    exact hbehind.byToken_eq fun l hl => absurd hl (hnone l)

/-- The two calls answer the same and leave the same leases. -/
def Agree (r r' : Except LeaseError NodeLease × NodeLeaseBook) : Prop :=
  r'.1 = r.1 ∧ Same r.2 r'.2

section

variable {x y : NodeLeaseBook}

theorem Same.activeCount (h : Same x y) (hosts : List ReservableHost) :
    y.activeCount hosts = x.activeCount hosts := by
  simp only [NodeLeaseBook.activeCount, Dict.contains, h.byHost]

theorem Same.refuse (h : Same x y) (hosts : List ReservableHost) (reason : LeaseRefusal) :
    Agree (x.refuse hosts reason) (y.refuse hosts reason) := by
  refine ⟨?_, h⟩
  simp only [NodeLeaseBook.refuse, roster, h.byHost]

theorem Same.grant (h : Same x y) (hostId holder token : String) (ceiling now : Int) :
    Agree (x.grant hostId holder token ceiling now) (y.grant hostId holder token ceiling now) := by
  unfold NodeLeaseBook.grant
  rw [h.settings]
  exact ⟨rfl, h.put _⟩

theorem Same.reserveSpecific (h : Same x y) (host : ReservableHost) (hosts : List ReservableHost)
    (holder token : String) (model : Option String) (ceiling now : Int) :
    Agree (x.reserveSpecific host hosts holder token model ceiling now)
      (y.reserveSpecific host hosts holder token model ceiling now) := by
  unfold NodeLeaseBook.reserveSpecific
  rw [h.byHost, h.activeCount, h.settings]
  split
  · exact h.refuse hosts _
  · split
    · exact h.refuse hosts _
    · simp only
      split
      · exact h.refuse hosts _
      · exact h.grant _ _ _ _ _

theorem Same.reserveAny (h : Same x y) (hosts : List ReservableHost) (holder token : String)
    (model : Option String) (ceiling now : Int) :
    Agree (x.reserveAny hosts holder token model ceiling now)
      (y.reserveAny hosts holder token model ceiling now) := by
  have hcontains : y.byHost.contains = x.byHost.contains := by
    funext host
    simp only [Dict.contains, h.byHost]
  unfold NodeLeaseBook.reserveAny
  rw [hcontains, h.activeCount, h.settings]
  simp only
  split
  · exact h.refuse hosts _
  · split
    · exact h.refuse hosts _
    · split
      · exact h.refuse hosts _
      · split
        · exact h.refuse hosts _
        · exact h.grant _ _ _ _ _

end

/-! ## One call on both books -/

/-- The call answers the same on both books, and the ghosts it does not sweep stay. -/
structure Tracks (now : Int) (b a : NodeLeaseBook) (call : LeaseCall) : Prop where
  answer : (a.perform call now).1 = (b.perform call now).1
  behind : Behind now (b.perform call now).2 (a.perform call now).2
  ghost : ∀ l, Ghost (b.perform call now).2 (a.perform call now).2 l ↔
    Ghost b a l ∧ call.sweeps b.settings l = false

theorem isHeld_fst (book : NodeLeaseBook) (hostId : String) (now : Int) :
    (book.isHeld hostId now).1 = ((book.byHost.get? hostId).filter (·.live now)).isSome := by
  unfold isHeld
  cases hl : book.byHost.get? hostId with
  | none => rfl
  | some lease => cases hlive : lease.live now <;> simp [hlive]

theorem view_fst (book : NodeLeaseBook) (hostId : String) (now : Int) :
    (book.view hostId now).1 = ((book.byHost.get? hostId).filter (·.live now)).map fun lease =>
      (lease, decide (min lease.expiresAt lease.hardExpiresAt - now ≤
        book.settings.expiringSoon)) := by
  unfold view
  cases hl : book.byHost.get? hostId with
  | none => rfl
  | some lease => cases hlive : lease.live now <;> simp [hlive]

theorem tracks_isHeld (h : Behind now b a) (hostId : String) : Tracks now b a (.isHeld hostId) := by
  rcases h.swept (swept_isHeld h.consistent hostId now) (swept_isHeld h.looked.consistent hostId now)
    (looked_isHeld h.consistent hostId now).consistent
    (looked_isHeld h.looked.consistent hostId now).consistent with ⟨hbehind, hghost⟩
  refine ⟨?_, hbehind, hghost⟩
  simp only [perform, Prod.map_fst]
  rw [isHeld_fst, isHeld_fst, h.filter_byHost]

theorem tracks_view (h : Behind now b a) (hostId : String) : Tracks now b a (.view hostId) := by
  have hheld := tracks_isHeld h hostId
  have hb : (b.perform (.view hostId) now).2 = (b.perform (.isHeld hostId) now).2 :=
    view_snd b hostId now
  have ha : (a.perform (.view hostId) now).2 = (a.perform (.isHeld hostId) now).2 :=
    view_snd a hostId now
  constructor
  · simp only [perform, Prod.map_fst]
    rw [view_fst, view_fst, h.filter_byHost, h.looked.drops.settings]
  · rw [hb, ha]
    exact hheld.behind
  · rw [hb, ha]
    exact hheld.ghost

/-- What a token is answered, and what becomes of its lease, is the same on both books if they
have the same under it. -/
theorem tracks_presents (h : Behind now b a) {token : String}
    (hpresents : call.presents = some token) (hghost : ∀ l, Ghost b a l → l.token ≠ token) :
    Tracks now b a call := by
  have hsame := h.byToken_eq hghost
  have hsweeps : ∀ l, call.sweeps b.settings l = false := by
    intro l
    cases call with
    | require _ => rfl
    | heartbeat _ => rfl
    | release _ => rfl
    | reserve _ _ _ _ _ _ => cases hpresents
    | isHeld _ => cases hpresents
    | forceRelease _ => cases hpresents
    | view _ => cases hpresents
  -- it is enough that the two books are changed alike
  have hconclude : ∀ (answer : LeaseAnswer) {b' a' : NodeLeaseBook},
      b.perform call now = (answer, b') →
      a.perform call now = (answer, a') →
      (Behind now b' a' ∧ ∀ l, Ghost b' a' l ↔ Ghost b a l) → Tracks now b a call := by
    intro answer b' a' hb ha hboth
    constructor
    · rw [hb, ha]
    · rw [hb, ha]
      exact hboth.1
    · intro l
      rw [hb, ha, hsweeps l]
      simpa using hboth.2 l
  cases hl : b.byToken.get? token with
  | none =>
    rw [hl] at hsame
    exact hconclude _ (perform_unknown hpresents hl now) (perform_unknown hpresents hsame now)
      ⟨h, fun _ => Iff.rfl⟩
  | some lease =>
    rw [hl] at hsame
    rcases h.consistent.ofToken hl with ⟨rfl, _⟩
    have hsettings := h.looked.drops.settings
    by_cases hlive : lease.live now = true
    · have hb := require_of_live hl hlive
      have ha := require_of_live hsame hlive
      cases call with
      | require t =>
        cases hpresents
        refine hconclude (.lease (.ok lease)) ?_ ?_ ⟨h, fun _ => Iff.rfl⟩
        · simp [perform, hb]
        · simp [perform, ha]
      | heartbeat t =>
        cases hpresents
        refine hconclude (.lease (.ok (b.renewed lease now))) ?_ ?_
          (h.put (b.renewed lease now) hsame rfl rfl)
        · simp [perform, heartbeat, hb, renewed]
        · simp [perform, heartbeat, ha, renewed, hsettings]
      | release t =>
        cases hpresents
        refine hconclude (.lease (.ok lease)) ?_ ?_ (h.drop hsame)
        · simp [perform, release, hb]
        · simp [perform, release, ha]
      | reserve _ _ _ _ _ _ => cases hpresents
      | isHeld _ => cases hpresents
      | forceRelease _ => cases hpresents
      | view _ => cases hpresents
    · have hb : b.require lease.token now =
          (.error (.ended lease.hostId lease.holder), b.drop lease) := by
        simp [require, hl, hlive]
      have ha : a.require lease.token now =
          (.error (.ended lease.hostId lease.holder), a.drop lease) := by
        simp [require, hsame, hlive]
      refine hconclude (.lease (.error (.ended lease.hostId lease.holder))) ?_ ?_
        (h.drop hsame)
      all_goals cases call with
        | require t =>
          cases hpresents
          simp [perform, hb, ha]
        | heartbeat t =>
          cases hpresents
          simp [perform, heartbeat, hb, ha]
        | release t =>
          cases hpresents
          simp [perform, release, hb, ha]
        | reserve _ _ _ _ _ _ => cases hpresents
        | isHeld _ => cases hpresents
        | forceRelease _ => cases hpresents
        | view _ => cases hpresents

theorem tracks_forceRelease (h : Behind now b a) (hostId : String) :
    Tracks now b a (.forceRelease hostId) := by
  have hsame := h.same_purge
  have hb := consistent_forceRelease h.consistent hostId now
  have ha := consistent_forceRelease h.looked.consistent hostId now
  have hagree : Agree (b.forceRelease hostId now) (a.forceRelease hostId now) := by
    unfold forceRelease
    simp only
    rw [hsame.byHost]
    split
    · exact ⟨rfl, hsame⟩
    · next lease _ =>
      refine ⟨rfl, hsame.settings, ?_, ?_⟩
      · intro host
        simp only [drop, Dict.get?_pop, hsame.byHost]
      · intro t
        simp only [drop, Dict.get?_pop, hsame.byToken]
  have hboth : Behind now (b.forceRelease hostId now).2 (a.forceRelease hostId now).2 ∧
      ∀ l, ¬ Ghost (b.forceRelease hostId now).2 (a.forceRelease hostId now).2 l :=
    hagree.2.behind hb ha
  -- both books have been purged: they agree, and no ghost is left
  rcases hboth with ⟨hbehind, hnone⟩
  refine ⟨congrArg LeaseAnswer.lease hagree.1, hbehind, ?_⟩
  intro l
  constructor
  · intro hl
    exact absurd hl (hnone l)
  · rintro ⟨_, hsweeps⟩
    cases hsweeps

section

variable {holder token : String} {hosts : List ReservableHost} {wanted model : Option String}
  {ceiling : Option Int} {settings : LeaseSettings} {l : NodeLease}

/-- A reservation that fails its checks does not look at the leases. -/
theorem reserve_invalid
    (hinvalid : (LeaseCall.reserve holder hosts wanted model ceiling token).sweeps settings l =
      false) :
    ∃ reason, ∀ x : NodeLeaseBook, x.settings = settings →
      x.reserve holder hosts wanted model ceiling token now = (.error (.invalid reason), x) := by
  simp only [LeaseCall.sweeps, Bool.and_eq_false_iff, decide_eq_false_iff_not] at hinvalid
  by_cases hholder : strip holder = ""
  · refine ⟨.emptyHolder, fun x _ => ?_⟩
    unfold reserve
    rw [if_pos hholder]
  · by_cases hpos : ceiling.getD settings.defaultCeiling ≤ 0
    · refine ⟨.ceilingNotPositive, fun x hx => ?_⟩
      unfold reserve
      rw [if_neg hholder, hx, if_pos hpos]
    · have hmax : settings.maxCeiling < ceiling.getD settings.defaultCeiling := by
        rcases hinvalid with (hblank | hnonpos) | hlong
        · exact absurd hholder hblank
        · omega
        · omega
      refine ⟨.ceilingTooLong (ceiling.getD settings.defaultCeiling) settings.maxCeiling,
        fun x hx => ?_⟩
      unfold reserve
      rw [if_neg hholder, hx, if_neg hpos, if_pos hmax]

/-- One that passes them purges the book first. -/
theorem reserve_agree
    (hvalid : (LeaseCall.reserve holder hosts wanted model ceiling token).sweeps b.settings l =
      true) (h : Behind now b a) :
    Agree (b.reserve holder hosts wanted model ceiling token now)
      (a.reserve holder hosts wanted model ceiling token now) := by
  have hsame := h.same_purge
  simp only [LeaseCall.sweeps, Bool.and_eq_true, decide_eq_true_eq] at hvalid
  rcases hvalid with ⟨⟨hholder, hpos⟩, hmax⟩
  unfold reserve
  rw [h.looked.drops.settings]
  simp only [if_neg hholder, if_neg (not_le.mpr hpos), if_neg (not_lt.mpr hmax)]
  split
  · exact hsame.reserveAny _ _ _ _ _ _
  · split
    · exact ⟨rfl, hsame⟩
    · exact hsame.reserveSpecific _ _ _ _ _ _ _

theorem tracks_reserve (h : Behind now b a) (hunused : b.byToken.get? token = none) :
    Tracks now b a (.reserve holder hosts wanted model ceiling token) := by
  have hunused' : a.byToken.get? token = none := by
    cases hl : a.byToken.get? token with
    | none => rfl
    | some l =>
      rw [h.looked.drops.ofToken hl] at hunused
      cases hunused
  cases hvalid : (LeaseCall.reserve holder hosts wanted model ceiling token).sweeps b.settings
      ⟨"", "", "", 0, 0, 0⟩ with
  | false =>
    -- the arguments are refused before either book is looked at
    have hreason : ∃ reason, ∀ x : NodeLeaseBook, x.settings = b.settings →
        x.reserve holder hosts wanted model ceiling token now = (.error (.invalid reason), x) :=
      reserve_invalid hvalid
    rcases hreason with ⟨reason, hreserve⟩
    have hb := hreserve b rfl
    have ha := hreserve a h.looked.drops.settings
    constructor
    · simp only [perform, hb, ha, Prod.map_fst]
    · simp only [perform, hb, ha, Prod.map_snd, id]
      exact h
    · intro l
      have hsweeps :
          (LeaseCall.reserve holder hosts wanted model ceiling token).sweeps b.settings l =
          false := hvalid
      simp only [perform, hb, ha, Prod.map_snd, id, hsweeps, and_true]
  | true =>
    -- the purge comes first, and removes every ghost
    have hagree := reserve_agree hvalid h
    have hboth : Behind now (b.reserve holder hosts wanted model ceiling token now).2
          (a.reserve holder hosts wanted model ceiling token now).2 ∧
        ∀ l, ¬ Ghost (b.reserve holder hosts wanted model ceiling token now).2
          (a.reserve holder hosts wanted model ceiling token now).2 l :=
      hagree.2.behind (consistent_reserve h.consistent hunused)
        (consistent_reserve h.looked.consistent hunused')
    constructor
    · simp only [perform, Prod.map_fst, hagree.1]
    · simp only [perform, Prod.map_snd, id]
      exact hboth.1
    · intro l
      simp only [perform, Prod.map_snd, id]
      have hsweeps :
          (LeaseCall.reserve holder hosts wanted model ceiling token).sweeps b.settings l =
          true := hvalid
      constructor
      · intro hl
        exact absurd hl (hboth.2 l)
      · rintro ⟨_, hnot⟩
        rw [hsweeps] at hnot
        cases hnot

end

/-! ## Observations -/

/-- The calls that may be left out of a run: reads, and calls that were refused. -/
def Observes : LeaseCall → LeaseAnswer → Prop
  | .view _, _ => True
  | .isHeld _, _ => True
  | .require _, _ => True
  | .reserve .., .lease (.error _) => True
  | .forceRelease _, .lease (.error _) => True
  | _, _ => False

theorem swept_require (h : book.Consistent) (token : String) (now : Int) :
    Swept (fun l => l.token = token) now book (book.require token now).2 := by
  unfold require
  split
  · next hnone =>
    refine swept_self ?_ h
    intro t l hl
    right
    rw [decide_eq_false_iff_not]
    rintro rfl
    rw [(h.ofToken hl).1, hl] at hnone
    cases hnone
  · next lease hlease =>
    rcases h.ofToken hlease with ⟨rfl, hhost⟩
    split
    · next hlive =>
      refine swept_self ?_ h
      intro t l hl
      by_cases heq : l.token = lease.token
      · left
        rw [← (h.ofToken hl).1, heq, hlease] at hl
        cases hl
        exact hlive
      · right
        simpa using heq
    · next hdead =>
      -- the lease is the one of its host and of its token
      have hswept := swept_drop h hhost (by simpa using hdead)
      have hsame : ∀ t l, book.byToken.get? t = some l →
          (l.hostId = lease.hostId ↔ l.token = lease.token) := by
        intro t l hl
        rcases h.ofToken hl with ⟨rfl, hl'⟩
        constructor
        · intro heq
          rw [heq, hhost] at hl'
          cases hl'
          rfl
        · intro heq
          rw [heq, hlease] at hl
          cases hl
          rfl
      constructor
      · rfl
      · intro host
        rw [hswept.byHost]
        cases hl : book.byHost.get? host with
        | none => rfl
        | some l => simp [Option.filter, hsame _ l (h.ofHost hl).2]
      · intro t
        rw [hswept.byToken]
        cases hl : book.byToken.get? t with
        | none => rfl
        | some l => simp [Option.filter, hsame t l hl]

/-- A reservation that was refused has purged the book and done nothing else. -/
theorem reserve_refused {holder token : String} {hosts : List ReservableHost}
    {wanted model : Option String} {ceiling : Option Int} {e : LeaseError} {l : NodeLease}
    (hvalid : (LeaseCall.reserve holder hosts wanted model ceiling token).sweeps book.settings l =
      true)
    (he : (book.reserve holder hosts wanted model ceiling token now).1 = .error e) :
    (book.reserve holder hosts wanted model ceiling token now).2 = book.purge now := by
  simp only [LeaseCall.sweeps, Bool.and_eq_true, decide_eq_true_eq] at hvalid
  rcases hvalid with ⟨⟨hholder, hpos⟩, hmax⟩
  generalize hr : book.reserve holder hosts wanted model ceiling token now = r at he ⊢
  unfold reserve at hr
  simp only [if_neg hholder, if_neg (not_le.mpr hpos), if_neg (not_lt.mpr hmax)] at hr
  split at hr
  · -- with any host: each refusal comes after the purge
    unfold reserveAny at hr
    simp only at hr
    split at hr
    · rw [← hr]
      rfl
    · split at hr
      · rw [← hr]
        rfl
      · split at hr
        · rw [← hr]
          rfl
        · split at hr
          · rw [← hr]
            rfl
          · rw [← hr] at he
            cases he
  · -- with a named host
    split at hr
    · rw [← hr]
    · unfold reserveSpecific at hr
      split at hr
      · rw [← hr]
        rfl
      · split at hr
        · rw [← hr]
          rfl
        · simp only at hr
          split at hr
          · rw [← hr]
            rfl
          · rw [← hr] at he
            cases he

theorem swept_observed (h : book.Consistent)
    (hobs : Observes call (book.perform call now).1) :
    Swept (LeaseCall.drops book.settings call) now book (book.perform call now).2 := by
  cases call with
  | view hostId =>
    have hswept := swept_isHeld h hostId now
    rw [← view_snd] at hswept
    have hS : LeaseCall.drops book.settings (.view hostId) =
        fun l => decide (l.hostId = hostId) := by
      funext l
      simp [LeaseCall.drops, LeaseCall.sweeps, LeaseCall.presents]
    rw [hS]
    exact hswept
  | isHeld hostId =>
    have hS : LeaseCall.drops book.settings (.isHeld hostId) =
        fun l => decide (l.hostId = hostId) := by
      funext l
      simp [LeaseCall.drops, LeaseCall.sweeps, LeaseCall.presents]
    rw [hS]
    exact swept_isHeld h hostId now
  | require token =>
    have hS : LeaseCall.drops book.settings (.require token) =
        fun l => decide (l.token = token) := by
      funext l
      simp [LeaseCall.drops, LeaseCall.sweeps, LeaseCall.presents, eq_comm]
    rw [hS]
    exact swept_require h token now
  | forceRelease hostId =>
    -- a forced release that finds no lease has purged the book and done nothing else
    have hS : LeaseCall.drops book.settings (.forceRelease hostId) = fun _ => true := by
      funext l
      simp [LeaseCall.drops, LeaseCall.sweeps]
    have hpurged : (book.perform (.forceRelease hostId) now).2 = book.purge now := by
      simp only [perform, Prod.map_fst, Prod.map_snd, id] at hobs ⊢
      unfold forceRelease at hobs ⊢
      simp only at hobs ⊢
      split
      · rfl
      · next hl =>
        simp only [hl] at hobs
        cases hobs
    rw [hS, hpurged]
    exact swept_purge h now
  | reserve holder hosts wanted model ceiling token =>
    simp only [perform, Prod.map_fst, Prod.map_snd, id] at hobs ⊢
    cases hvalid : (LeaseCall.reserve holder hosts wanted model ceiling token).sweeps book.settings
        ⟨"", "", "", 0, 0, 0⟩ with
    | false =>
      -- refused for its arguments: no purge
      have hS : LeaseCall.drops book.settings (.reserve holder hosts wanted model ceiling token) =
          fun _ => false := by
        funext l
        have hsweeps : (LeaseCall.reserve holder hosts wanted model ceiling token).sweeps
            book.settings l = false := hvalid
        simp [LeaseCall.drops, hsweeps, LeaseCall.presents]
      have hreason : ∃ reason, ∀ x : NodeLeaseBook, x.settings = book.settings →
          x.reserve holder hosts wanted model ceiling token now = (.error (.invalid reason), x) :=
        reserve_invalid hvalid
      rcases hreason with ⟨reason, hreserve⟩
      rw [hS, hreserve book rfl]
      exact swept_self (fun _ _ _ => Or.inr rfl) h
    | true =>
      -- refused after the purge
      have hS : LeaseCall.drops book.settings (.reserve holder hosts wanted model ceiling token) =
          fun _ => true := by
        funext l
        have hsweeps : (LeaseCall.reserve holder hosts wanted model ceiling token).sweeps
            book.settings l = true := hvalid
        simp [LeaseCall.drops, hsweeps]
      cases hres : (book.reserve holder hosts wanted model ceiling token now).1 with
      | ok lease =>
        rw [hres] at hobs
        exact hobs.elim
      | error e =>
        rw [hS, reserve_refused hvalid hres]
        exact swept_purge h now
  | heartbeat token => exact hobs.elim
  | release token => exact hobs.elim

/-! ## Two runs -/

/-- The answers of the steps that are in both runs. -/
def answersOf (book : NodeLeaseBook) : List LeaseStep → List LeaseAnswer
  | [] => []
  | s :: rest =>
    let answers := answersOf (book.perform s.call s.now).2 rest
    if s.deleted then answers else (book.perform s.call s.now).1 :: answers

/-- What is left out are observations; the token of a `require` that is left out is not presented
again. -/
def Observing (book : NodeLeaseBook) : List LeaseStep → Prop
  | [] => True
  | s :: rest =>
    (s.deleted = true → Observes s.call (book.perform s.call s.now).1 ∧
      ∀ token, s.call = .require token →
        ∀ s' ∈ keptSteps rest, s'.call.presents ≠ some token) ∧
      Observing (book.perform s.call s.now).2 rest

/-- The token of the lease is not presented before one of the calls has dropped the lease. -/
def Unasked (settings : LeaseSettings) (lease : NodeLease) : List LeaseStep → Prop
  | [] => True
  | s :: rest => s.call.presents ≠ some lease.token ∧
    (s.call.sweeps settings lease = true ∨ Unasked settings lease rest)

/-- Of the expired leases an observation drops, none is asked for in the other run. -/
def Unnoticed (settings : LeaseSettings) (book : NodeLeaseBook) : List LeaseStep → Prop
  | [] => True
  | s :: rest =>
    (s.deleted = true → ∀ l, book.byToken.get? l.token = some l → l.live s.now = false →
      LeaseCall.drops settings s.call l = true → Unasked settings l (keptSteps rest)) ∧
      Unnoticed settings (book.perform s.call s.now).2 rest

theorem Observes.quiet {answer : LeaseAnswer} (h : Observes call answer) : Quiet call answer := by
  cases call with
  | view _ => trivial
  | isHeld _ => trivial
  | require _ => trivial
  | reserve _ _ _ _ _ _ =>
    rcases answer with (_ | _) | _ | _
    · trivial
    · exact h.elim
    · exact h.elim
    · exact h.elim
  | forceRelease _ =>
    rcases answer with (_ | _) | _ | _
    · trivial
    · exact h.elim
    · exact h.elim
    · exact h.elim
  | heartbeat _ => exact h.elim
  | release _ => exact h.elim

theorem Effect.settings {answer : LeaseAnswer} (h : book.Consistent)
    (heff : Effect book now call answer book') : book'.settings = book.settings := by
  cases heff with
  | looked hlooked _ => exact hlooked.drops.settings
  | granted _ _ _ => exact settings_purge h now
  | renewed _ _ => rfl
  | released _ _ => rfl
  | forced _ => exact settings_purge h now

/-- A token that a call does not draw does not come into the book. -/
theorem perform_byToken_none (h : book.Consistent) {t : String}
    (hnone : book.byToken.get? t = none) (hdraws : call.draws ≠ some t) (now : Int) :
    (book.perform call now).2.byToken.get? t = none := by
  have heff := effect_perform h call now
  generalize book.perform call now = r at heff
  rcases r with ⟨answer, book'⟩
  cases hl : book'.byToken.get? t with
  | none => rfl
  | some l =>
    rcases heff.token_known h hl with ⟨l₀, hl₀⟩ | ⟨lease, hgrants, rfl⟩
    · rw [hnone] at hl₀
      cases hl₀
    · exfalso
      simp only at heff
      cases heff with
      | looked _ hquiet =>
        unfold LeaseEvent.grants at hgrants
        split at hgrants
        · next hcall hanswer =>
          simp only at hcall hanswer
          rw [hcall, hanswer] at hquiet
          exact hquiet
        · cases hgrants
      | granted _ _ _ =>
        cases hgrants
        exact hdraws rfl
      | renewed _ _ => cases hgrants
      | released _ _ => cases hgrants
      | forced _ => cases hgrants

/-- An observation leaves the book further behind: its ghosts are those of before and what it
dropped. -/
theorem behind_observed (h : Behind now b a) (hobs : Observes call (a.perform call now).1) :
    Behind now b (a.perform call now).2 ∧
      ∀ l, Ghost b (a.perform call now).2 l ↔ Ghost b a l ∨
        (a.byToken.get? l.token = some l ∧ l.live now = false ∧
          LeaseCall.drops a.settings call l = true) := by
  have hswept := swept_observed h.looked.consistent hobs
  have hlooked : Looked now a (a.perform call now).2 := by
    have heff := effect_perform h.looked.consistent call now
    have hquiet := hobs.quiet
    generalize a.perform call now = r at heff hquiet
    rcases r with ⟨answer, a'⟩
    simp only at heff hquiet
    cases heff with
    | looked hl _ => exact hl
    | granted _ _ _ => exact hquiet.elim
    | renewed _ _ => exact hquiet.elim
    | released _ _ => exact hquiet.elim
    | forced _ => exact hquiet.elim
  refine ⟨⟨h.consistent, hlooked.consistent, h.looked.drops.trans hlooked.drops⟩, ?_⟩
  intro l
  unfold Ghost
  rw [hswept.byToken]
  constructor
  · rintro ⟨hthere, hnone⟩
    cases hl : a.byToken.get? l.token with
    | none => exact Or.inl ⟨hthere, rfl⟩
    | some l' =>
      have hsame := h.looked.drops.ofToken hl
      rw [hthere] at hsame
      cases hsame
      right
      rw [hl] at hnone
      simpa [Option.filter] using hnone
  · rintro (⟨hthere, hnone⟩ | ⟨hthere, hdead, hdrops⟩)
    · rw [hnone]
      exact ⟨hthere, rfl⟩
    · rw [hthere]
      exact ⟨h.looked.drops.ofToken hthere, by simp [Option.filter, hdead, hdrops]⟩

/-- On a token of a ghost the two books differ. -/
theorem perform_ghost (h : Behind now b a) {l : NodeLease} (hl : Ghost b a l)
    (hpresents : call.presents = some l.token) :
    (a.perform call now).1 ≠ (b.perform call now).1 := by
  rw [perform_unknown hpresents hl.2 now]
  have hdead := h.ghost_dead hl
  have hb : b.require l.token now = (.error (.ended l.hostId l.holder), b.drop l) := by
    simp [require, hl.1, hdead]
  cases call with
  | require t =>
    cases hpresents
    simp [perform, hb]
  | heartbeat t =>
    cases hpresents
    simp [perform, heartbeat, hb]
  | release t =>
    cases hpresents
    simp [perform, release, hb]
  | reserve _ _ _ _ _ _ => cases hpresents
  | isHeld _ => cases hpresents
  | forceRelease _ => cases hpresents
  | view _ => cases hpresents

/-- On a call that presents no token of a ghost they agree. -/
theorem tracks_perform (h : Behind now b a)
    (hunused : ∀ t, call.draws = some t → b.byToken.get? t = none)
    (hghost : ∀ l, Ghost b a l → call.presents ≠ some l.token) : Tracks now b a call := by
  have hpresents : ∀ token, call.presents = some token → ∀ l, Ghost b a l → l.token ≠ token := by
    rintro token hcall l hl rfl
    exact hghost l hl hcall
  cases call with
  | reserve _ _ _ _ _ token => exact tracks_reserve h (hunused token rfl)
  | isHeld hostId => exact tracks_isHeld h hostId
  | view hostId => exact tracks_view h hostId
  | forceRelease hostId => exact tracks_forceRelease h hostId
  | require token => exact tracks_presents h rfl (hpresents token rfl)
  | heartbeat token => exact tracks_presents h rfl (hpresents token rfl)
  | release token => exact tracks_presents h rfl (hpresents token rfl)

/-- Along the script the answers stay the same exactly if no ghost is asked for, neither one there
is at the start nor one that an observation makes. -/
theorem answersOf_eq_iff {settings : LeaseSettings} {script : List LeaseStep}
    (h : Behind clock b a) (hset : a.settings = settings) (hclock : ∀ s ∈ script, clock ≤ s.now)
    (htimely : (script.map LeaseStep.now).Pairwise (· ≤ ·))
    (hdrawn : (script.filterMap (·.call.draws)).Nodup)
    (hunused : ∀ t ∈ script.filterMap (·.call.draws), b.byToken.get? t = none)
    (hobs : Observing a script) :
    answersOf a script = answersOf b (keptSteps script) ↔
      (∀ l, Ghost b a l → Unasked settings l (keptSteps script)) ∧ Unnoticed settings a script := by
  induction script generalizing a b clock with
  | nil => simp [answersOf, keptSteps, Unasked, Unnoticed]
  | cons s rest ih =>
    have h := h.later (hclock s List.mem_cons_self)
    rw [List.map_cons, List.pairwise_cons] at htimely
    have hclock' : ∀ s' ∈ rest, s.now ≤ s'.now := by
      intro s' hs'
      exact htimely.1 _ (List.mem_map_of_mem hs')
    have hdrawn' : (rest.filterMap (·.call.draws)).Nodup :=
      hdrawn.sublist ((List.sublist_cons_self s rest).filterMap _)
    have hunused' : ∀ t ∈ rest.filterMap (·.call.draws), b.byToken.get? t = none := by
      intro t ht
      exact hunused t (((List.sublist_cons_self s rest).filterMap _).subset ht)
    have hset' : ∀ {x : NodeLeaseBook}, x.Consistent → x.settings = settings →
        (x.perform s.call s.now).2.settings = settings := by
      intro x hx hxset
      exact ((effect_perform hx s.call s.now).settings hx).trans hxset
    rcases hobs with ⟨hown, hobs'⟩
    cases hdel : s.deleted with
    | true =>
      -- the observation is made in one run only
      rcases behind_observed h (hown hdel).1 with ⟨hbehind, hghost⟩
      have hkept : keptSteps (s :: rest) = keptSteps rest := by simp [keptSteps, hdel]
      have hanswers : answersOf a (s :: rest) = answersOf (a.perform s.call s.now).2 rest := by
        simp [answersOf, hdel]
      rw [hkept, hanswers, ih hbehind (hset' h.looked.consistent hset) hclock' htimely.2 hdrawn'
        hunused' hobs']
      constructor
      · rintro ⟨hall, hrest⟩
        refine ⟨fun l hl => hall l ((hghost l).mpr (Or.inl hl)), ?_, hrest⟩
        intro _ l hthere hdead hdrops
        refine hall l ((hghost l).mpr (Or.inr ⟨hthere, hdead, ?_⟩))
        rw [hset]
        exact hdrops
      · rintro ⟨hall, hnew, hrest⟩
        refine ⟨fun l hl => ?_, hrest⟩
        rcases (hghost l).mp hl with hold | ⟨hthere, hdead, hdrops⟩
        · exact hall l hold
        · rw [hset] at hdrops
          exact hnew hdel l hthere hdead hdrops
    | false =>
      have hkept : keptSteps (s :: rest) = s :: keptSteps rest := by simp [keptSteps, hdel]
      have hanswers : ∀ (x : NodeLeaseBook) (steps : List LeaseStep), answersOf x (s :: steps) =
          (x.perform s.call s.now).1 :: answersOf (x.perform s.call s.now).2 steps := by
        intro x steps
        simp [answersOf, hdel]
      rw [hkept, hanswers, hanswers, List.cons.injEq]
      by_cases hasked : ∃ l, Ghost b a l ∧ s.call.presents = some l.token
      · rcases hasked with ⟨l, hl, hpresents⟩
        constructor
        · rintro ⟨hsame, _⟩
          exact absurd hsame (perform_ghost h hl hpresents)
        · rintro ⟨hall, _⟩
          exact absurd hpresents (hall l hl).1
      · have hnone : ∀ l, Ghost b a l → s.call.presents ≠ some l.token := by
          intro l hl hpresents
          exact hasked ⟨l, hl, hpresents⟩
        have hdraws : ∀ t, s.call.draws = some t → b.byToken.get? t = none := by
          intro t ht
          exact hunused t (by simp [ht])
        have htracks := tracks_perform h hdraws hnone
        have hunused'' : ∀ t ∈ rest.filterMap (·.call.draws),
            (b.perform s.call s.now).2.byToken.get? t = none := by
          intro t ht
          refine perform_byToken_none h.consistent (hunused' t ht) ?_ s.now
          intro hdraw
          simp only [List.filterMap_cons, hdraw, List.nodup_cons] at hdrawn
          exact hdrawn.1 ht
        have hbset : b.settings = settings := h.looked.drops.settings.symm.trans hset
        have htail := ih htracks.behind (hset' h.looked.consistent hset) hclock' htimely.2 hdrawn'
          hunused'' hobs'
        constructor
        · rintro ⟨_, hrest⟩
          rcases htail.mp hrest with ⟨hall, hun⟩
          refine ⟨fun l hl => ⟨hnone l hl, ?_⟩, fun hd => ?_, hun⟩
          · cases hsweeps : s.call.sweeps settings l with
            | true => exact Or.inl rfl
            | false =>
              refine Or.inr (hall l ((htracks.ghost l).mpr ⟨hl, ?_⟩))
              rw [hbset]
              exact hsweeps
          · rw [hdel] at hd
            cases hd
        · rintro ⟨hall, _, hun⟩
          refine ⟨htracks.answer, htail.mpr ⟨fun l hl => ?_, hun⟩⟩
          rcases (htracks.ghost l).mp hl with ⟨hl', hsweeps⟩
          rw [hbset] at hsweeps
          rcases (hall l hl').2 with hswept | hrest
          · rw [hsweeps] at hswept
            cases hswept
          · exact hrest

/-- Leaving observations out of a run changes no answer of the others exactly if no expired
lease that such an observation drops is asked for before it is dropped anyway. -/
theorem observation_transparent_iff (settings : LeaseSettings) (script : List LeaseStep)
    (htimely : (script.map LeaseStep.now).Pairwise (· ≤ ·))
    (hdrawn : (script.filterMap (·.call.draws)).Nodup) (hobs : Observing (start settings) script) :
    answersOf (start settings) script = answersOf (start settings) (keptSteps script) ↔
      Unnoticed settings (start settings) script := by
  have hstart : (start settings).Consistent := consistent_empty settings
  cases script with
  | nil => simp [answersOf, keptSteps, Unnoticed]
  | cons s rest =>
    have hclock : ∀ s' ∈ s :: rest, s.now ≤ s'.now := by
      intro s' hs'
      rcases List.mem_cons.mp hs' with rfl | hs'
      · exact le_refl _
      · exact (List.pairwise_cons.mp htimely).1 _ (List.mem_map_of_mem hs')
    have hunused : ∀ t ∈ (s :: rest).filterMap (·.call.draws),
        (start settings).byToken.get? t = none := fun _ _ => rfl
    rw [answersOf_eq_iff (.refl hstart) rfl hclock htimely hdrawn hunused hobs]
    constructor
    · exact And.right
    · intro h
      exact ⟨fun l hl => absurd hl (not_ghost_self l), h⟩

namespace Example

/-- A read of the node between a reservation and a heartbeat. -/
def polled (readAt beatAt : Int) : List LeaseStep :=
  [⟨(reserves "first" 0).call, 0, false⟩, ⟨.isHeld "node", readAt, true⟩,
    ⟨.heartbeat "first", beatAt, false⟩]

theorem observing_polled (readAt beatAt : Int) :
    Observing (start limits) (polled readAt beatAt) := by
  simp [polled, Observing, Observes]

end Example

open Example in
/-- While the lease is live the read goes unnoticed. -/
theorem observation_transparent_live :
    answersOf (start limits) (polled 50 60) = answersOf (start limits) (keptSteps (polled 50 60)) ∧
      Unnoticed limits (start limits) (polled 50 60) := by
  have hsame : answersOf (start limits) (polled 50 60) =
      answersOf (start limits) (keptSteps (polled 50 60)) := by decide +kernel
  refine ⟨hsame, (observation_transparent_iff limits (polled 50 60) ?_ ?_ ?_).mp hsame⟩
  · decide +kernel
  · decide +kernel
  · exact observing_polled 50 60

open Example in
/-- Once it has expired, the heartbeat is answered differently. -/
theorem observation_noticed :
    ((polled 100 100).map LeaseStep.now).Pairwise (· ≤ ·) ∧
      ((polled 100 100).filterMap (·.call.draws)).Nodup ∧
      Observing (start limits) (polled 100 100) ∧
      answersOf (start limits) (polled 100 100) =
        [.lease (.ok (leaseAt "first" 0 100)), .lease (.error .notHeld)] ∧
      answersOf (start limits) (keptSteps (polled 100 100)) =
        [.lease (.ok (leaseAt "first" 0 100)), .lease (.error (.ended "node" "tester"))] := by
  refine ⟨?_, ?_, observing_polled 100 100, ?_, ?_⟩
  all_goals decide +kernel

end NodeLeaseBook

end LlmHomeLab
