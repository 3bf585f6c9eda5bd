import LlmHomeLab.Lib.Dict
import LlmHomeLab.Lib.Json

/-! # The lease book

`leases/models.py` and `leases/book.py`. Times are microseconds. Every operation takes the
clock reading of its caller; `require` and `isHeld` also drop the lease they find expired.
The token of a new lease is drawn by the caller of `reserve`.
-/

namespace LlmHomeLab

/-! ## Data -/

/-- Server-side lease limits, as `__post_init__` accepts them. -/
structure LeaseSettings where
  ttl : Int := 180000000
  defaultCeiling : Int := 10800000000
  maxCeiling : Int := 10800000000
  minActiveNodes : Int := 1
  expiringSoon : Int := 60000000
  ttl_pos : 0 < ttl := by decide
  defaultCeiling_pos : 0 < defaultCeiling := by decide
  defaultCeiling_le : defaultCeiling ≤ maxCeiling := by decide
  minActiveNodes_nonneg : 0 ≤ minActiveNodes := by decide
  expiringSoon_nonneg : 0 ≤ expiringSoon := by decide

/-- `LeaseSettings()`. -/
def LeaseSettings.defaults : LeaseSettings := {}

inductive NodeStatus where
  | unknown
  | online
  | offline
deriving DecidableEq, Repr

structure ReservableHost where
  hostId : String
  status : NodeStatus
  healthy : Bool
  servesRequestedModel : Bool
deriving DecidableEq, Repr

structure NodeLease where
  hostId : String
  holder : String
  token : String
  expiresAt : Int
  hardExpiresAt : Int
  createdAt : Int
deriving DecidableEq, Repr

/-- `now` is past neither expiry. -/
def NodeLease.live (lease : NodeLease) (now : Int) : Bool :=
  now < lease.expiresAt && now < lease.hardExpiresAt

inductive LeaseInvalidReason where
  | emptyHolder
  | ceilingNotPositive
  | ceilingTooLong (ceiling maximum : Int)
deriving DecidableEq, Repr

inductive LeaseRefusal where
  | doesNotServe (hostId model : String)
  | alreadyReserved (hostId holder : String) (expiresAt : Int)
  | wouldLeave (hostId : String) (remaining minimum : Int)
  | noNodeServes (model : String)
  | noNodeRegistered
  | noNodeFree
  | belowMinimum (minimum : Int)
deriving DecidableEq, Repr

/-- The exceptions of the book. A refusal carries the roster of nodes it is reported with. -/
inductive LeaseError where
  | invalid (reason : LeaseInvalidReason)
  | refused (reason : LeaseRefusal) (roster : List (String × NodeStatus × Option NodeLease))
  | notHeld
  | ended (hostId holder : String)
  | notFound (hostId : String)
  | hostNotRegistered (hostId : String)
deriving DecidableEq, Repr

structure NodeLeaseBook where
  settings : LeaseSettings
  byHost : Dict String NodeLease := .empty
  byToken : Dict String NodeLease := .empty

namespace NodeLeaseBook

/-! ## Operations -/

/-- `_drop_unlocked`. -/
def drop (book : NodeLeaseBook) (lease : NodeLease) : NodeLeaseBook where
  settings := book.settings
  byHost := book.byHost.pop lease.hostId
  byToken := book.byToken.pop lease.token

/-- `_purge_unlocked`. -/
def purge (book : NodeLeaseBook) (now : Int) : NodeLeaseBook :=
  (book.byHost.values.filter fun lease => !lease.live now).foldl drop book

/-- `require`, and `_live_unlocked`, which is the same code without the lock. -/
def require (book : NodeLeaseBook) (token : String) (now : Int) :
    Except LeaseError NodeLease × NodeLeaseBook :=
  match book.byToken.get? token with
  | none => (.error .notHeld, book)
  | some lease =>
    if lease.live now then (.ok lease, book)
    else (.error (.ended lease.hostId lease.holder), book.drop lease)

def isHeld (book : NodeLeaseBook) (hostId : String) (now : Int) : Bool × NodeLeaseBook :=
  match book.byHost.get? hostId with
  | none => (false, book)
  | some lease => if lease.live now then (true, book) else (false, book.drop lease)

/-- Record a lease under its host and its token. -/
def put (book : NodeLeaseBook) (lease : NodeLease) : NodeLeaseBook where
  settings := book.settings
  byHost := book.byHost.set lease.hostId lease
  byToken := book.byToken.set lease.token lease

def heartbeat (book : NodeLeaseBook) (token : String) (now : Int) :
    Except LeaseError NodeLease × NodeLeaseBook :=
  match book.require token now with
  | (.error e, book) => (.error e, book)
  | (.ok lease, book) =>
    let updated : NodeLease :=
      { lease with expiresAt := min (now + book.settings.ttl) lease.hardExpiresAt }
    (.ok updated, book.put updated)

def release (book : NodeLeaseBook) (token : String) (now : Int) :
    Except LeaseError NodeLease × NodeLeaseBook :=
  match book.require token now with
  | (.error e, book) => (.error e, book)
  | (.ok lease, book) => (.ok lease, book.drop lease)

def forceRelease (book : NodeLeaseBook) (hostId : String) (now : Int) :
    Except LeaseError NodeLease × NodeLeaseBook :=
  let book := book.purge now
  match book.byHost.get? hostId with
  | none => (.error (.notFound hostId), book)
  | some lease => (.ok lease, book.drop lease)

/-- The lease a node is shown with, and whether it is expiring soon. -/
def view (book : NodeLeaseBook) (hostId : String) (now : Int) :
    Option (NodeLease × Bool) × NodeLeaseBook :=
  match book.byHost.get? hostId with
  | none => (none, book)
  | some lease =>
    if lease.live now then
      let remaining := min lease.expiresAt lease.hardExpiresAt - now
      (some (lease, remaining ≤ book.settings.expiringSoon), book)
    else (none, book.drop lease)

/-- `_active_count`. -/
def activeCount (book : NodeLeaseBook) (hosts : List ReservableHost) : Int :=
  (hosts.filter fun host => host.healthy && !book.byHost.contains host.hostId).length

/-- `_roster`. -/
def roster (book : NodeLeaseBook) (hosts : List ReservableHost) :
    List (String × NodeStatus × Option NodeLease) :=
  hosts.map fun host => (host.hostId, host.status, book.byHost.get? host.hostId)

def refuse (book : NodeLeaseBook) (hosts : List ReservableHost) (reason : LeaseRefusal) :
    Except LeaseError NodeLease × NodeLeaseBook :=
  (.error (.refused reason (book.roster hosts)), book)

/-- `_grant`. -/
def grant (book : NodeLeaseBook) (hostId holder token : String) (ceiling now : Int) :
    Except LeaseError NodeLease × NodeLeaseBook :=
  let hardExpiresAt := now + ceiling
  let lease : NodeLease :=
    ⟨hostId, holder, token, min (now + book.settings.ttl) hardExpiresAt, hardExpiresAt, now⟩
  (.ok lease, book.put lease)

/-- `_reserve_specific`. -/
def reserveSpecific (book : NodeLeaseBook) (host : ReservableHost) (hosts : List ReservableHost)
    (holder token : String) (model : Option String) (ceiling now : Int) :
    Except LeaseError NodeLease × NodeLeaseBook :=
  match model, host.servesRequestedModel with
  | some model, false => book.refuse hosts (.doesNotServe host.hostId model)
  | _, _ =>
    match book.byHost.get? host.hostId with
    | some existing =>
      book.refuse hosts (.alreadyReserved host.hostId existing.holder existing.expiresAt)
    | none =>
      let remaining := book.activeCount hosts - 1
      if host.healthy && remaining < book.settings.minActiveNodes then
        book.refuse hosts (.wouldLeave host.hostId remaining book.settings.minActiveNodes)
      else book.grant host.hostId holder token ceiling now

/-- The first host with the least id, which is what sorting by id puts in front. -/
def leastHostId : List ReservableHost → Option ReservableHost
  | [] => none
  | host :: rest =>
    match leastHostId rest with
    | none => some host
    | some least => if least.hostId < host.hostId then some least else some host

/-- `_reserve_any`. -/
def reserveAny (book : NodeLeaseBook) (hosts : List ReservableHost) (holder token : String)
    (model : Option String) (ceiling now : Int) : Except LeaseError NodeLease × NodeLeaseBook :=
  let matching := hosts.filter fun host => model.isNone || host.servesRequestedModel
  if matching = [] then
    book.refuse hosts (model.elim .noNodeRegistered .noNodeServes)
  else
    let free := matching.filter fun host => !book.byHost.contains host.hostId
    if free = [] then book.refuse hosts .noNodeFree
    else
      let spare := book.activeCount hosts - book.settings.minActiveNodes
      match leastHostId (free.filter (·.healthy)) with
      | none => book.refuse hosts (.belowMinimum book.settings.minActiveNodes)
      | some host =>
        if spare ≤ 0 then book.refuse hosts (.belowMinimum book.settings.minActiveNodes)
        else book.grant host.hostId holder token ceiling now

/-- `str.strip`. -/
def strip (s : String) : String :=
  String.ofList ((s.toList.dropWhile Json.isSpace).reverse.dropWhile Json.isSpace).reverse

def reserve (book : NodeLeaseBook) (holder : String) (hosts : List ReservableHost)
    (hostId model : Option String) (ceiling : Option Int) (token : String) (now : Int) :
    Except LeaseError NodeLease × NodeLeaseBook :=
  let cleaned := strip holder
  let ceiling := ceiling.getD book.settings.defaultCeiling
  if cleaned = "" then (.error (.invalid .emptyHolder), book)
  else if ceiling ≤ 0 then (.error (.invalid .ceilingNotPositive), book)
  else if book.settings.maxCeiling < ceiling then
    (.error (.invalid (.ceilingTooLong ceiling book.settings.maxCeiling)), book)
  else
    let book := book.purge now
    match hostId with
    | none => book.reserveAny hosts cleaned token model ceiling now
    | some hostId =>
      -- of several hosts under one id, the dictionary keeps the last
      match hosts.reverse.find? (·.hostId = hostId) with
      | none => (.error (.hostNotRegistered hostId), book)
      | some host => book.reserveSpecific host hosts cleaned token model ceiling now

/-! ## Consistency

Both tables hold the same leases. A lookup takes out at most a lease that has expired, and an
operation adds at most one. -/

/-- Every lease stands under its own host and under its own token. -/
structure Consistent (book : NodeLeaseBook) : Prop where
  ofHost : ∀ {h l}, book.byHost.get? h = some l → l.hostId = h ∧ book.byToken.get? l.token = some l
  ofToken : ∀ {t l}, book.byToken.get? t = some l → l.token = t ∧ book.byHost.get? l.hostId = some l

/-- `book'` is `book` without some of the leases that satisfy `P`. -/
structure Drops (P : NodeLease → Prop) (book book' : NodeLeaseBook) : Prop where
  settings : book'.settings = book.settings
  ofHost : ∀ {h l}, book'.byHost.get? h = some l → book.byHost.get? h = some l
  ofToken : ∀ {t l}, book'.byToken.get? t = some l → book.byToken.get? t = some l
  hostKept : ∀ {h l}, book.byHost.get? h = some l → ¬ P l → book'.byHost.get? h = some l
  tokenKept : ∀ {t l}, book.byToken.get? t = some l → ¬ P l → book'.byToken.get? t = some l

variable {book book' book'' : NodeLeaseBook} {P Q : NodeLease → Prop}

theorem Drops.refl (P : NodeLease → Prop) (book : NodeLeaseBook) : Drops P book book :=
  ⟨rfl, id, id, fun h _ => h, fun h _ => h⟩

theorem Drops.trans (h₁ : Drops P book book') (h₂ : Drops P book' book'') :
    Drops P book book'' where
  settings := h₂.settings.trans h₁.settings
  ofHost h := h₁.ofHost (h₂.ofHost h)
  ofToken h := h₁.ofToken (h₂.ofToken h)
  hostKept h hP := h₂.hostKept (h₁.hostKept h hP) hP
  tokenKept h hP := h₂.tokenKept (h₁.tokenKept h hP) hP

theorem Drops.mono (h : Drops P book book') (hPQ : ∀ l, P l → Q l) : Drops Q book book' where
  settings := h.settings
  ofHost := h.ofHost
  ofToken := h.ofToken
  hostKept hl hQ := h.hostKept hl fun hP => hQ (hPQ _ hP)
  tokenKept hl hQ := h.tokenKept hl fun hP => hQ (hPQ _ hP)

theorem consistent_empty (settings : LeaseSettings) : Consistent ⟨settings, .empty, .empty⟩ :=
  ⟨fun h => by simp at h, fun h => by simp at h⟩

/-- Dropping a lease of the original book, from what is left of that book. -/
theorem drop_step {lease : NodeLease} (hbook : book.Consistent) (hcur : book'.Consistent)
    (hdrops : Drops P book book') (hlease : book.byHost.get? lease.hostId = some lease)
    (hP : P lease) : (book'.drop lease).Consistent ∧ Drops P book (book'.drop lease) := by
  -- what is left under the host or the token of the lease is the lease itself
  have hhost : ∀ l, book'.byHost.get? lease.hostId = some l → l = lease := by
    intro l hl
    have := hdrops.ofHost hl
    rw [hlease] at this
    exact (Option.some.inj this).symm
  have htoken : ∀ l, book'.byToken.get? lease.token = some l → l = lease := by
    intro l hl
    have := hdrops.ofToken hl
    rw [(hbook.ofHost hlease).2] at this
    exact (Option.some.inj this).symm
  constructor
  · constructor
    · intro h l hl
      simp only [drop, Dict.get?_pop] at hl ⊢
      split at hl
      · cases hl
      · next hne =>
        obtain ⟨hid, htok⟩ := hcur.ofHost hl
        refine ⟨hid, ?_⟩
        rw [if_neg]
        · exact htok
        · intro heq
          rw [heq] at htok
          exact hne (hid.symm.trans (congrArg NodeLease.hostId (htoken l htok)))
    · intro t l hl
      simp only [drop, Dict.get?_pop] at hl ⊢
      split at hl
      · cases hl
      · next hne =>
        obtain ⟨htok, hid⟩ := hcur.ofToken hl
        refine ⟨htok, ?_⟩
        rw [if_neg]
        · exact hid
        · intro heq
          rw [heq] at hid
          exact hne (htok.symm.trans (congrArg NodeLease.token (hhost l hid)))
  · refine ⟨hdrops.settings, ?_, ?_, ?_, ?_⟩
    · intro h l hl
      simp only [drop, Dict.get?_pop] at hl
      split at hl
      · cases hl
      · exact hdrops.ofHost hl
    · intro t l hl
      simp only [drop, Dict.get?_pop] at hl
      split at hl
      · cases hl
      · exact hdrops.ofToken hl
    · intro h l hl hnP
      have hkept := hdrops.hostKept hl hnP
      simp only [drop, Dict.get?_pop]
      rw [if_neg]
      · exact hkept
      · rintro rfl
        exact hnP (hhost l hkept ▸ hP)
    · intro t l hl hnP
      have hkept := hdrops.tokenKept hl hnP
      simp only [drop, Dict.get?_pop]
      rw [if_neg]
      · exact hkept
      · rintro rfl
        exact hnP (htoken l hkept ▸ hP)

/-- What an operation that only looks at leases leaves: a consistent book, without leases that
have expired. -/
structure Looked (now : Int) (book book' : NodeLeaseBook) : Prop where
  consistent : book'.Consistent
  drops : Drops (fun l => l.live now = false) book book'

theorem looked_require (h : book.Consistent) (token : String) (now : Int) :
    Looked now book (book.require token now).2 := by
  unfold require
  split
  · exact ⟨h, .refl _ _⟩
  · next lease hlease =>
    split
    · exact ⟨h, .refl _ _⟩
    · next hlive =>
      obtain ⟨hc, hd⟩ := drop_step (P := fun l => l.live now = false) h h (.refl _ _)
        (h.ofToken hlease).2 (by simpa using hlive)
      exact ⟨hc, hd⟩

theorem require_ok {token : String} {now : Int} {lease : NodeLease}
    (h : book.require token now = (.ok lease, book')) :
    book.byToken.get? token = some lease ∧ lease.live now = true ∧ book' = book := by
  unfold require at h
  split at h
  · cases h
  · next l hl =>
    split at h
    · next hlive =>
      cases h
      exact ⟨hl, hlive, rfl⟩
    · cases h

theorem require_of_live {token : String} {now : Int} {lease : NodeLease}
    (h : book.byToken.get? token = some lease) (hlive : lease.live now = true) :
    book.require token now = (.ok lease, book) := by
  simp [require, h, hlive]

theorem looked_isHeld (h : book.Consistent) (hostId : String) (now : Int) :
    Looked now book (book.isHeld hostId now).2 := by
  unfold isHeld
  split
  · exact ⟨h, .refl _ _⟩
  · next lease hlease =>
    split
    · exact ⟨h, .refl _ _⟩
    · next hlive =>
      obtain ⟨hid, _⟩ := h.ofHost hlease
      obtain ⟨hc, hd⟩ := drop_step (P := fun l => l.live now = false) h h (.refl _ _)
        (hid.symm ▸ hlease) (by simpa using hlive)
      exact ⟨hc, hd⟩

/-- The host has a lease that is live now. -/
def Leased (book : NodeLeaseBook) (hostId : String) (now : Int) : Prop :=
  ∃ lease, book.byHost.get? hostId = some lease ∧ lease.live now = true

theorem isHeld_iff {hostId : String} {now : Int} :
    (book.isHeld hostId now).1 = true ↔ book.Leased hostId now := by
  unfold isHeld Leased
  cases hl : book.byHost.get? hostId with
  | none => simp
  | some lease => cases hlive : lease.live now <;> simp [hlive]

/-- Whether a host is leased now does not depend on leases that have expired. -/
theorem Looked.leased_iff {now : Int} (h : Looked now book book') (hostId : String) :
    book'.Leased hostId now ↔ book.Leased hostId now := by
  constructor
  · rintro ⟨lease, hl, hlive⟩
    exact ⟨lease, h.drops.ofHost hl, hlive⟩
  · rintro ⟨lease, hl, hlive⟩
    exact ⟨lease, h.drops.hostKept hl (by simp [hlive]), hlive⟩

theorem purge_drops (hbook : book.Consistent) (now : Int) : Looked now book (book.purge now) := by
  -- along the fold: what is left of the book, and leases of the original book still to drop
  have hfold : ∀ (leases : List NodeLease) (cur : NodeLeaseBook), cur.Consistent →
      Drops (fun l => l.live now = false) book cur →
      (∀ l ∈ leases, book.byHost.get? l.hostId = some l ∧ l.live now = false) →
      Looked now book (leases.foldl drop cur) := by
    intro leases
    induction leases with
    | nil => exact fun cur hc hd _ => ⟨hc, hd⟩
    | cons l rest ih =>
      intro cur hc hd hall
      obtain ⟨hl, hexp⟩ := hall l List.mem_cons_self
      obtain ⟨hc', hd'⟩ := drop_step hbook hc hd hl hexp
      exact ih _ hc' hd' fun x hx => hall x (List.mem_cons_of_mem _ hx)
  refine hfold _ book hbook (.refl _ _) ?_
  intro l hl
  obtain ⟨hmem, hexp⟩ := List.mem_filter.mp hl
  obtain ⟨h, hh⟩ := (Dict.mem_values _).mp hmem
  exact ⟨(hbook.ofHost hh).1.symm ▸ hh, by simpa using hexp⟩

/-- No expired lease survives a purge. -/
theorem live_of_purge {h : String} {l : NodeLease} {now : Int} (hcons : book.Consistent)
    (hl : (book.purge now).byHost.get? h = some l) : l.live now = true := by
  -- a host whose lease was dropped has none afterwards
  have hfold : ∀ (leases : List NodeLease) (cur : NodeLeaseBook), (∃ x ∈ leases, x.hostId = h) ∨
      cur.byHost.get? h = none → (leases.foldl drop cur).byHost.get? h = none := by
    intro leases
    induction leases with
    | nil =>
      intro cur hcur
      rcases hcur with ⟨x, hx, _⟩ | hcur
      · cases hx
      · exact hcur
    | cons y rest ih =>
      intro cur hcur
      refine ih (cur.drop y) ?_
      by_cases hy : y.hostId = h
      · right
        simp [drop, hy]
      · rcases hcur with ⟨x, hx, hxh⟩ | hcur
        · rcases List.mem_cons.mp hx with rfl | hx
          · exact absurd hxh hy
          · exact Or.inl ⟨x, hx, hxh⟩
        · right
          simp only [drop]
          rw [Dict.get?_pop_of_ne _ (Ne.symm hy)]
          exact hcur
  have hthere := (purge_drops hcons now).drops.ofHost hl
  by_contra hdead
  have hmem : l ∈ book.byHost.values.filter fun lease => !lease.live now := by
    rw [List.mem_filter]
    exact ⟨(Dict.mem_values _).mpr ⟨h, hthere⟩, by simpa using hdead⟩
  have hnone : (book.purge now).byHost.get? h = none :=
    hfold _ book (Or.inl ⟨l, hmem, (hcons.ofHost hthere).1⟩)
  rw [hl] at hnone
  cases hnone

/-- A lease may be put where its host and its token are free, or where they already belong to
one lease. -/
theorem consistent_put {lease : NodeLease} (h : book.Consistent)
    (hhost : ∀ l, book.byHost.get? lease.hostId = some l → l.token = lease.token)
    (htoken : ∀ l, book.byToken.get? lease.token = some l → l.hostId = lease.hostId) :
    (book.put lease).Consistent := by
  constructor
  · intro k l hl
    simp only [put, Dict.get?_set] at hl ⊢
    split at hl
    · next heq =>
      cases hl
      simp [heq]
    · next hne =>
      -- another host: its lease has another token
      obtain ⟨hid, htok⟩ := h.ofHost hl
      refine ⟨hid, ?_⟩
      rw [if_neg]
      · exact htok
      · intro heq
        rw [heq] at htok
        exact hne (hid.symm.trans (htoken l htok))
  · intro t l hl
    simp only [put, Dict.get?_set] at hl ⊢
    split at hl
    · next heq =>
      cases hl
      simp [heq]
    · next hne =>
      -- another token: its lease is of another host
      obtain ⟨htok, hid⟩ := h.ofToken hl
      refine ⟨htok, ?_⟩
      rw [if_neg]
      · exact hid
      · intro heq
        rw [heq] at hid
        exact hne (htok.symm.trans (hhost l hid))

theorem consistent_drop {lease : NodeLease} (h : book.Consistent)
    (hlease : book.byHost.get? lease.hostId = some lease) : (book.drop lease).Consistent :=
  (drop_step (P := fun _ => True) h h (.refl _ _) hlease trivial).1

theorem consistent_heartbeat (h : book.Consistent) (token : String) (now : Int) :
    (book.heartbeat token now).2.Consistent := by
  have hlooked := looked_require h token now
  unfold heartbeat
  split
  · next hreq =>
    rw [hreq] at hlooked
    exact hlooked.consistent
  · next lease book' hreq =>
    obtain ⟨htok, _, rfl⟩ := require_ok hreq
    obtain ⟨htoken, hid⟩ := h.ofToken htok
    refine consistent_put h ?_ ?_
    · intro l hl
      rw [hid] at hl
      cases hl
      rfl
    · intro l hl
      simp only at hl
      rw [htoken, htok] at hl
      cases hl
      rfl

theorem consistent_release (h : book.Consistent) (token : String) (now : Int) :
    (book.release token now).2.Consistent := by
  have hlooked := looked_require h token now
  unfold release
  split
  · next hreq =>
    rw [hreq] at hlooked
    exact hlooked.consistent
  · next lease book' hreq =>
    obtain ⟨htok, _, rfl⟩ := require_ok hreq
    exact consistent_drop h (h.ofToken htok).2

theorem consistent_forceRelease (h : book.Consistent) (hostId : String) (now : Int) :
    (book.forceRelease hostId now).2.Consistent := by
  have hpurge := (purge_drops h now).consistent
  unfold forceRelease
  simp only
  split
  · exact hpurge
  · next lease hl => exact consistent_drop hpurge ((hpurge.ofHost hl).1.symm ▸ hl)

theorem looked_view (h : book.Consistent) (hostId : String) (now : Int) :
    Looked now book (book.view hostId now).2 := by
  have hsame : (book.view hostId now).2 = (book.isHeld hostId now).2 := by
    unfold view isHeld
    split
    · rfl
    · next lease hl => cases lease.live now <;> rfl
  rw [hsame]
  exact looked_isHeld h hostId now

theorem consistent_grant (h : book.Consistent) {hostId holder token : String} {ceiling now : Int}
    (hhost : book.byHost.get? hostId = none) (htoken : book.byToken.get? token = none) :
    (book.grant hostId holder token ceiling now).2.Consistent := by
  refine consistent_put h ?_ ?_
  · intro l hl
    simp [hhost] at hl
  · intro l hl
    simp [htoken] at hl

theorem consistent_reserveSpecific (h : book.Consistent) {host : ReservableHost}
    {hosts : List ReservableHost} {holder token : String} {model : Option String}
    {ceiling now : Int} (htoken : book.byToken.get? token = none) :
    (book.reserveSpecific host hosts holder token model ceiling now).2.Consistent := by
  unfold reserveSpecific
  split
  · exact h
  · split
    · exact h
    · next hfree =>
      simp only
      split
      · exact h
      · exact consistent_grant h hfree htoken

theorem leastHostId_mem {hosts : List ReservableHost} {host : ReservableHost}
    (h : leastHostId hosts = some host) : host ∈ hosts := by
  induction hosts generalizing host with
  | nil => cases h
  | cons x rest ih =>
    unfold leastHostId at h
    split at h
    · cases h
      exact List.mem_cons_self
    · next least hleast =>
      split at h
      · cases h
        exact List.mem_cons_of_mem _ (ih hleast)
      · cases h
        exact List.mem_cons_self

theorem consistent_reserveAny (h : book.Consistent) {hosts : List ReservableHost}
    {holder token : String} {model : Option String} {ceiling now : Int}
    (htoken : book.byToken.get? token = none) :
    (book.reserveAny hosts holder token model ceiling now).2.Consistent := by
  unfold reserveAny
  simp only
  split
  · exact h
  · split
    · exact h
    · split
      · exact h
      · next host hhost =>
        split
        · exact h
        · have hmem := (List.mem_filter.mp (List.mem_filter.mp (leastHostId_mem hhost)).1).2
          refine consistent_grant h ?_ htoken
          rw [← Dict.contains_eq_false]
          simpa using hmem

/-- With a token that is not in use, `reserve` keeps the book consistent. -/
theorem consistent_reserve (h : book.Consistent) {holder token : String}
    {hosts : List ReservableHost} {hostId model : Option String} {ceiling : Option Int} {now : Int}
    (htoken : book.byToken.get? token = none) :
    (book.reserve holder hosts hostId model ceiling token now).2.Consistent := by
  have hpurge := purge_drops h now
  have hfree : (book.purge now).byToken.get? token = none := by
    cases hl : (book.purge now).byToken.get? token with
    | none => rfl
    | some l => simp [hpurge.drops.ofToken hl] at htoken
  unfold reserve
  simp only
  split
  · exact h
  · split
    · exact h
    · split
      · exact h
      · split
        · exact consistent_reserveAny hpurge.consistent hfree
        · split
          · exact hpurge.consistent
          · exact consistent_reserveSpecific hpurge.consistent hfree

end NodeLeaseBook

end LlmHomeLab
