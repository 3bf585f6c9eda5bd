import LlmHomeLab.Leases.Tokens

/-! # How long a lease lasts

What the book is for, without its tables: a host is held from a grant on, for one ttl after the
grant and after every heartbeat, never longer than the granted ceiling, and not after a release.
The ledger below says this in terms of the calls alone. Expired leases stay in it; the book drops
them when it happens to look, and the two agree on who is held whenever the clock is not set back.
-/

namespace LlmHomeLab

/-! ## The ledger -/

/-- A lease as the calls describe it. -/
structure Tenure where
  hostId : String
  createdAt : Int
  ceiling : Int
  renewedAt : Int
deriving DecidableEq, Repr

/-- One ttl from the last grant or heartbeat, and the ceiling from the grant, are still to come. -/
def Tenure.Runs (tenure : Tenure) (settings : LeaseSettings) (now : Int) : Prop :=
  now < tenure.renewedAt + settings.ttl ∧ now < tenure.createdAt + tenure.ceiling

/-- The tenures by token, after one more call. -/
def Tenure.record (settings : LeaseSettings) (ledger : String → Option Tenure) (e : LeaseEvent) :
    String → Option Tenure :=
  match e.call, e.answer with
  | .reserve _ _ _ _ ceiling _, .lease (.ok lease) =>
    Function.update ledger lease.token
      (some ⟨lease.hostId, e.now, ceiling.getD settings.defaultCeiling, e.now⟩)
  | .heartbeat token, .lease (.ok _) =>
    Function.update ledger token
      ((ledger token).map fun tenure => { tenure with renewedAt := e.now })
  | .release token, .lease (.ok _) => Function.update ledger token none
  | .forceRelease _, .lease (.ok lease) => Function.update ledger lease.token none
  | _, _ => ledger

/-- The tenures that were granted and not released. -/
def ledger (settings : LeaseSettings) (es : List LeaseEvent) : String → Option Tenure :=
  es.foldl (Tenure.record settings) fun _ => none

theorem ledger_snoc (settings : LeaseSettings) (es : List LeaseEvent) (e : LeaseEvent) :
    ledger settings (es ++ [e]) = Tenure.record settings (ledger settings es) e := by
  simp [ledger, List.foldl_append]

/-- The clock readings never decrease. -/
def Timely (es : List LeaseEvent) : Prop := (es.map LeaseEvent.now).Pairwise (· ≤ ·)

theorem timely_snoc {es : List LeaseEvent} {e : LeaseEvent} :
    Timely (es ++ [e]) ↔ Timely es ∧ ∀ d ∈ es, d.now ≤ e.now := by
  simp [Timely, List.pairwise_append]

variable {settings : LeaseSettings} {es : List LeaseEvent}

/-- The lease stands in the book as its tenure has it. -/
structure Tenure.Describes (tenure : Tenure) (settings : LeaseSettings) (lease : NodeLease) :
    Prop where
  hostId : lease.hostId = tenure.hostId
  createdAt : lease.createdAt = tenure.createdAt
  hardExpiresAt : lease.hardExpiresAt = tenure.createdAt + tenure.ceiling
  expiresAt : lease.expiresAt =
    min (tenure.renewedAt + settings.ttl) (tenure.createdAt + tenure.ceiling)

theorem Tenure.Describes.live_iff {tenure : Tenure} {lease : NodeLease}
    (h : tenure.Describes settings lease) (t : Int) :
    lease.live t = true ↔ tenure.Runs settings t := by
  unfold NodeLease.live Tenure.Runs
  rw [Bool.and_eq_true, decide_eq_true_eq, decide_eq_true_eq, h.expiresAt, h.hardExpiresAt]
  omega

/-- A tenure begins before it is renewed, within the limits of the server. -/
structure Tenure.Sound (tenure : Tenure) (settings : LeaseSettings) (es : List LeaseEvent) :
    Prop where
  order : tenure.createdAt ≤ tenure.renewedAt
  reading : ∃ e ∈ es, tenure.renewedAt = e.now
  ceiling_pos : 0 < tenure.ceiling
  ceiling_le : tenure.ceiling ≤ settings.maxCeiling

theorem Tenure.Sound.snoc {tenure : Tenure} (h : tenure.Sound settings es) (e : LeaseEvent) :
    tenure.Sound settings (es ++ [e]) where
  order := h.order
  reading := by
    rcases h.reading with ⟨d, hd, heq⟩
    exact ⟨d, List.mem_append_left _ hd, heq⟩
  ceiling_pos := h.ceiling_pos
  ceiling_le := h.ceiling_le

/-! ## The book and the ledger -/

namespace NodeLeaseBook

variable {book book' : NodeLeaseBook} {now : Int} {call : LeaseCall} {answer : LeaseAnswer}
  {e : LeaseEvent}

theorem Quiet.record (h : Quiet call answer) (ledger : String → Option Tenure) (now : Int) :
    Tenure.record settings ledger ⟨call, now, answer⟩ = ledger := by
  unfold Tenure.record
  split
  all_goals first
    | rfl
    | next heq heq' =>
      simp only at heq heq'
      rw [heq, heq'] at h
      exact h.elim

/-- The book holds the leases of the ledger, but for some that have run out. -/
structure Ledgered (settings : LeaseSettings) (es : List LeaseEvent) (book : NodeLeaseBook) :
    Prop where
  settings_eq : book.settings = settings
  described : ∀ {t l}, book.byToken.get? t = some l →
    ∃ tenure, ledger settings es t = some tenure ∧ tenure.Describes settings l
  sound : ∀ {t tenure}, ledger settings es t = some tenure → tenure.Sound settings es
  lapsed : ∀ {t tenure}, ledger settings es t = some tenure → book.byToken.get? t = none →
    ∃ e ∈ es, ¬ tenure.Runs settings e.now

theorem ledgered_start : Ledgered settings [] (start settings) where
  settings_eq := rfl
  described h := by simp [start] at h
  sound h := by simp [ledger] at h
  lapsed h := by simp [ledger] at h

/-- What is missing from the book after a look at it has run out by then. -/
theorem Ledgered.lapsed_looked (h : Ledgered settings es book) (hlooked : Looked e.now book book')
    {t : String} {tenure : Tenure} (ht : ledger settings es t = some tenure)
    (hnone : book'.byToken.get? t = none) : ∃ d ∈ es ++ [e], ¬ tenure.Runs settings d.now := by
  cases hl : book.byToken.get? t with
  | none =>
    rcases h.lapsed ht hl with ⟨d, hd, hruns⟩
    exact ⟨d, List.mem_append_left _ hd, hruns⟩
  | some l =>
    rcases h.described hl with ⟨tenure', ht', hdesc⟩
    rw [ht] at ht'
    cases ht'
    refine ⟨e, by simp, ?_⟩
    intro hruns
    -- a live lease would have been kept
    have hkept := hlooked.drops.tokenKept hl (by simp [(hdesc.live_iff e.now).mpr hruns])
    rw [hnone] at hkept
    cases hkept

/-- A call that, after a look at the book, changes what stands under one token, in the book and
in the ledger. -/
theorem ledgered_update {mid : NodeLeaseBook} {token : String} {new : Option Tenure}
    (h : Ledgered settings es book) (hlooked : Looked e.now book mid)
    (hsettings : book'.settings = mid.settings)
    (hledger : ∀ t, ledger settings (es ++ [e]) t =
      if t = token then new else ledger settings es t)
    (hothers : ∀ t, t ≠ token → book'.byToken.get? t = mid.byToken.get? t)
    (hnew : (new = none ∧ book'.byToken.get? token = none) ∨
      ∃ tenure l, new = some tenure ∧ book'.byToken.get? token = some l ∧
        tenure.Describes settings l ∧ tenure.Sound settings (es ++ [e])) :
    Ledgered settings (es ++ [e]) book' := by
  constructor
  · exact hsettings.trans (hlooked.drops.settings.trans h.settings_eq)
  · intro t l hl
    rw [hledger]
    split
    · next heq =>
      rw [heq] at hl
      rcases hnew with ⟨_, hnone⟩ | ⟨tenure, l', hsome, hl', hdesc, _⟩
      · rw [hnone] at hl
        cases hl
      · rw [hl'] at hl
        cases hl
        exact ⟨tenure, hsome, hdesc⟩
    · next hne =>
      rw [hothers t hne] at hl
      exact h.described (hlooked.drops.ofToken hl)
  · -- sound tenures: the new one, and the old ones with one event more
    intro t tenure ht
    rw [hledger] at ht
    split at ht
    · rcases hnew with ⟨hnone, _⟩ | ⟨tenure', _, hsome, _, _, hsound⟩
      · rw [hnone] at ht
        cases ht
      · rw [hsome] at ht
        cases ht
        exact hsound
    · exact (h.sound ht).snoc e
  · -- a tenure without a lease in the book has lapsed
    intro t tenure ht hout
    rw [hledger] at ht
    split at ht
    · next heq =>
      rw [heq] at hout
      rcases hnew with ⟨hnone, _⟩ | ⟨_, l', _, hl', _⟩
      · rw [hnone] at ht
        cases ht
      · rw [hl'] at hout
        cases hout
    · next hne =>
      rw [hothers t hne] at hout
      exact h.lapsed_looked hlooked ht hout

/-- Every call keeps the book and the ledger in step. -/
theorem ledgered_effect (hcons : book.Consistent) (h : Ledgered settings es book)
    (hclock : ∀ d ∈ es, d.now ≤ now) (heff : Effect book now call answer book') :
    Ledgered settings (es ++ [⟨call, now, answer⟩]) book' := by
  have hpurge := purge_drops hcons now
  have hsame : Looked now book book := ⟨hcons, .refl _ _⟩
  -- what the ledger becomes, where the call changes it
  have hledger : ∀ {e : LeaseEvent} {token new},
      Tenure.record settings (ledger settings es) e =
        Function.update (ledger settings es) token new →
      ∀ t, ledger settings (es ++ [e]) t = if t = token then new else ledger settings es t := by
    intro e token new hrecord t
    rw [ledger_snoc, hrecord]
    exact Function.update_apply _ _ _ t
  cases heff with
  | looked hlooked hquiet =>
    have hkept : ledger settings (es ++ [⟨call, now, answer⟩]) = ledger settings es := by
      rw [ledger_snoc, hquiet.record]
    constructor
    · exact hlooked.drops.settings.trans h.settings_eq
    · intro t l hl
      rw [hkept]
      exact h.described (hlooked.drops.ofToken hl)
    · intro t tenure ht
      rw [hkept] at ht
      exact (h.sound ht).snoc _
    · intro t tenure ht hnone
      rw [hkept] at ht
      exact h.lapsed_looked (e := ⟨call, now, answer⟩) hlooked ht hnone
  | @granted holder hostId token hosts wanted model ceiling hfree hpos hmax =>
    refine ledgered_update h hpurge rfl (hledger rfl) ?_
      (Or.inr ⟨_, _, rfl, Dict.get?_set_self _, ?_, ?_⟩)
    · intro t hne
      exact Dict.get?_set_of_ne _ hne
    · rw [h.settings_eq]
      exact ⟨rfl, rfl, by simp [newLease], by simp [newLease, h.settings_eq]⟩
    · rw [h.settings_eq] at hpos hmax
      exact ⟨le_refl now, ⟨_, List.mem_append_right _ List.mem_cons_self, rfl⟩, hpos, hmax⟩
  | @renewed token lease htoken hlive =>
    rcases h.described htoken with ⟨tenure, htenure, hdesc⟩
    rcases hcons.ofToken htoken with ⟨rfl, _⟩
    have hrecord : Tenure.record settings (ledger settings es)
        ⟨.heartbeat lease.token, now, .lease (.ok (book.renewed lease now))⟩ =
          Function.update (ledger settings es) lease.token
            (some { tenure with renewedAt := now }) := by
      show Function.update _ lease.token _ = _
      rw [htenure]
      rfl
    refine ledgered_update h hsame rfl (hledger hrecord) ?_
      (Or.inr ⟨_, _, rfl, Dict.get?_set_self _, ?_, ?_⟩)
    · intro t hne
      exact Dict.get?_set_of_ne _ hne
    · refine ⟨hdesc.hostId, hdesc.createdAt, hdesc.hardExpiresAt, ?_⟩
      simp [renewed, h.settings_eq, hdesc.hardExpiresAt]
    · -- the clock has not been set back since the last renewal
      have hsound := h.sound htenure
      rcases hsound.reading with ⟨d, hd, hd'⟩
      exact ⟨hsound.order.trans (hd' ▸ hclock d hd),
        ⟨_, List.mem_append_right _ List.mem_cons_self, rfl⟩, hsound.ceiling_pos,
        hsound.ceiling_le⟩
  | @released token lease htoken hlive =>
    rcases hcons.ofToken htoken with ⟨rfl, _⟩
    refine ledgered_update h hsame rfl (hledger rfl) ?_ (Or.inl ⟨rfl, ?_⟩)
    · intro t hne
      exact Dict.get?_pop_of_ne _ hne
    · exact Dict.get?_pop_self _
  | @forced hostId lease hlease =>
    refine ledgered_update h hpurge rfl (hledger rfl) ?_ (Or.inl ⟨rfl, ?_⟩)
    · intro t hne
      exact Dict.get?_pop_of_ne _ hne
    · exact Dict.get?_pop_self _

theorem ledgered_run (hrun : Run Performs (start settings) es book)
    (hfresh : (drawnTokens es).Nodup) (htimely : Timely es) : Ledgered settings es book := by
  induction hrun with
  | nil => exact ledgered_start
  | @snoc es a b e hrun hp ih =>
    rw [drawnTokens_append] at hfresh
    rcases timely_snoc.mp htimely with ⟨htimely', hclock⟩
    have hknown := known_run hrun hfresh.of_append_left
    exact ledgered_effect hknown.consistent (ih hfresh.of_append_left htimely') hclock
      (effect_of_performs hknown.consistent hp)

/-! ## Later tenures -/

/-- What a call makes of the tenure of a token. -/
theorem record_cases (ledger : String → Option Tenure) (e : LeaseEvent) (t : String) :
    Tenure.record settings ledger e t = ledger t ∨ Tenure.record settings ledger e t = none ∨
      (∃ tenure, ledger t = some tenure ∧
        Tenure.record settings ledger e t = some { tenure with renewedAt := e.now }) ∨
      ∃ lease, e.grants = some lease ∧ lease.token = t := by
  generalize hrecord : Tenure.record settings ledger e = new
  unfold Tenure.record at hrecord
  split at hrecord
  · next lease hcall hanswer =>
    rw [← hrecord, Function.update_apply]
    by_cases heq : t = lease.token
    · refine Or.inr (Or.inr (Or.inr ⟨lease, ?_, heq.symm⟩))
      simp [LeaseEvent.grants, hcall, hanswer]
    · exact Or.inl (if_neg heq)
  · next token _ _ _ =>
    rw [← hrecord, Function.update_apply]
    by_cases heq : t = token
    · subst heq
      cases ht : ledger t with
      | none => exact Or.inl (if_pos rfl)
      | some tenure => exact Or.inr (Or.inr (Or.inl ⟨tenure, rfl, if_pos rfl⟩))
    · exact Or.inl (if_neg heq)
  · next token _ _ _ =>
    rw [← hrecord, Function.update_apply]
    by_cases heq : t = token
    · exact Or.inr (Or.inl (if_pos heq))
    · exact Or.inl (if_neg heq)
  · next lease _ _ =>
    rw [← hrecord, Function.update_apply]
    by_cases heq : t = lease.token
    · exact Or.inr (Or.inl (if_pos heq))
    · exact Or.inl (if_neg heq)
  · rw [← hrecord]
    exact Or.inl rfl

/-- The later tenure is the earlier one, perhaps renewed. -/
structure Continues (es : List LeaseEvent) (tenure tenure' : Tenure) : Prop where
  createdAt : tenure'.createdAt = tenure.createdAt
  ceiling : tenure'.ceiling = tenure.ceiling
  renewedAt : tenure.renewedAt ≤ tenure'.renewedAt
  reading : ∃ e ∈ es, tenure'.renewedAt = e.now

theorem ledger_later {pre post : List LeaseEvent} {t : String} {tenure : Tenure}
    (hfresh : (drawnTokens (pre ++ post)).Nodup) (htimely : Timely (pre ++ post))
    (hdrawn : t ∈ drawnTokens pre) (ht : ledger settings pre t = some tenure)
    (hsound : tenure.Sound settings pre) :
    ledger settings (pre ++ post) t = none ∨
      ∃ tenure', ledger settings (pre ++ post) t = some tenure' ∧
        Continues (pre ++ post) tenure tenure' := by
  -- by induction on the events after `pre`, the last one first
  induction post using List.reverseRecOn with
  | nil =>
    rw [List.append_nil]
    exact Or.inr ⟨tenure, ht, rfl, rfl, le_refl _, hsound.reading⟩
  | append_singleton post e ih =>
    rw [← List.append_assoc] at hfresh htimely ⊢
    rw [drawnTokens_append] at hfresh
    rcases timely_snoc.mp htimely with ⟨htimely', hclock⟩
    have hih := ih hfresh.of_append_left htimely'
    rw [ledger_snoc]
    rcases record_cases (ledger settings (pre ++ post)) e t with
      hsame | hnone | ⟨old, hold, hnew⟩ | ⟨lease, hgrants, rfl⟩
    · rw [hsame]
      rcases hih with hnone | ⟨tenure', ht', hcont⟩
      · exact Or.inl hnone
      · rcases hcont.reading with ⟨d, hd, hd'⟩
        exact Or.inr ⟨tenure', ht', hcont.createdAt, hcont.ceiling, hcont.renewedAt, d,
          List.mem_append_left _ hd, hd'⟩
    · exact Or.inl hnone
    · -- renewed: nothing else of the tenure changes
      rcases hih with hnone | ⟨tenure', ht', hcont⟩
      · rw [hold] at hnone
        cases hnone
      · rw [hold] at ht'
        cases ht'
        rcases hcont.reading with ⟨d, hd, hd'⟩
        have hlater : tenure.renewedAt ≤ e.now := hcont.renewedAt.trans (hd' ▸ hclock d hd)
        exact Or.inr ⟨_, hnew, hcont.createdAt, hcont.ceiling, hlater, e, by simp, rfl⟩
    · -- the token would have been drawn a second time
      rw [drawnTokens_grants hgrants, drawnTokens_append] at hfresh
      have hmem : lease.token ∈ drawnTokens pre ++ drawnTokens post := List.mem_append_left _ hdrawn
      exact absurd List.mem_cons_self (List.disjoint_of_nodup_append hfresh hmem)

/-! ## Time bounds -/

/-- A tenure on the host is running. -/
def HeldBy (settings : LeaseSettings) (es : List LeaseEvent) (hostId : String) (now : Int) : Prop :=
  ∃ token tenure, ledger settings es token = some tenure ∧ tenure.hostId = hostId ∧
    tenure.Runs settings now

/-- A running tenure is in the book, if the clock has not been set back. -/
theorem Ledgered.running (h : Ledgered settings es book) {t : String} {tenure : Tenure}
    (ht : ledger settings es t = some tenure) {now : Int} (hclock : ∀ e ∈ es, e.now ≤ now)
    (hruns : tenure.Runs settings now) :
    ∃ l, book.byToken.get? t = some l ∧ l.hostId = tenure.hostId ∧ l.live now = true := by
  cases hl : book.byToken.get? t with
  | none =>
    rcases h.lapsed ht hl with ⟨e, he, hnot⟩
    have hle := hclock e he
    rcases hruns with ⟨httl, hceiling⟩
    exact absurd ⟨by omega, by omega⟩ hnot
  | some l =>
    rcases h.described hl with ⟨tenure', ht', hdesc⟩
    rw [ht] at ht'
    cases ht'
    exact ⟨l, rfl, hdesc.hostId, (hdesc.live_iff now).mpr hruns⟩

theorem Ledgered.leased_iff (h : Ledgered settings es book) (hcons : book.Consistent)
    {hostId : String} {now : Int} (hclock : ∀ e ∈ es, e.now ≤ now) :
    book.Leased hostId now ↔ HeldBy settings es hostId now := by
  constructor
  · rintro ⟨l, hl, hlive⟩
    rcases hcons.ofHost hl with ⟨hid, htoken⟩
    rcases h.described htoken with ⟨tenure, ht, hdesc⟩
    exact ⟨l.token, tenure, ht, hdesc.hostId.symm.trans hid, (hdesc.live_iff now).mp hlive⟩
  · rintro ⟨t, tenure, ht, hid, hruns⟩
    rcases h.running ht hclock hruns with ⟨l, hl, hhost, hlive⟩
    exact ⟨l, hid ▸ hhost ▸ (hcons.ofToken hl).2, hlive⟩

theorem view_isSome_iff {hostId : String} {now : Int} :
    (book.view hostId now).1.isSome = true ↔ book.Leased hostId now := by
  unfold view Leased
  cases hl : book.byHost.get? hostId with
  | none => simp
  | some lease => cases hlive : lease.live now <;> simp [hlive]

theorem require_isOk_iff {token : String} {now : Int} :
    (∃ l, (book.require token now).1 = .ok l) ↔
      ∃ l, book.byToken.get? token = some l ∧ l.live now = true := by
  unfold require
  cases hl : book.byToken.get? token with
  | none => simp
  | some lease => cases hlive : lease.live now <;> simp [hlive]

/-- What the calls `es` leave of the time of a lease. -/
structure TimeBounds (settings : LeaseSettings) (es : List LeaseEvent) (book : NodeLeaseBook) :
    Prop where
  bounds : ∀ {t l}, book.byToken.get? t = some l → l.createdAt < l.expiresAt ∧
    l.expiresAt ≤ l.hardExpiresAt ∧ l.hardExpiresAt ≤ l.createdAt + settings.maxCeiling
  /-- What later calls can do to a lease that is in the book. -/
  renewals : ∀ (pre post : List LeaseEvent) (earlier : NodeLeaseBook) (t : String)
    (l l' : NodeLease), es = pre ++ post → Run Performs (start settings) pre earlier →
      earlier.byToken.get? t = some l → book.byToken.get? t = some l' →
      l'.hardExpiresAt = l.hardExpiresAt ∧ l.expiresAt ≤ l'.expiresAt ∧
        l'.expiresAt ≤ l.hardExpiresAt
  isHeld : ∀ (hostId : String) (now : Int), (∀ e ∈ es, e.now ≤ now) →
    ((book.isHeld hostId now).1 = true ↔ HeldBy settings es hostId now)
  view : ∀ (hostId : String) (now : Int), (∀ e ∈ es, e.now ≤ now) →
    ((book.view hostId now).1.isSome = true ↔ HeldBy settings es hostId now)
  require : ∀ (token : String) (now : Int), (∀ e ∈ es, e.now ≤ now) →
    ((∃ l, (book.require token now).1 = .ok l) ↔
      ∃ tenure, ledger settings es token = some tenure ∧ tenure.Runs settings now)

theorem time_bounds (hrun : Run Performs (start settings) es book)
    (hfresh : (drawnTokens es).Nodup) (htimely : Timely es) : TimeBounds settings es book := by
  have hknown := known_run hrun hfresh
  have hledgered := ledgered_run hrun hfresh htimely
  constructor
  · -- the three times of a lease, from those of its tenure
    intro t l hl
    rcases hledgered.described hl with ⟨tenure, ht, hdesc⟩
    have hsound := hledgered.sound ht
    have hpos := settings.ttl_pos
    have horder := hsound.order
    have hceiling := hsound.ceiling_pos
    have hmax := hsound.ceiling_le
    rw [hdesc.expiresAt, hdesc.createdAt, hdesc.hardExpiresAt]
    omega
  · -- two moments of one lease: it is the same tenure at both
    intro pre post earlier t l l' hes hpre hl hl'
    subst hes
    have hfresh' : (drawnTokens pre).Nodup := by
      rw [drawnTokens_append] at hfresh
      exact hfresh.of_append_left
    have htimely' : Timely pre := by
      unfold Timely at htimely
      rw [List.map_append, List.pairwise_append] at htimely
      exact htimely.1
    have hearlier := ledgered_run hpre hfresh' htimely'
    rcases hearlier.described hl with ⟨tenure, ht, hdesc⟩
    rcases hledgered.described hl' with ⟨tenure', ht', hdesc'⟩
    have hdrawn := (known_run hpre hfresh').drawn hl
    rcases ledger_later hfresh htimely hdrawn ht (hearlier.sound ht) with
      hnone | ⟨same, hsame, hcont⟩
    · rw [ht'] at hnone
      cases hnone
    · rw [ht'] at hsame
      cases hsame
      have hrenewed := hcont.renewedAt
      rw [hdesc.expiresAt, hdesc'.expiresAt, hdesc.hardExpiresAt, hdesc'.hardExpiresAt,
        hcont.createdAt, hcont.ceiling]
      omega
  · intro hostId now hclock
    rw [isHeld_iff]
    exact hledgered.leased_iff hknown.consistent hclock
  · intro hostId now hclock
    rw [view_isSome_iff]
    exact hledgered.leased_iff hknown.consistent hclock
  · intro token now hclock
    rw [require_isOk_iff]
    constructor
    · rintro ⟨l, hl, hlive⟩
      rcases hledgered.described hl with ⟨tenure, ht, hdesc⟩
      exact ⟨tenure, ht, (hdesc.live_iff now).mp hlive⟩
    · rintro ⟨tenure, ht, hruns⟩
      rcases hledgered.running ht hclock hruns with ⟨l, hl, _, hlive⟩
      exact ⟨l, hl, hlive⟩

namespace Example

/-- A heartbeat carries the lease over its first expiry and to the very end of the second ttl. -/
def renewal : List LeaseEvent :=
  [] ++ [reserves "first" 0] ++ [⟨.heartbeat "first", 60, .lease (.ok (leaseAt "first" 0 160))⟩] ++
    [⟨.isHeld "node", 159, .held true⟩] ++ [⟨.isHeld "node", 160, .held false⟩]

end Example

open Example in
theorem time_bounds_renewal :
    ∃ book, Run Performs (start limits) renewal book ∧ TimeBounds limits renewal book := by
  have hrun : ∃ book, Run Performs (start limits) renewal book := by
    refine ⟨_, .snoc (.snoc (.snoc (.snoc .nil (performs_of_answer ?_)) (performs_of_answer ?_))
      (performs_of_answer ?_)) (performs_of_answer ?_)⟩
    all_goals decide +kernel
  rcases hrun with ⟨book, hrun⟩
  refine ⟨book, hrun, time_bounds hrun (by decide +kernel) ?_⟩
  unfold Timely
  decide +kernel

end NodeLeaseBook

end LlmHomeLab
