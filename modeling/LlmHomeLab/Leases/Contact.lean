import LlmHomeLab.Leases.Observation

/-! # Keeping a lease

What the holder of a lease has to do to keep it, and how long its host stays taken once the
orchestrator hears nothing more of the token. A heartbeat counts whatever it is answered: the two
statements below are about the calls that arrive.
-/

namespace LlmHomeLab

/-- When the holder of the token was last heard of. -/
def lastHeard (token : String) (granted : Int) (es : List LeaseEvent) : Int :=
  es.foldl (fun heard e => if e.call = .heartbeat token then e.now else heard) granted

@[simp] theorem lastHeard_nil (token : String) (granted : Int) :
    lastHeard token granted [] = granted := rfl

@[simp] theorem lastHeard_snoc (token : String) (granted : Int) (es : List LeaseEvent)
    (e : LeaseEvent) : lastHeard token granted (es ++ [e]) =
      if e.call = .heartbeat token then e.now else lastHeard token granted es := by
  simp [lastHeard, List.foldl_append]

/-- The call grants a lease under the token, or is a heartbeat of it. -/
def LeaseEvent.Contacts (e : LeaseEvent) (token : String) : Prop :=
  e.call = .heartbeat token ∨ ∃ l, e.grants = some l ∧ l.token = token

/-- Every heartbeat of the lease arrives within one ttl of the one before it, the first one of the
grant, and before the ceiling, and nothing ends the lease. -/
structure Punctual (settings : LeaseSettings) (lease : NodeLease) (es : List LeaseEvent) :
    Prop where
  inTime : ∀ before e after, es = before ++ e :: after → e.call = .heartbeat lease.token →
    e.now < lastHeard lease.token lease.createdAt before + settings.ttl ∧
      e.now < lease.hardExpiresAt
  unended : ∀ e ∈ es, ∀ l, e.ends = some l → l.token ≠ lease.token

/-- At this time the lease has not run out, for a holder that is heard of. -/
def NodeLease.Covers (settings : LeaseSettings) (lease : NodeLease) (es : List LeaseEvent)
    (now : Int) : Prop :=
  now < lastHeard lease.token lease.createdAt es + settings.ttl ∧ now < lease.hardExpiresAt

/-- The tenure of the lease, with its last renewal. -/
structure Tenure.Follows (tenure : Tenure) (lease : NodeLease) (es : List LeaseEvent) :
    Prop where
  hostId : tenure.hostId = lease.hostId
  ceiling : tenure.createdAt + tenure.ceiling = lease.hardExpiresAt
  renewedAt : tenure.renewedAt = lastHeard lease.token lease.createdAt es

section

variable {settings : LeaseSettings} {lease : NodeLease} {es : List LeaseEvent} {e : LeaseEvent}

theorem Punctual.of_snoc (h : Punctual settings lease (es ++ [e])) :
    Punctual settings lease es where
  inTime before d after hes hbeat := by
    subst hes
    exact h.inTime before d (after ++ [e]) (by simp) hbeat
  unended d hd := h.unended d (List.mem_append_left _ hd)

theorem Tenure.Follows.runs {tenure : Tenure} (h : tenure.Follows lease es) {now : Int}
    (hcovers : lease.Covers settings es now) : tenure.Runs settings now := by
  rcases hcovers with ⟨httl, hceiling⟩
  rw [← h.renewedAt] at httl
  rw [← h.ceiling] at hceiling
  exact ⟨httl, hceiling⟩

end

namespace NodeLeaseBook

variable {settings : LeaseSettings} {book book' : NodeLeaseBook} {es pre post : List LeaseEvent}
  {e g : LeaseEvent} {lease : NodeLease} {call : LeaseCall} {answer : LeaseAnswer} {now : Int}

/-! ## One call -/

theorem Quiet.grants (h : Quiet call answer) (now : Int) :
    LeaseEvent.grants ⟨call, now, answer⟩ = none := by
  unfold LeaseEvent.grants
  split
  · next hcall hanswer =>
    simp only at hcall hanswer
    rw [hcall, hanswer] at h
    exact h.elim
  · rfl

/-- A lease that is granted begins now, is in the book, and its host was free. -/
theorem Effect.granted_lease (h : book.Consistent) (heff : Effect book now call answer book')
    (hg : LeaseEvent.grants ⟨call, now, answer⟩ = some lease) :
    lease.createdAt = now ∧ book'.byToken.get? lease.token = some lease ∧
      ¬ book.Leased lease.hostId now := by
  cases heff with
  | looked _ hquiet =>
    rw [hquiet.grants now] at hg
    cases hg
  | @granted _ hostId _ _ _ _ _ hfree =>
    cases hg
    refine ⟨rfl, Dict.get?_set_self _, ?_⟩
    rintro ⟨held, hheld, hlive⟩
    -- a live lease outlasts the purge
    have hkept := (purge_drops h now).drops.hostKept hheld (by simp [hlive])
    exact absurd (hkept.symm.trans hfree) (by simp)
  | renewed => cases hg
  | released => cases hg
  | forced => cases hg

/-- A call that is no heartbeat of the token, nor grants nor ends its lease, leaves its tenure. -/
theorem Effect.record_other {ledger : String → Option Tenure} {token : String}
    (h : book.Consistent) (heff : Effect book now call answer book')
    (hbeat : call ≠ .heartbeat token)
    (hends : ∀ l, LeaseEvent.ends ⟨call, now, answer⟩ = some l → l.token ≠ token)
    (hgrants : ∀ l, LeaseEvent.grants ⟨call, now, answer⟩ = some l → l.token ≠ token) :
    Tenure.record settings ledger ⟨call, now, answer⟩ token = ledger token := by
  cases heff with
  | looked _ hquiet => rw [hquiet.record]
  | granted => exact Function.update_of_ne (Ne.symm (hgrants _ rfl)) _ _
  | @renewed token' _ _ _ =>
    refine Function.update_of_ne ?_ _ _
    rintro rfl
    exact hbeat rfl
  | @released token' lease htoken _ =>
    refine Function.update_of_ne ?_ _ _
    have hne := hends lease rfl
    rw [(h.ofToken htoken).1] at hne
    exact Ne.symm hne
  | forced => exact Function.update_of_ne (Ne.symm (hends _ rfl)) _ _

/-- A heartbeat of a lease that is live is answered with the lease. -/
theorem heartbeat_of_live {token : String} {l : NodeLease}
    (hl : book.byToken.get? token = some l) (hlive : l.live now = true) :
    (book.perform (.heartbeat token) now).1 = .lease (.ok (book.renewed l now)) := by
  simp [perform, heartbeat, require_of_live hl hlive, renewed]

/-! ## A punctual holder -/

theorem Effect.record_granted {ledger : String → Option Tenure}
    (heff : Effect book now call answer book')
    (hg : LeaseEvent.grants ⟨call, now, answer⟩ = some lease) :
    ∃ tenure, Tenure.record book.settings ledger ⟨call, now, answer⟩ lease.token = some tenure ∧
      tenure.Follows lease [] := by
  cases heff with
  | looked _ hquiet =>
    rw [hquiet.grants now] at hg
    cases hg
  | granted =>
    cases hg
    exact ⟨_, Function.update_self _ _ _, rfl, rfl, rfl⟩
  | renewed => cases hg
  | released => cases hg
  | forced => cases hg

/-- The tenure of a lease whose holder is punctual follows the heartbeats that arrive, and each of
them is answered with the lease. -/
theorem follows_run (hrun : Run Performs (start settings) (pre ++ g :: post) book)
    (hfresh : (drawnTokens (pre ++ g :: post)).Nodup) (htimely : Timely (pre ++ g :: post))
    (hg : g.grants = some lease) (hpunctual : Punctual settings lease post) :
    (∃ tenure, ledger settings (pre ++ g :: post) lease.token = some tenure ∧
      tenure.Follows lease post) ∧
    ∀ e ∈ post, e.call = .heartbeat lease.token → ∃ l, e.answer = .lease (.ok l) := by
  -- by induction on the events after the grant, the last one first
  induction post using List.reverseRecOn generalizing book with
  | nil =>
    refine ⟨?_, fun e he => by cases he⟩
    rcases hrun.of_snoc with ⟨a, hpre, hp⟩
    rw [drawnTokens_append] at hfresh
    have hledgered := ledgered_run hpre hfresh.of_append_left (timely_snoc.mp htimely).1
    have hknown := known_run hpre hfresh.of_append_left
    have heff := effect_of_performs hknown.consistent hp
    rw [ledger_snoc, ← hledgered.settings_eq]
    exact heff.record_granted hg
  | append_singleton post e ih =>
    have hsplit : pre ++ g :: (post ++ [e]) = (pre ++ g :: post) ++ [e] := by simp
    rw [hsplit] at hrun hfresh htimely ⊢
    rcases hrun.of_snoc with ⟨a, hpre, hp⟩
    have hdrawn : lease.token ∈ drawnTokens (pre ++ g :: post) := by
      simp [drawnTokens, hg]
    rw [drawnTokens_append] at hfresh
    rcases timely_snoc.mp htimely with ⟨htimely', hclock⟩
    have hledgered := ledgered_run hpre hfresh.of_append_left htimely'
    have hcons := (known_run hpre hfresh.of_append_left).consistent
    rcases ih hpre hfresh.of_append_left htimely' hpunctual.of_snoc with
      ⟨⟨tenure, htenure, hfollows⟩, hanswered⟩
    by_cases hbeat : e.call = .heartbeat lease.token
    · -- in time: the lease is in the book, and is renewed
      have hcovers := hpunctual.inTime post e [] rfl hbeat
      rcases hledgered.running htenure hclock (hfollows.runs hcovers) with ⟨l, hl, -, hlive⟩
      have hanswer : e.answer = .lease (.ok (a.renewed l e.now)) := by
        have hfst := congrArg Prod.fst hp
        rw [hbeat] at hfst
        exact hfst.symm.trans (heartbeat_of_live hl hlive)
      constructor
      · refine ⟨{ tenure with renewedAt := e.now }, ?_, hfollows.hostId, hfollows.ceiling, ?_⟩
        · rw [ledger_snoc]
          simp [Tenure.record, hbeat, hanswer, htenure]
        · simp [hbeat]
      · intro d hd hcall
        rcases List.mem_append.mp hd with hd | hd
        · exact hanswered d hd hcall
        · cases List.mem_singleton.mp hd
          exact ⟨_, hanswer⟩
    · constructor
      · refine ⟨tenure, ?_, hfollows.hostId, hfollows.ceiling, ?_⟩
        · rw [ledger_snoc, ← htenure]
          refine (effect_of_performs hcons hp).record_other hcons hbeat ?_ ?_
          · exact hpunctual.unended e (by simp)
          · -- the token is not drawn a second time
            intro l hl heq
            rw [drawnTokens_grants hl] at hfresh
            exact absurd List.mem_cons_self (List.disjoint_of_nodup_append hfresh (heq ▸ hdrawn))
        · simp [hbeat, hfollows.renewedAt]
      · intro d hd hcall
        rcases List.mem_append.mp hd with hd | hd
        · exact hanswered d hd hcall
        · cases List.mem_singleton.mp hd
          exact absurd hcall hbeat


/-! ## A silent holder -/

/-- Every lease expires within one ttl of a call that granted or renewed it. -/
structure Heard (settings : LeaseSettings) (es : List LeaseEvent) (book : NodeLeaseBook) :
    Prop where
  settings_eq : book.settings = settings
  contact : ∀ {t l}, book.byToken.get? t = some l →
    ∃ e ∈ es, e.Contacts t ∧ l.expiresAt ≤ e.now + settings.ttl

theorem Effect.heard (hcons : book.Consistent) (h : Heard settings es book)
    (heff : Effect book now call answer book') :
    Heard settings (es ++ [⟨call, now, answer⟩]) book' := by
  refine ⟨(heff.settings hcons).trans h.settings_eq, ?_⟩
  have hold : ∀ {t l}, book.byToken.get? t = some l → ∃ e ∈ es ++ [⟨call, now, answer⟩],
      e.Contacts t ∧ l.expiresAt ≤ e.now + settings.ttl := by
    intro t l hl
    rcases h.contact hl with ⟨d, hd, hcontact⟩
    exact ⟨d, List.mem_append_left _ hd, hcontact⟩
  have hnew : ∀ {t} {l : NodeLease}, LeaseEvent.Contacts ⟨call, now, answer⟩ t →
      l.expiresAt ≤ now + book.settings.ttl → ∃ e ∈ es ++ [⟨call, now, answer⟩],
      e.Contacts t ∧ l.expiresAt ≤ e.now + settings.ttl := by
    intro t l hcontact hle
    rw [h.settings_eq] at hle
    exact ⟨_, List.mem_append_right _ List.mem_cons_self, hcontact, hle⟩
  have hpurge := purge_drops hcons now
  intro t l hl
  cases heff with
  | looked hlooked _ => exact hold (hlooked.drops.ofToken hl)
  | granted =>
    simp only [put, Dict.get?_set] at hl
    split at hl
    · next heq =>
      cases hl
      exact hnew (Or.inr ⟨_, rfl, heq.symm⟩) (min_le_left _ _)
    · exact hold (hpurge.drops.ofToken hl)
  | @renewed _ lease htoken _ =>
    simp only [put, Dict.get?_set] at hl
    split at hl
    · next heq =>
      cases hl
      rw [show (book.renewed lease now).token = _ from (hcons.ofToken htoken).1] at heq
      subst heq
      exact hnew (Or.inl rfl) (min_le_left _ _)
    · exact hold hl
  | released =>
    simp only [drop, Dict.get?_pop] at hl
    split at hl
    · cases hl
    · exact hold hl
  | forced =>
    simp only [drop, Dict.get?_pop] at hl
    split at hl
    · cases hl
    · exact hold (hpurge.drops.ofToken hl)

theorem heard_run (hrun : Run Performs (start settings) es book)
    (hfresh : (drawnTokens es).Nodup) : Heard settings es book := by
  induction hrun with
  | nil => exact ⟨rfl, fun h => by simp [start] at h⟩
  | snoc hrun hp ih =>
    rw [drawnTokens_append] at hfresh
    have hcons := (known_run hrun hfresh.of_append_left).consistent
    exact (effect_of_performs hcons hp).heard hcons (ih hfresh.of_append_left)

/-! ## A heartbeat that is rejected -/

/-- A heartbeat leaves the tenure, or renews it. -/
theorem record_heartbeat {ledger : String → Option Tenure} {token : String} {tenure : Tenure}
    (h : ledger token = some tenure) :
    Tenure.record settings ledger ⟨.heartbeat token, now, answer⟩ token ≠ none := by
  unfold Tenure.record
  rcases answer with (error | lease) | held | shown <;> simp [h]

/-- A lease without a tenure was ended by a call. -/
theorem ended_of_ledger_none {token : String} (hrun : Run Performs (start settings) es book)
    (hfresh : (drawnTokens es).Nodup) (hdrawn : token ∈ drawnTokens es)
    (hnone : ledger settings es token = none) :
    ∃ e ∈ es, ∃ l, e.ends = some l ∧ l.token = token := by
  induction hrun with
  | nil => cases hdrawn
  | @snoc es a b e hrun hp ih =>
    rw [drawnTokens_append] at hfresh hdrawn
    have hcons := (known_run hrun hfresh.of_append_left).consistent
    have hsettings := (heard_run hrun hfresh.of_append_left).settings_eq
    have heff := effect_of_performs hcons hp
    rw [ledger_snoc] at hnone
    have hgrants : ∀ l, e.grants = some l → l.token ≠ token := by
      rintro l hl rfl
      obtain ⟨tenure, hsome, -⟩ : ∃ tenure, Tenure.record a.settings (ledger settings es) e l.token =
        some tenure ∧ tenure.Follows l [] := heff.record_granted hl
      rw [hsettings] at hsome
      exact absurd (hsome.symm.trans hnone) (by simp)
    have hold : token ∈ drawnTokens es := by
      rcases List.mem_append.mp hdrawn with hold | hnew
      · exact hold
      · cases hl : e.grants with
        | none => simp [drawnTokens, hl] at hnew
        | some l =>
          rw [drawnTokens_grants hl, List.mem_singleton] at hnew
          exact absurd hnew.symm (hgrants l hl)
    cases hledger : ledger settings es token with
    | none =>
      obtain ⟨d, hd, hends⟩ := ih hfresh.of_append_left hold hledger
      exact ⟨d, List.mem_append_left _ hd, hends⟩
    | some tenure =>
      by_contra hnot
      have hbeat : e.call ≠ .heartbeat token := by
        intro hcall
        obtain ⟨call, now, answer⟩ := e
        cases hcall
        exact record_heartbeat hledger hnone
      have hsame : Tenure.record settings (ledger settings es) e token = _ :=
        heff.record_other hcons hbeat (fun l hl heq => hnot ⟨e, by simp, l, hl, heq⟩) hgrants
      rw [hledger] at hsame
      exact absurd (hsame.symm.trans hnone) (by simp)

/-- The lease of a heartbeat that is rejected is not in the book afterwards. -/
theorem heartbeat_rejected {token : String} {error : LeaseError} (h : book.Consistent)
    (hrejected : (book.perform (.heartbeat token) now).1 = .lease (.error error)) :
    (book.perform (.heartbeat token) now).2.byToken.get? token = none := by
  cases hl : book.byToken.get? token with
  | none => simp [perform, heartbeat, require, hl]
  | some lease =>
    cases hlive : lease.live now with
    | false =>
      have hdrop : (book.perform (.heartbeat token) now).2 = book.drop lease := by
        simp [perform, heartbeat, require, hl, hlive]
      rw [hdrop, ← (h.ofToken hl).1]
      exact Dict.get?_pop_self _
    | true =>
      rw [heartbeat_of_live hl hlive] at hrejected
      cases hrejected

theorem release_gone (h : book.Consistent) (token : String) (now : Int) :
    (book.perform (.release token) now).2.byToken.get? token = none := by
  cases hl : book.byToken.get? token with
  | none => simp [perform, release, require, hl]
  | some lease =>
    have hdrop : (book.perform (.release token) now).2 = book.drop lease := by
      cases hlive : lease.live now <;> simp [perform, release, require, hl, hlive]
    rw [hdrop, ← (h.ofToken hl).1]
    exact Dict.get?_pop_self _

/-- A token that a call takes out of the book stays out. -/
theorem gone_after {before after : List LeaseEvent} {token : String}
    (hrun : Run Performs (start settings) (before ++ e :: after) book)
    (hfresh : (drawnTokens (before ++ e :: after)).Nodup) (hdrawn : token ∈ drawnTokens before)
    (hgone : ∀ a b, a.Consistent → Performs a e b → b.byToken.get? token = none) :
    book.byToken.get? token = none := by
  rw [List.append_cons] at hrun hfresh
  rcases hrun.split with ⟨b, hmid, hpost⟩
  rcases hmid.of_snoc with ⟨a, hpre, hp⟩
  have hfresh' : (drawnTokens before).Nodup := by
    rw [drawnTokens_append, drawnTokens_append] at hfresh
    exact hfresh.of_append_left.of_append_left
  refine token_stays_out hmid hpost hfresh ?_ (hgone a b (known_run hpre hfresh').consistent hp)
  rw [drawnTokens_append]
  exact List.mem_append_left _ hdrawn

/-- Why a heartbeat of a lease was rejected: a call had ended the lease, or its time was over. -/
def Over (settings : LeaseSettings) (es : List LeaseEvent) (token : String) : Prop :=
  ∃ before e after, es = before ++ e :: after ∧ e.call = .heartbeat token ∧
    ((∃ d ∈ before, ∃ l, d.ends = some l ∧ l.token = token) ∨
      ∃ tenure, ledger settings before token = some tenure ∧ ¬ tenure.Runs settings e.now)

/-- A lease whose heartbeat was rejected was over, and does not come back. -/
theorem over_of_rejected {before after : List LeaseEvent} {token : String} {error : LeaseError}
    (hrun : Run Performs (start settings) (before ++ e :: after) book)
    (hfresh : (drawnTokens (before ++ e :: after)).Nodup) (htimely : Timely (before ++ e :: after))
    (hdrawn : token ∈ drawnTokens before) (hcall : e.call = .heartbeat token)
    (herror : e.answer = .lease (.error error)) :
    book.byToken.get? token = none ∧ Over settings (before ++ e :: after) token := by
  constructor
  · refine gone_after hrun hfresh hdrawn fun a b hcons hp => ?_
    have heq : a.perform (.heartbeat token) e.now = (e.answer, b) := hcall ▸ hp
    have hgone := heartbeat_rejected hcons ((congrArg Prod.fst heq).trans herror)
    rwa [heq] at hgone
  · obtain ⟨a, b, hpre, hp, -⟩ := hrun.split_at
    have heq : a.perform (.heartbeat token) e.now = (e.answer, b) := hcall ▸ hp
    have hrejected := (congrArg Prod.fst heq).trans herror
    rw [drawnTokens_append] at hfresh
    have htimely' : Timely (before ++ [e]) := by
      rw [List.append_cons] at htimely
      unfold Timely at htimely
      rw [List.map_append, List.pairwise_append] at htimely
      exact htimely.1
    rcases timely_snoc.mp htimely' with ⟨htimely'', hclock⟩
    refine ⟨before, e, after, rfl, hcall, ?_⟩
    cases hledger : ledger settings before token with
    | none =>
      exact Or.inl (ended_of_ledger_none hpre hfresh.of_append_left hdrawn hledger)
    | some tenure =>
      refine Or.inr ⟨tenure, rfl, fun hruns => ?_⟩
      have hledgered := ledgered_run hpre hfresh.of_append_left htimely''
      rcases hledgered.running hledger hclock hruns with ⟨l, hl, -, hlive⟩
      rw [heartbeat_of_live hl hlive] at hrejected
      cases hrejected

end NodeLeaseBook

end LlmHomeLab
