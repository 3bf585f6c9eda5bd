import LlmHomeLab.Leases.Tokens

/-! # The decision of a reservation

When `reserve` grants a lease and which host it picks, in terms of the healthy hosts of the list
that have no unexpired lease; what is left of them afterwards; and what a refusal does to the book.
-/

namespace LlmHomeLab

namespace NodeLeaseBook

/-! ## Statement -/

/-- The host has no lease, or one that has expired. -/
def unleased (book : NodeLeaseBook) (now : Int) (host : ReservableHost) : Bool :=
  !(book.isHeld host.hostId now).1

/-- The healthy hosts of the list that have no unexpired lease. -/
def active (book : NodeLeaseBook) (hosts : List ReservableHost) (now : Int) : List ReservableHost :=
  hosts.filter fun host => host.healthy && book.unleased now host

/-- The host serves the requested model, or none is requested. -/
def mayServe (model : Option String) (host : ReservableHost) : Bool :=
  model.isNone || host.servesRequestedModel

/-- The arguments pass the checks in front of the decision. -/
structure Accepts (book : NodeLeaseBook) (holder : String) (ceiling : Option Int) : Prop where
  holder : strip holder ≠ ""
  positive : 0 < ceiling.getD book.settings.defaultCeiling
  bounded : ceiling.getD book.settings.defaultCeiling ≤ book.settings.maxCeiling

/-- The least id of the hosts. -/
def IsLeastId (hosts : List ReservableHost) (hostId : String) : Prop :=
  (∃ host ∈ hosts, host.hostId = hostId) ∧ ∀ host ∈ hosts, hostId ≤ host.hostId

/-- What `reserve` decides on this list of hosts. -/
structure DecidesReservations (book : NodeLeaseBook) (hosts : List ReservableHost) : Prop where
  any : ∀ holder model ceiling token now, book.Accepts holder ceiling →
    ((∃ lease, (book.reserve holder hosts none model ceiling token now).1 = .ok lease) ↔
      book.settings.minActiveNodes < (book.active hosts now).length ∧
        ∃ host ∈ book.active hosts now, mayServe model host = true)
  least : ∀ holder model ceiling token now lease,
    (book.reserve holder hosts none model ceiling token now).1 = .ok lease →
    IsLeastId ((book.active hosts now).filter (mayServe model)) lease.hostId
  specific : ∀ holder hostId model ceiling token now, book.Accepts holder ceiling →
    ((∃ lease, (book.reserve holder hosts (some hostId) model ceiling token now).1 = .ok lease) ↔
      ∃ host ∈ hosts, host.hostId = hostId ∧ mayServe model host = true ∧
        book.unleased now host = true ∧ (host.healthy = false ∨
          book.settings.minActiveNodes ≤ ((book.active hosts now).length : Int) - 1))
  asked : ∀ holder hostId model ceiling token now lease,
    (book.reserve holder hosts (some hostId) model ceiling token now).1 = .ok lease →
    lease.hostId = hostId
  keeps : ∀ holder wanted model ceiling token now lease book',
    book.reserve holder hosts wanted model ceiling token now = (.ok lease, book') →
    (book'.active hosts now).length < (book.active hosts now).length →
    book.settings.minActiveNodes ≤ (book'.active hosts now).length
  refused : ∀ holder wanted model ceiling token now e book',
    book.reserve holder hosts wanted model ceiling token now = (.error e, book') →
    Drops (fun lease => lease.live now = false) book book'

/-! ## The purged book -/

variable {book : NodeLeaseBook} {hosts : List ReservableHost} {now : Int}

/-- After a purge a host has a lease exactly if it had one that has not expired. -/
theorem contains_purge (h : book.Consistent) (hostId : String) :
    (book.purge now).byHost.contains hostId = (book.isHeld hostId now).1 := by
  rw [Bool.eq_iff_iff, isHeld_iff, ← (purge_drops h now).leased_iff hostId, Dict.contains_iff]
  exact ⟨fun ⟨lease, hl⟩ => ⟨lease, hl, live_of_purge h hl⟩, fun ⟨lease, hl, _⟩ => ⟨lease, hl⟩⟩

theorem activeCount_purge (h : book.Consistent) :
    (book.purge now).activeCount hosts = (book.active hosts now).length := by
  simp only [activeCount, active, unleased, contains_purge h]

variable (hosts now) in
/-- What `_reserve_any` picks from. -/
theorem candidates_purge (h : book.Consistent) (model : Option String) :
    (((hosts.filter fun host => model.isNone || host.servesRequestedModel).filter
      fun host => !(book.purge now).byHost.contains host.hostId).filter (·.healthy)) =
      (book.active hosts now).filter (mayServe model) := by
  simp only [active, unleased, contains_purge h, List.filter_filter]
  refine List.filter_congr fun host _ => ?_
  rw [mayServe, ← Bool.and_assoc, Bool.and_comm]

theorem leastHostId_eq_none {hosts : List ReservableHost} :
    leastHostId hosts = none ↔ hosts = [] := by
  cases hosts with
  | nil => simp [leastHostId]
  | cons x rest =>
    unfold leastHostId
    cases leastHostId rest with
    | none => simp
    | some least =>
      simp only
      split <;> simp

theorem leastHostId_isLeast {hosts : List ReservableHost} {host : ReservableHost}
    (h : leastHostId hosts = some host) : IsLeastId hosts host.hostId := by
  refine ⟨⟨host, leastHostId_mem h, rfl⟩, ?_⟩
  induction hosts generalizing host with
  | nil => cases h
  | cons x rest ih =>
    rw [List.forall_mem_cons]
    unfold leastHostId at h
    split at h
    · next hnone =>
      cases h
      rw [leastHostId_eq_none.mp hnone]
      exact ⟨le_refl _, by simp⟩
    · next least hleast =>
      split at h
      · next hlt =>
        cases h
        exact ⟨le_of_lt hlt, ih hleast⟩
      · next hnot =>
        cases h
        exact ⟨le_refl _, fun other hother => (not_lt.mp hnot).trans (ih hleast other hother)⟩

/-! ## Granted or refused -/

variable {holder token : String} {model : Option String} {ceiling : Int}

/-- `_reserve_any` grants the least candidate while more than the minimum are active. -/
theorem reserveAny_cases (h : book.Consistent) (hosts : List ReservableHost)
    (holder token : String) (model : Option String) (ceiling now : Int) :
    (∃ host, leastHostId ((book.active hosts now).filter (mayServe model)) = some host ∧
      book.settings.minActiveNodes < (book.active hosts now).length ∧
      (book.purge now).reserveAny hosts holder token model ceiling now =
        (book.purge now).grant host.hostId holder token ceiling now) ∨
    ((leastHostId ((book.active hosts now).filter (mayServe model)) = none ∨
        ((book.active hosts now).length : Int) ≤ book.settings.minActiveNodes) ∧ ∃ reason,
      (book.purge now).reserveAny hosts holder token model ceiling now =
        (book.purge now).refuse hosts reason) := by
  have hsettings := (purge_drops h now).drops.settings
  have hcandidates := candidates_purge hosts now h model
  rw [← hcandidates, ← hsettings]
  unfold reserveAny
  simp only [activeCount_purge h]
  split
  · next hnil =>
    rw [hnil]
    exact Or.inr ⟨Or.inl rfl, _, rfl⟩
  · split
    · next hnil =>
      rw [hnil]
      exact Or.inr ⟨Or.inl rfl, _, rfl⟩
    · split
      · next hnone => exact Or.inr ⟨Or.inl hnone, _, rfl⟩
      · next host hhost =>
        split
        · exact Or.inr ⟨Or.inr (by omega), _, rfl⟩
        · exact Or.inl ⟨host, hhost, by omega, rfl⟩

theorem mayServe_of_not {wanted : Option String} {host : ReservableHost}
    (h : ∀ model, wanted = some model → host.servesRequestedModel = false → False) :
    mayServe wanted host = true := by
  cases wanted with
  | none => rfl
  | some model =>
    cases hs : host.servesRequestedModel with
    | true => simp [mayServe, hs]
    | false => exact absurd hs (h model rfl)

/-- `_reserve_specific` grants the host it is asked for, if it serves, is free, and is spare or not
healthy. -/
theorem reserveSpecific_cases (h : book.Consistent) (host : ReservableHost)
    (hosts : List ReservableHost) (holder token : String) (model : Option String)
    (ceiling now : Int) :
    ((mayServe model host = true ∧ book.unleased now host = true ∧ (host.healthy = false ∨
        book.settings.minActiveNodes ≤ ((book.active hosts now).length : Int) - 1)) ∧
      (book.purge now).reserveSpecific host hosts holder token model ceiling now =
        (book.purge now).grant host.hostId holder token ceiling now) ∨
    (¬ (mayServe model host = true ∧ book.unleased now host = true ∧ (host.healthy = false ∨
        book.settings.minActiveNodes ≤ ((book.active hosts now).length : Int) - 1)) ∧ ∃ reason,
      (book.purge now).reserveSpecific host hosts holder token model ceiling now =
        (book.purge now).refuse hosts reason) := by
  have hsettings := (purge_drops h now).drops.settings
  rw [unleased, ← contains_purge h]
  unfold reserveSpecific
  split
  · next hserves => exact Or.inr ⟨by simp [mayServe, hserves], _, rfl⟩
  · next hnot =>
    have hserves := mayServe_of_not hnot
    split
    · next existing hexisting =>
      exact Or.inr ⟨by simp [Dict.contains, hexisting], _, rfl⟩
    · next hfree =>
      simp only [activeCount_purge h, hsettings]
      split
      · next hlow =>
        rw [Bool.and_eq_true, decide_eq_true_eq] at hlow
        refine Or.inr ⟨?_, _, rfl⟩
        rintro ⟨-, -, hoff | hmin⟩
        · rw [hlow.1] at hoff
          cases hoff
        · omega
      · next hhigh =>
        rw [Bool.and_eq_true, decide_eq_true_eq, not_and_or, Bool.not_eq_true] at hhigh
        exact Or.inl ⟨⟨hserves, by simp [Dict.contains, hfree], hhigh.imp_right (by omega)⟩, rfl⟩

/-- Behind the checks `reserve` is `_reserve_any` of the purged book, where no host is asked for. -/
theorem reserve_any {holder : String} {ceiling : Option Int} (h : book.Accepts holder ceiling)
    (model : Option String) (token : String) (now : Int) :
    book.reserve holder hosts none model ceiling token now =
      (book.purge now).reserveAny hosts (strip holder) token model
        (ceiling.getD book.settings.defaultCeiling) now := by
  simp only [reserve, if_neg h.holder, if_neg (not_le.mpr h.positive),
    if_neg (not_lt.mpr h.bounded)]

theorem reserve_listed {holder hostId : String} {ceiling : Option Int} {host : ReservableHost}
    (h : book.Accepts holder ceiling)
    (hfind : hosts.reverse.find? (·.hostId = hostId) = some host)
    (model : Option String) (token : String) (now : Int) :
    book.reserve holder hosts (some hostId) model ceiling token now =
      (book.purge now).reserveSpecific host hosts (strip holder) token model
        (ceiling.getD book.settings.defaultCeiling) now := by
  simp only [reserve, if_neg h.holder, if_neg (not_le.mpr h.positive),
    if_neg (not_lt.mpr h.bounded), hfind]

theorem reserve_unlisted {holder hostId : String} {ceiling : Option Int}
    (h : book.Accepts holder ceiling) (hfind : hosts.reverse.find? (·.hostId = hostId) = none)
    (model : Option String) (token : String) (now : Int) :
    book.reserve holder hosts (some hostId) model ceiling token now =
      (.error (.hostNotRegistered hostId), book.purge now) := by
  simp only [reserve, if_neg h.holder, if_neg (not_le.mpr h.positive),
    if_neg (not_lt.mpr h.bounded), hfind]

/-- A call that grants has passed the checks. -/
theorem accepts_of_ok {holder : String} {wanted model : Option String} {ceiling : Option Int}
    {lease : NodeLease}
    (h : (book.reserve holder hosts wanted model ceiling token now).1 = .ok lease) :
    book.Accepts holder ceiling := by
  unfold reserve at h
  simp only at h
  split at h
  · cases h
  · next hholder =>
    split at h
    · cases h
    · next hpos =>
      split at h
      · cases h
      · next hmax => exact ⟨hholder, not_le.mp hpos, not_lt.mp hmax⟩

/-- Under distinct ids the one host of an id is found. -/
theorem find?_host (hids : (hosts.map (·.hostId)).Nodup) {host : ReservableHost}
    (hmem : host ∈ hosts) : hosts.reverse.find? (·.hostId = host.hostId) = some host := by
  cases hfind : hosts.reverse.find? (·.hostId = host.hostId) with
  | none => simpa using List.find?_eq_none.mp hfind host (List.mem_reverse.mpr hmem)
  | some other =>
    have hother := List.mem_reverse.mp (List.mem_of_find?_eq_some hfind)
    have hid : other.hostId = host.hostId := by simpa using List.find?_some hfind
    rw [List.inj_on_of_nodup_map hids hother hmem hid]

/-! ## What is left -/

/-- A new lease is live, and the others are as they were. -/
theorem unleased_put (h : book.Consistent) {hostId : String} (hceiling : 0 < ceiling)
    (host : ReservableHost) :
    ((book.purge now).grant hostId holder token ceiling now).2.unleased now host =
      (!decide (host.hostId = hostId) && book.unleased now host) := by
  have hleased := (purge_drops h now).leased_iff host.hostId
  rw [unleased, unleased, Bool.eq_iff_iff]
  simp only [Bool.not_eq_true', Bool.and_eq_true, ← Bool.not_eq_true, isHeld_iff, ← hleased]
  by_cases hid : host.hostId = hostId
  · -- the new lease itself
    subst hid
    have hnew : ((book.purge now).grant host.hostId holder token ceiling now).2.Leased
        host.hostId now := by
      refine ⟨_, Dict.get?_set_self _, ?_⟩
      have httl := (book.purge now).settings.ttl_pos
      simp only [NodeLease.live, Bool.and_eq_true, decide_eq_true_eq]
      omega
    simp [hnew]
  · have hsame : ((book.purge now).grant hostId holder token ceiling now).2.Leased host.hostId now ↔
        (book.purge now).Leased host.hostId now := by
      simp only [Leased, grant, put, Dict.get?_set_of_ne _ hid]
    simp [hsame, hid]

theorem active_put (h : book.Consistent) {hostId : String} (hceiling : 0 < ceiling) :
    ((book.purge now).grant hostId holder token ceiling now).2.active hosts now =
      (book.active hosts now).filter fun host => !decide (host.hostId = hostId) := by
  rw [active, active, List.filter_filter]
  refine List.filter_congr fun host _ => ?_
  rw [unleased_put h hceiling, Bool.and_left_comm]

/-- A lease takes one host at most out of the active ones. -/
theorem length_active_put (h : book.Consistent) (hids : (hosts.map (·.hostId)).Nodup)
    (holder token : String) (now : Int) (hostId : String) (hceiling : 0 < ceiling) :
    (book.active hosts now).length ≤
      (((book.purge now).grant hostId holder token ceiling now).2.active hosts now).length + 1 := by
  have hcount : (book.active hosts now).countP (fun host => decide (host.hostId = hostId)) ≤ 1 := by
    have hnodup : ((book.active hosts now).map (·.hostId)).Nodup :=
      hids.sublist (List.filter_sublist.map _)
    have hcount := List.nodup_iff_count_le_one.mp hnodup hostId
    rw [List.count_eq_countP, List.countP_map] at hcount
    refine le_trans (le_of_eq (List.countP_congr fun host _ => ?_)) hcount
    simp
  have hsplit := List.length_eq_countP_add_countP (l := book.active hosts now)
    fun host => decide (host.hostId = hostId)
  rw [active_put h hceiling, ← List.countP_eq_length_filter]
  simp only [decide_eq_true_eq, decide_not] at hsplit
  omega

/-- A lease on a host that is not healthy takes none out of them. -/
theorem active_put_of_offline (h : book.Consistent) (hids : (hosts.map (·.hostId)).Nodup)
    (holder token : String) (now : Int) {host : ReservableHost} (hmem : host ∈ hosts)
    (hoff : host.healthy = false) (hceiling : 0 < ceiling) :
    ((book.purge now).grant host.hostId holder token ceiling now).2.active hosts now =
      book.active hosts now := by
  rw [active_put h hceiling, List.filter_eq_self]
  intro other hother
  obtain ⟨hin, hactive⟩ := List.mem_filter.mp hother
  rw [Bool.not_eq_true', decide_eq_false_iff_not]
  intro hid
  rw [List.inj_on_of_nodup_map hids hin hmem hid, hoff] at hactive
  cases hactive

/-! ## The decision -/

variable (h : book.Consistent) (hids : (hosts.map (·.hostId)).Nodup)
include h

/-- The part of `reserve` without a host id. -/
theorem any_grants (holder token : String) (model : Option String) (ceiling : Int) :
    (∃ lease, ((book.purge now).reserveAny hosts holder token model ceiling now).1 = .ok lease) ↔
      book.settings.minActiveNodes < (book.active hosts now).length ∧
        ∃ host ∈ book.active hosts now, mayServe model host = true := by
  rcases reserveAny_cases h hosts holder token model ceiling now with
    ⟨host, hleast, hmin, heq⟩ | ⟨hnot, reason, heq⟩
  · obtain ⟨hactive, hserves⟩ := List.mem_filter.mp (leastHostId_mem hleast)
    rw [heq]
    exact iff_of_true ⟨_, rfl⟩ ⟨hmin, host, hactive, hserves⟩
  · rw [heq]
    refine iff_of_false (fun ⟨_, hok⟩ => by cases hok) ?_
    rintro ⟨hmin, host, hactive, hserves⟩
    rcases hnot with hnone | hle
    · have hmem := List.mem_filter.mpr ⟨hactive, hserves⟩
      rw [leastHostId_eq_none.mp hnone] at hmem
      cases hmem
    · omega

include hids in
/-- The part of `reserve` with one. -/
theorem specific_grants (holder hostId token : String) (model : Option String)
    (ceiling : Option Int) (hacc : book.Accepts holder ceiling) :
    (∃ lease, (book.reserve holder hosts (some hostId) model ceiling token now).1 = .ok lease) ↔
      ∃ host ∈ hosts, host.hostId = hostId ∧ mayServe model host = true ∧
        book.unleased now host = true ∧ (host.healthy = false ∨
          book.settings.minActiveNodes ≤ ((book.active hosts now).length : Int) - 1) := by
  cases hfind : hosts.reverse.find? (·.hostId = hostId) with
  | none =>
    rw [reserve_unlisted hacc hfind]
    refine iff_of_false (fun ⟨_, hok⟩ => by cases hok) ?_
    rintro ⟨host, hmem, hid, -⟩
    rw [← hid, find?_host hids hmem] at hfind
    cases hfind
  | some host =>
    have hmem := List.mem_reverse.mp (List.mem_of_find?_eq_some hfind)
    have hid : host.hostId = hostId := by simpa using List.find?_some hfind
    rcases reserveSpecific_cases h host hosts (strip holder) token model
      (ceiling.getD book.settings.defaultCeiling) now with ⟨hfit, heq⟩ | ⟨hnot, reason, heq⟩
    · rw [reserve_listed hacc hfind, heq]
      exact iff_of_true ⟨_, rfl⟩ ⟨host, hmem, hid, hfit⟩
    · rw [reserve_listed hacc hfind, heq]
      refine iff_of_false (fun ⟨_, hok⟩ => by cases hok) ?_
      rintro ⟨other, hother, hotherId, hfit⟩
      rw [List.inj_on_of_nodup_map hids hother hmem (hotherId.trans hid.symm)] at hfit
      exact hnot hfit

/-- What a granting call leased, and that it could spare it. -/
theorem grants_spare {holder : String} {wanted model : Option String} {ceiling : Option Int}
    {token : String} {lease : NodeLease} {book' : NodeLeaseBook}
    (hr : book.reserve holder hosts wanted model ceiling token now = (.ok lease, book')) :
    ∃ host ∈ hosts, (book.purge now).grant host.hostId (strip holder) token
        (ceiling.getD book.settings.defaultCeiling) now = (.ok lease, book') ∧
      (wanted = none → IsLeastId ((book.active hosts now).filter (mayServe model)) host.hostId) ∧
      (∀ hostId, wanted = some hostId → host.hostId = hostId) ∧
      (host.healthy = false ∨
        book.settings.minActiveNodes ≤ ((book.active hosts now).length : Int) - 1) := by
  have hacc := accepts_of_ok (congrArg Prod.fst hr)
  cases wanted with
  | none =>
    rw [reserve_any hacc] at hr
    rcases reserveAny_cases h hosts (strip holder) token model
      (ceiling.getD book.settings.defaultCeiling) now with
      ⟨host, hleast, hmin, heq⟩ | ⟨-, reason, heq⟩
    · have hmem := List.mem_of_mem_filter (List.mem_of_mem_filter (leastHostId_mem hleast))
      exact ⟨host, hmem, heq.symm.trans hr, fun _ => leastHostId_isLeast hleast, by simp,
        Or.inr (by omega)⟩
    · rw [heq] at hr
      cases hr
  | some hostId =>
    cases hfind : hosts.reverse.find? (·.hostId = hostId) with
    | none =>
      rw [reserve_unlisted hacc hfind] at hr
      cases hr
    | some host =>
      have hmem := List.mem_reverse.mp (List.mem_of_find?_eq_some hfind)
      have hid : host.hostId = hostId := by simpa using List.find?_some hfind
      rw [reserve_listed hacc hfind] at hr
      rcases reserveSpecific_cases h host hosts (strip holder) token model
        (ceiling.getD book.settings.defaultCeiling) now with
        ⟨⟨-, -, hspare⟩, heq⟩ | ⟨-, reason, heq⟩
      · refine ⟨host, hmem, heq.symm.trans hr, by simp, fun wanted hw => ?_, hspare⟩
        cases hw
        exact hid
      · rw [heq] at hr
        cases hr

omit h in
theorem grant_hostId {hostId : String} {lease : NodeLease} {book' : NodeLeaseBook}
    (hg : book.grant hostId holder token ceiling now = (.ok lease, book')) :
    lease.hostId = hostId := by
  cases hg
  rfl

include hids in
/-- A grant that takes a host out of the active ones leaves the minimum of them. -/
theorem grant_keeps_minimum {holder : String} {wanted model : Option String} {ceiling : Option Int}
    {token : String} {lease : NodeLease} {book' : NodeLeaseBook}
    (hr : book.reserve holder hosts wanted model ceiling token now = (.ok lease, book'))
    (hlt : (book'.active hosts now).length < (book.active hosts now).length) :
    book.settings.minActiveNodes ≤ (book'.active hosts now).length := by
  have hpos := (accepts_of_ok (congrArg Prod.fst hr)).positive
  obtain ⟨host, hmem, hgrant, -, -, hspare⟩ := grants_spare h hr
  have hbook := congrArg Prod.snd hgrant
  simp only at hbook
  rcases hspare with hoff | hmin
  · have hsame := active_put_of_offline h hids (strip holder) token now hmem hoff hpos
    rw [hbook] at hsame
    rw [hsame] at hlt
    exact absurd hlt (lt_irrefl _)
  · have hone := length_active_put h hids (strip holder) token now host.hostId hpos
    rw [hbook] at hone
    omega

end NodeLeaseBook

end LlmHomeLab
