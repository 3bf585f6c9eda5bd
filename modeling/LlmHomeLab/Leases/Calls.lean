import LlmHomeLab.Leases.Book
import LlmHomeLab.Lib.Runs

/-! # Runs of the lease book

The operations of `leases/book.py` as the steps of a system, each with its clock reading and
its answer. Besides taking out leases that have expired, a call does one of four things to the
book: it grants a lease, renews one, or ends one at the request of its holder or of a human.
-/

namespace LlmHomeLab

/-! ## Calls -/

/-- `reserve` comes with the token that `secrets` draws for it. -/
inductive LeaseCall where
  | reserve (holder : String) (hosts : List ReservableHost) (hostId model : Option String)
      (ceiling : Option Int) (token : String)
  | require (token : String)
  | isHeld (hostId : String)
  | heartbeat (token : String)
  | release (token : String)
  | forceRelease (hostId : String)
  | view (hostId : String)
deriving DecidableEq, Repr

inductive LeaseAnswer where
  | lease (result : Except LeaseError NodeLease)
  | held (held : Bool)
  | shown (lease : Option (NodeLease × Bool))
deriving DecidableEq, Repr

/-- A call, its clock reading, and what it returned. -/
structure LeaseEvent where
  call : LeaseCall
  now : Int
  answer : LeaseAnswer
deriving DecidableEq, Repr

namespace NodeLeaseBook

def perform (book : NodeLeaseBook) (call : LeaseCall) (now : Int) : LeaseAnswer × NodeLeaseBook :=
  match call with
  | .reserve holder hosts hostId model ceiling token =>
    (book.reserve holder hosts hostId model ceiling token now).map .lease id
  | .require token => (book.require token now).map .lease id
  | .isHeld hostId => (book.isHeld hostId now).map .held id
  | .heartbeat token => (book.heartbeat token now).map .lease id
  | .release token => (book.release token now).map .lease id
  | .forceRelease hostId => (book.forceRelease hostId now).map .lease id
  | .view hostId => (book.view hostId now).map .shown id

def Performs (book : NodeLeaseBook) (e : LeaseEvent) (book' : NodeLeaseBook) : Prop :=
  book.perform e.call e.now = (e.answer, book')

theorem performs_of_answer {book : NodeLeaseBook} {e : LeaseEvent}
    (h : (book.perform e.call e.now).1 = e.answer) :
    Performs book e (book.perform e.call e.now).2 := by
  unfold Performs
  rw [← h]

/-- The lease after a heartbeat. -/
def renewed (book : NodeLeaseBook) (lease : NodeLease) (now : Int) : NodeLease :=
  { lease with expiresAt := min (now + book.settings.ttl) lease.hardExpiresAt }

/-- The lease a reservation records. -/
def newLease (book : NodeLeaseBook) (hostId holder token : String) (ceiling now : Int) :
    NodeLease :=
  ⟨hostId, holder, token, min (now + book.settings.ttl) (now + ceiling), now + ceiling, now⟩

/-- Answers of calls that neither grant, renew nor end a lease. -/
def Quiet : LeaseCall → LeaseAnswer → Prop
  | .require _, _ => True
  | .isHeld _, _ => True
  | .view _, _ => True
  | _, .lease (.ok _) => False
  | _, _ => True

/-- What a call does to the book. -/
inductive Effect (book : NodeLeaseBook) (now : Int) :
    LeaseCall → LeaseAnswer → NodeLeaseBook → Prop
  | looked {call : LeaseCall} {answer : LeaseAnswer} {book' : NodeLeaseBook} :
      Looked now book book' → Quiet call answer → Effect book now call answer book'
  | granted {holder hostId token : String} {hosts : List ReservableHost}
      {wanted model : Option String} {ceiling : Option Int} :
      (book.purge now).byHost.get? hostId = none →
      0 < ceiling.getD book.settings.defaultCeiling →
      ceiling.getD book.settings.defaultCeiling ≤ book.settings.maxCeiling →
      Effect book now (.reserve holder hosts wanted model ceiling token)
        (.lease (.ok (book.newLease hostId (strip holder) token
          (ceiling.getD book.settings.defaultCeiling) now)))
        ((book.purge now).put (book.newLease hostId (strip holder) token
          (ceiling.getD book.settings.defaultCeiling) now))
  | renewed {token : String} {lease : NodeLease} :
      book.byToken.get? token = some lease → lease.live now = true →
      Effect book now (.heartbeat token) (.lease (.ok (book.renewed lease now)))
        (book.put (book.renewed lease now))
  | released {token : String} {lease : NodeLease} :
      book.byToken.get? token = some lease → lease.live now = true →
      Effect book now (.release token) (.lease (.ok lease)) (book.drop lease)
  | forced {hostId : String} {lease : NodeLease} :
      (book.purge now).byHost.get? hostId = some lease →
      Effect book now (.forceRelease hostId) (.lease (.ok lease)) ((book.purge now).drop lease)

variable {book book' : NodeLeaseBook} {now : Int}

theorem settings_purge (h : book.Consistent) (now : Int) :
    (book.purge now).settings = book.settings := (purge_drops h now).drops.settings

/-- A reservation either grants a lease on a free host or leaves the purged book. -/
theorem effect_reserve (h : book.Consistent) (holder : String) (hosts : List ReservableHost)
    (wanted model : Option String) (ceiling : Option Int) (token : String) (now : Int) :
    Effect book now (.reserve holder hosts wanted model ceiling token)
      (.lease (book.reserve holder hosts wanted model ceiling token now).1)
      (book.reserve holder hosts wanted model ceiling token now).2 := by
  have hpurge := purge_drops h now
  have hsame : Looked now book book := ⟨h, .refl _ _⟩
  have hrefused : ∀ reason, Effect book now (.reserve holder hosts wanted model ceiling token)
      (.lease ((book.purge now).refuse hosts reason).1) ((book.purge now).refuse hosts reason).2 :=
    fun reason => .looked hpurge trivial
  -- the checks of the arguments come before the purge
  unfold reserve
  simp only
  split
  · exact .looked hsame trivial
  · split
    · exact .looked hsame trivial
    · next hpos =>
      split
      · exact .looked hsame trivial
      · next hmax =>
        have hgrant : ∀ hostId, (book.purge now).byHost.get? hostId = none →
            Effect book now (.reserve holder hosts wanted model ceiling token)
              (.lease ((book.purge now).grant hostId (strip holder) token
                (ceiling.getD book.settings.defaultCeiling) now).1)
              ((book.purge now).grant hostId (strip holder) token
                (ceiling.getD book.settings.defaultCeiling) now).2 := by
          intro hostId hfree
          unfold grant
          rw [settings_purge h now]
          exact .granted hfree (by omega) (by omega)
        split
        · unfold reserveAny
          simp only
          split
          · exact hrefused _
          · split
            · exact hrefused _
            · split
              · exact hrefused _
              · next host hhost =>
                split
                · exact hrefused _
                · -- the host was among those without a lease
                  have hmem := (List.mem_filter.mp (List.mem_filter.mp (leastHostId_mem hhost)).1).2
                  refine hgrant host.hostId ?_
                  rw [← Dict.contains_eq_false]
                  simpa using hmem
        · split
          · exact .looked hpurge trivial
          · unfold reserveSpecific
            split
            · exact hrefused _
            · split
              · exact hrefused _
              · next hfree =>
                simp only
                split
                · exact hrefused _
                · exact hgrant _ hfree

theorem effect_heartbeat (h : book.Consistent) (token : String) (now : Int) :
    Effect book now (.heartbeat token) (.lease (book.heartbeat token now).1)
      (book.heartbeat token now).2 := by
  have hlooked := looked_require h token now
  unfold heartbeat
  split
  · next hreq =>
    rw [hreq] at hlooked
    exact .looked hlooked trivial
  · next hreq =>
    rcases require_ok hreq with ⟨htoken, hlive, rfl⟩
    exact .renewed htoken hlive

theorem effect_release (h : book.Consistent) (token : String) (now : Int) :
    Effect book now (.release token) (.lease (book.release token now).1)
      (book.release token now).2 := by
  have hlooked := looked_require h token now
  unfold release
  split
  · next hreq =>
    rw [hreq] at hlooked
    exact .looked hlooked trivial
  · next hreq =>
    rcases require_ok hreq with ⟨htoken, hlive, rfl⟩
    exact .released htoken hlive

theorem effect_forceRelease (h : book.Consistent) (hostId : String) (now : Int) :
    Effect book now (.forceRelease hostId) (.lease (book.forceRelease hostId now).1)
      (book.forceRelease hostId now).2 := by
  unfold forceRelease
  simp only
  split
  · exact .looked (purge_drops h now) trivial
  · next hlease => exact .forced hlease

theorem effect_perform (h : book.Consistent) (call : LeaseCall) (now : Int) :
    Effect book now call (book.perform call now).1 (book.perform call now).2 := by
  cases call with
  | reserve holder hosts wanted model ceiling token =>
    simp only [perform, Prod.map_fst, Prod.map_snd, id]
    exact effect_reserve h holder hosts wanted model ceiling token now
  | require token => exact .looked (looked_require h token now) trivial
  | isHeld hostId => exact .looked (looked_isHeld h hostId now) trivial
  | heartbeat token => exact effect_heartbeat h token now
  | release token => exact effect_release h token now
  | forceRelease hostId => exact effect_forceRelease h hostId now
  | view hostId => exact .looked (looked_view h hostId now) trivial

theorem effect_of_performs {e : LeaseEvent} (h : book.Consistent) (hp : Performs book e book') :
    Effect book e.now e.call e.answer book' := by
  have heffect := effect_perform h e.call e.now
  rwa [show book.perform e.call e.now = (e.answer, book') from hp] at heffect

end NodeLeaseBook

end LlmHomeLab
