import LlmHomeLab.Leases.ExitCodes

/-! # The lease of a wrapper

The lease of a wrapper whose heartbeats arrive in time cannot be lost, and its node goes to nobody
else. A wrapper that is heard of no more, for whatever reason, keeps the node for one ttl at most,
and one that has returned keeps it only while its release is still under way.
-/

namespace LlmHomeLab

namespace Exchange

open NodeLeaseBook (follows_run Performs)

variable {settings : LeaseSettings} {ask : LeaseAsk} {command : List String} {s t a : Exchange}
  {es : List ExchangeEvent} {e : WrapperEvent} {request : LeaseRequest} {response : LeaseResponse}
  {arrival : Arrival} {thread : CallThread} {token : String} {event : ExchangeEvent}

/-! ## While the heartbeats arrive -/

/-- What is served after the token was drawn is served after its grant. -/
theorem mem_after_grant {pre post before after : List LeaseEvent} {g d : LeaseEvent}
    {lease : NodeLease} (hes : pre ++ g :: post = before ++ d :: after)
    (hfresh : (drawnTokens (pre ++ g :: post)).Nodup) (hg : g.grants = some lease)
    (hdrawn : lease.token ∈ drawnTokens before) : d ∈ post := by
  have honce : lease.token ∉ drawnTokens pre := by
    intro hmem
    rw [List.append_cons, drawnTokens_append, drawnTokens_append, List.append_assoc] at hfresh
    have hnew : lease.token ∈ drawnTokens [g] ++ drawnTokens post := by
      rw [NodeLeaseBook.drawnTokens_grants hg]
      exact List.mem_cons_self
    exact List.disjoint_of_nodup_append hfresh hmem hnew
  rcases List.append_eq_append_iff.mp hes with ⟨mid, rfl, hmid⟩ | ⟨mid, rfl, -⟩
  · cases mid with
    | nil =>
      rw [List.append_nil] at hdrawn
      exact absurd hdrawn honce
    | cons first rest =>
      cases hmid
      simp
  · rw [drawnTokens_append] at honce
    exact absurd (List.mem_append_left _ hdrawn) honce

namespace Example

/-- One heartbeat is lost on the way, the next one arrives in time. -/
def punctual : List ExchangeEvent :=
  started ++ [.runs .heartbeatDue, .ends .beater .failed, .runs .heartbeatDue,
    .arrives .beater (.handled 90 [] ""), .ends .beater .heard]

def lease : NodeLease := ⟨"node", "tester", "t", 100, 10800000000, 0⟩

def grant : LeaseEvent :=
  ⟨.reserve "tester" [⟨"node", .online, true, true⟩] none none none "t", 0, .lease (.ok lease)⟩

def renewal : LeaseEvent :=
  ⟨.heartbeat "t", 90, .lease (.ok { lease with expiresAt := 190 })⟩

end Example

/-- The orchestrator has performed a release of the lease. -/
def Released (served : List LeaseEvent) (token : String) : Prop :=
  ∃ before e after, served = before ++ e :: after ∧ token ∈ drawnTokens before ∧
    e.call = .release token

/-- A release that is performed takes the lease out of the book, whatever it answers. -/
theorem Released.gone {book : NodeLeaseBook} {served : List LeaseEvent}
    (h : Released served token) (hrun : Run Performs (.start settings) served book)
    (hfresh : (drawnTokens served).Nodup) : book.byToken.get? token = none := by
  obtain ⟨before, e, after, rfl, hdrawn, hcall⟩ := h
  refine NodeLeaseBook.gone_after hrun hfresh hdrawn fun a b hcons hp => ?_
  have hgone := NodeLeaseBook.release_gone hcons token e.now
  rwa [← hcall, show a.perform e.call e.now = (e.answer, b) from hp] at hgone

/-- The release is under way, or has been performed. -/
def Settled (s : Exchange) (token : String) : Prop :=
  .release token ∈ s.strays ∨ Released s.served token

/-- No layer before the handlers answers in their place. -/
def Through : ExchangeEvent → Prop
  | .arrives _ (.turnedAway _) | .strayArrives _ (.turnedAway _) => False
  | _ => True

/-- The main thread has ended its release and returns, or is about to. -/
def done : WrapperPc → Bool
  | .readingLost _ | .returned _ => true
  | _ => false

theorem tokenOf_done {pc : WrapperPc} (h : done pc = true) : tokenOf pc = none := by
  cases pc <;> first | rfl | cases h

/-- The main thread waits for the answer to its release. -/
def Releasing (s : Exchange) (token : String) : Prop :=
  s.call .main = .sent (.release token) ∨
    ∃ response, s.call .main = .answered (.release token) response ∧ Released s.served token

/-- The release of a main thread that returns was not forgotten. -/
structure Releases (s : Exchange) : Prop where
  releasing : ∀ token ending, s.wrapper.pc = .releasing token ending → Releasing s token
  settled : done s.wrapper.pc = true → ∀ token, s.token = some token → Settled s token

theorem Released.later {served : List LeaseEvent} (h : Released served token)
    (more : List LeaseEvent) : Released (served ++ more) token := by
  obtain ⟨before, d, after, rfl, hrest⟩ := h
  exact ⟨before, d, after ++ more, by simp, hrest⟩

/-- The main thread comes to its release from the `join`, or from a command that did not start. -/
theorem nextPc_releasing {lost : Bool} {pc : WrapperPc} {ending : Ending}
    (h : Wrapper.nextPc lost pc e = some (.releasing token ending)) :
    e = .join .returned ∨ e = .popen .osError := by
  cases e with
  | popen outcome =>
    cases pc <;> try (cases h)
    cases outcome <;> cases h
    exact Or.inr rfl
  | join outcome =>
    cases pc <;> try (cases h)
    cases outcome <;> cases h
    exact Or.inl rfl
  | wait outcome => cases pc <;> cases outcome <;> cases h
  | reserve outcome => cases pc <;> cases outcome <;> cases h
  | release outcome =>
    cases pc <;> try (cases h)
    next token ending => cases outcome <;> cases ending <;> cases h
  | readLost => cases pc <;> cases h
  | _ => cases pc <;> cases h

/-- The main thread is done without a lease, or after its release. -/
theorem nextPc_done {lost : Bool} {pc pc' : WrapperPc} (h : Wrapper.nextPc lost pc e = some pc')
    (hdone : done pc' = true) : pc = .reserving ∨ done pc = true ∨
      ∃ token ending outcome, pc = .releasing token ending ∧ e = .release outcome := by
  cases e with
  | reserve outcome =>
    cases pc <;> try (cases h)
    exact Or.inl rfl
  | release outcome =>
    cases pc <;> try (cases h)
    next token ending => exact Or.inr (Or.inr ⟨token, ending, outcome, rfl, rfl⟩)
  | readLost =>
    cases pc <;> try (cases h)
    exact Or.inr (Or.inl rfl)
  | popen outcome =>
    cases pc <;> try (cases h)
    cases outcome <;> cases h <;> cases hdone
  | wait outcome => cases pc <;> cases outcome <;> cases h <;> cases hdone
  | join outcome =>
    cases pc <;> try (cases h)
    cases outcome <;> cases h <;> cases hdone
  | _ => cases pc <;> cases h

theorem Settled.later (h : Settled s token) (hstrays : ∀ r ∈ s.strays, r ∈ t.strays)
    (hserved : ∃ more, t.served = s.served ++ more) : Settled t token := by
  rcases h with hstray | hreleased
  · exact Or.inl (hstrays _ hstray)
  · obtain ⟨more, hmore⟩ := hserved
    exact Or.inr (hmore ▸ hreleased.later more)

theorem callAfter_release (s : Exchange) {ending : Ending}
    (h : e = .join .returned ∨ e = .popen .osError) :
    s.callAfter (.releasing token ending) e .main = .sent (.release token) := by
  rcases h with rfl | rfl <;> simp [callAfter]

/-- A step of the wrapper, where a release that the main thread leaves is settled. -/
theorem releases_moves (hlinked : Linked settings s) (hmove : s.moves e = some t)
    (hsettled : done s.wrapper.pc = true → ∀ token, s.token = some token → Settled s token)
    (hstill : Wrapper.isMain e = false → ∀ token ending,
      s.wrapper.pc = .releasing token ending → Releasing t token)
    (hleft : Wrapper.isMain e = true → ∀ token ending,
      s.wrapper.pc = .releasing token ending → Settled s token) : Releases t := by
  have hsame : ∀ {token}, Settled s token → Settled t token := by
    intro token hsettled
    obtain ⟨wrapper, -, rfl⟩ := Option.map_eq_some_iff.mp hmove
    exact hsettled
  rcases Wrapper.step_cases (moves_wrapper hmove) with ⟨hother, hpc, -⟩ | ⟨hmain, hnext, -⟩
  · constructor
    · rw [hpc]
      exact hstill hother
    · intro hdone token hsome
      rw [hpc] at hdone
      refine hsame (hsettled hdone token ?_)
      rw [← hsome, (moves_client hmove).1, tokenAfter_of_ne]
      rintro granted rfl
      cases hother
  · constructor
    · intro token ending hreleasing
      rw [hreleasing] at hnext
      left
      rw [(moves_client hmove).2, hreleasing]
      exact callAfter_release s (nextPc_releasing hnext)
    · intro hdone token hsome
      rcases hlinked.moves_token hmove with ⟨granted, -, -, -, hinHand, -⟩ | ⟨htoken, -⟩
      · -- a thread with a token in hand is not done
        rw [tokenOf_done hdone] at hinHand
        cases hinHand
      · rw [htoken] at hsome
        rcases nextPc_done hnext hdone with hreserving | hold | ⟨released, ending, outcome, hpc, -⟩
        · rw [hlinked.asked hreserving] at hsome
          cases hsome
        · exact hsame (hsettled hold token hsome)
        · have hinHand := hlinked.inHand released (by rw [hpc]; rfl)
          cases hinHand.symm.trans hsome
          exact hsame (hleft hmain _ _ hpc)

/-- A release that arrives is performed. -/
theorem arrive_released (hdrawn : token ∈ drawnTokens s.served)
    (harrive : s.arrive ask (.release token) arrival = some (response, a))
    (hthrough : ∀ status, arrival ≠ .turnedAway status) : Released a.served token := by
  rcases arrive_cases harrive with ⟨now, hosts, drawn, -, -, rfl⟩ | ⟨status, rfl, -⟩
  · exact ⟨s.served, _, [], rfl, hdrawn, rfl⟩
  · exact absurd rfl (hthrough status)

theorem callAfter_other (s : Exchange) (pc : WrapperPc) (h : Wrapper.isMain e = false) :
    s.callAfter pc e .main = s.call .main := by
  cases e with
  | heartbeatDue => rfl
  | heartbeat outcome => rfl
  | beaterStops => rfl
  | _ => cases h

theorem nextPc_from_releasing {lost : Bool} {pc : WrapperPc} {ending : Ending}
    (h : Wrapper.nextPc lost (.releasing token ending) e = some pc) : e.ofApi = true := by
  cases e with
  | reserve outcome => rfl
  | release outcome => rfl
  | heartbeat outcome => rfl
  | _ => cases h

/-- The main thread is in no call but its own. -/
theorem event_main {call : ApiCall} {ending : ApiEnding} (h : call.event ending = some e)
    (hnoBeat : ∀ token, call.request ≠ some (.heartbeat token)) : Wrapper.isMain e = true := by
  cases call with
  | idle => cases h
  | sent request =>
    cases request with
    | heartbeat token => exact absurd rfl (hnoBeat token)
    | _ => cases ending <;> cases h <;> rfl
  | answered request response =>
    cases request with
    | heartbeat token => exact absurd rfl (hnoBeat token)
    | _ => cases ending <;> cases h <;> rfl

theorem event_beater (hlinked : Linked settings s) {ending : ApiEnding}
    (h : (s.call .beater).event ending = some e) : Wrapper.isMain e = false := by
  cases hcall : s.call .beater with
  | idle =>
    rw [hcall] at h
    cases h
  | _ =>
    obtain ⟨token, -, hbeat⟩ := hlinked.beats _ (by rw [hcall]; rfl)
    exact event_heartbeat token (by rw [hcall, ← hbeat]; rfl) h

/-- The releases that are under way are of a lease that was granted. -/
structure OwnReleases (s : Exchange) : Prop where
  call : ∀ token, (s.call .main).request = some (.release token) → token ∈ drawnTokens s.served
  strays : ∀ token, .release token ∈ s.strays → token ∈ drawnTokens s.served

theorem Releases.step (h : Releases s) (hlinked : Linked settings s) (hstrays : OwnReleases s)
    (hstep : step ask s event = some t) (hthrough : Through event) : Releases t := by
  cases step_change hstep with
  | @runs e _ hofApi hmove =>
    refine releases_moves hlinked hmove h.settled ?_ ?_
    · intro hother token ending hpc
      unfold Releasing
      rw [(moves_client hmove).2, callAfter_other s _ hother, (moves_server hmove).2]
      exact h.releasing token ending hpc
    · intro hmain token ending hpc
      rcases Wrapper.step_cases (moves_wrapper hmove) with ⟨hother, -⟩ | ⟨-, hnext, -⟩
      · rw [hmain] at hother
        cases hother
      · rw [hpc] at hnext
        rw [nextPc_from_releasing hnext] at hofApi
        cases hofApi
  | @ends thread ending e _ hevent hmove =>
    refine releases_moves (hlinked.leaves thread) hmove ?_ ?_ ?_
    · intro hdone token hsome
      exact (h.settled hdone token hsome).later (fun r hr => List.mem_append_left _ hr)
        ⟨[], (List.append_nil _).symm⟩
    · intro hother token ending hpc
      cases thread with
      | main =>
        rw [event_main hevent hlinked.noBeat] at hother
        cases hother
      | beater =>
        unfold Releasing
        rw [(moves_client hmove).2, callAfter_other _ _ hother, leaves_of_ne s (by simp),
          (moves_server hmove).2]
        exact h.releasing token ending hpc
    · intro hmain token ending hpc
      cases thread with
      | beater =>
        rw [event_beater hlinked hevent] at hmain
        cases hmain
      | main =>
        -- a release that has not arrived is left under way
        rcases h.releasing token ending hpc with hsent | ⟨response, -, hreleased⟩
        · left
          refine List.mem_append_right _ ?_
          rw [hsent]
          exact List.mem_cons_self
        · exact Or.inr hreleased
  | @arrives thread arrival request response a hcall harrive =>
    obtain ⟨hwrapper, more, hmore⟩ := arrive_server harrive
    obtain ⟨hcalls, htoken⟩ := arrive_client harrive
    have hpc := congrArg Wrapper.pc hwrapper
    constructor
    · intro token ending hreleasing
      have hold := h.releasing token ending (hpc ▸ hreleasing)
      cases thread with
      | main =>
        rcases hold with hsent | ⟨_, hanswered, -⟩
        · cases hsent.symm.trans hcall
          refine Or.inr ⟨response, by simp, ?_⟩
          refine arrive_released (a := a) (hstrays.call token (by rw [hcall]; rfl)) harrive ?_
          rintro status rfl
          exact hthrough
        · cases hanswered.symm.trans hcall
      | beater =>
        have hne : CallThread.main ≠ .beater := by simp
        unfold Releasing
        dsimp only
        rw [Function.update_of_ne hne, hcalls, hmore]
        rcases hold with hsent | ⟨response, hanswered, hreleased⟩
        · exact Or.inl hsent
        · exact Or.inr ⟨response, hanswered, hreleased.later more⟩
    · intro hdone token hsome
      refine (h.settled (hpc ▸ hdone) token (htoken ▸ hsome)).later ?_ ⟨more, hmore⟩
      intro r hr
      exact (arrive_granted harrive).1 ▸ hr
  | @strayArrives i arrival request response a hstray harrive =>
    obtain ⟨hwrapper, more, hmore⟩ := arrive_server harrive
    obtain ⟨hcalls, htoken⟩ := arrive_client harrive
    have hpc := congrArg Wrapper.pc hwrapper
    constructor
    · intro token ending hreleasing
      unfold Releasing
      dsimp only
      rw [hcalls, hmore]
      rcases h.releasing token ending (hpc ▸ hreleasing) with hsent | ⟨answer, hanswered, hreleased⟩
      · exact Or.inl hsent
      · exact Or.inr ⟨answer, hanswered, hreleased.later more⟩
    · intro hdone token hsome
      rcases h.settled (hpc ▸ hdone) token (htoken ▸ hsome) with hmem | hreleased
      · by_cases heq : request = .release token
        · -- it is the stray that arrives
          subst heq
          refine Or.inr (arrive_released (a := a) (hstrays.strays token hmem) harrive ?_)
          rintro status rfl
          exact hthrough
        · left
          dsimp only
          rw [(arrive_granted harrive).1]
          obtain ⟨j, hj⟩ := List.mem_iff_getElem?.mp hmem
          refine List.mem_eraseIdx_iff_getElem?.mpr ⟨j, ?_, hj⟩
          rintro rfl
          exact heq (Option.some.inj (hstray.symm.trans hj))
      · exact Or.inr (hmore ▸ hreleased.later more)
  | other =>
    constructor
    · intro token ending hreleasing
      rcases h.releasing token ending hreleasing with hsent | ⟨answer, hanswered, hreleased⟩
      · exact Or.inl hsent
      · exact Or.inr ⟨answer, hanswered, hreleased.later _⟩
    · intro hdone token hsome
      exact (h.settled hdone token hsome).later (fun _ => id) ⟨_, rfl⟩

theorem OwnReleases.grows (h : OwnReleases s) {more : List LeaseEvent}
    (hserved : t.served = s.served ++ more) (hcall : ∀ token,
      (t.call .main).request = some (.release token) →
        (s.call .main).request = some (.release token) ∨ token ∈ drawnTokens s.served)
    (hstrays : ∀ token, .release token ∈ t.strays →
      .release token ∈ s.strays ∨ token ∈ drawnTokens s.served) : OwnReleases t := by
  have hgrows : ∀ token, token ∈ drawnTokens s.served → token ∈ drawnTokens t.served := by
    intro token hmem
    rw [hserved, drawnTokens_append]
    exact List.mem_append_left _ hmem
  constructor
  · intro token hrequest
    rcases hcall token hrequest with hold | hmem
    · exact hgrows token (h.call token hold)
    · exact hgrows token hmem
  · intro token hstray
    rcases hstrays token hstray with hold | hmem
    · exact hgrows token (h.strays token hold)
    · exact hgrows token hmem

theorem OwnReleases.leaves (h : OwnReleases s) (hlinked : Linked settings s)
    (thread : CallThread) : OwnReleases (s.leaves thread) := by
  refine h.grows (List.append_nil _).symm ?_ ?_
  · intro token hrequest
    by_cases heq : CallThread.main = thread
    · rw [heq, leaves_self] at hrequest
      cases hrequest
    · rw [leaves_of_ne s heq] at hrequest
      exact Or.inl hrequest
  · intro token hstray
    rcases List.mem_append.mp hstray with hold | hnew
    · exact Or.inl hold
    · have hrequest : (s.call thread).request = some (.release token) := by
        cases hcall : s.call thread with
        | sent request =>
          rw [hcall] at hnew
          rw [← List.mem_singleton.mp hnew]
          rfl
        | _ =>
          rw [hcall] at hnew
          cases hnew
      cases thread with
      | main => exact Or.inr (h.call token hrequest)
      | beater =>
        obtain ⟨_, -, hbeat⟩ := hlinked.beats _ hrequest
        cases hbeat

theorem OwnReleases.moves (h : OwnReleases s) (hlinked : Linked settings t)
    (hmove : s.moves e = some t) : OwnReleases t := by
  have hserved := (moves_server hmove).2
  have hstrays : t.strays = s.strays := by
    obtain ⟨wrapper, -, rfl⟩ := Option.map_eq_some_iff.mp hmove
    rfl
  refine h.grows (hserved.trans (List.append_nil _).symm) ?_ ?_
  · intro token hrequest
    have hmain := callAfter_main s t.wrapper.pc e
    rw [← (moves_client hmove).2] at hmain
    rcases hmain with hsame | ⟨released, hinHand, hsent⟩
    · exact Or.inl (hsame ▸ hrequest)
    · rw [hsent] at hrequest
      cases hrequest
      rw [← hserved]
      exact Or.inr (hlinked.drawn _ (hlinked.inHand _ hinHand))
  · intro token hstray
    exact Or.inl (hstrays ▸ hstray)

theorem OwnReleases.step (h : OwnReleases s) (hlinked : Linked settings s)
    (hnext : Linked settings t) (hstep : step ask s event = some t) : OwnReleases t := by
  cases step_change hstep with
  | runs hofApi hmove => exact h.moves hnext hmove
  | ends hevent hmove => exact (h.leaves hlinked _).moves hnext hmove
  | @arrives thread arrival request response a hcall harrive =>
    obtain ⟨-, more, hmore⟩ := arrive_server harrive
    obtain ⟨hcalls, -⟩ := arrive_client harrive
    refine h.grows hmore ?_ ?_
    · intro token hrequest
      left
      by_cases heq : CallThread.main = thread
      · subst heq
        have hnew : (ApiCall.answered request response).request = some (.release token) := by
          simpa using hrequest
        rw [hcall]
        exact hnew
      · dsimp only at hrequest
        rwa [Function.update_of_ne heq, hcalls] at hrequest
    · intro token hstray
      exact Or.inl ((arrive_granted harrive).1 ▸ hstray)
  | @strayArrives i arrival request response a hstray harrive =>
    obtain ⟨-, more, hmore⟩ := arrive_server harrive
    obtain ⟨hcalls, -⟩ := arrive_client harrive
    refine h.grows hmore ?_ ?_
    · intro token hrequest
      exact Or.inl (hcalls ▸ hrequest)
    · intro token hmem
      exact Or.inl ((arrive_granted harrive).1 ▸ List.mem_of_mem_eraseIdx hmem)
  | other =>
    exact h.grows rfl (fun _ => Or.inl) (fun _ => Or.inl)

theorem releases_run (hrun : Run (Fires (step ask)) (start settings command) es s)
    (hthrough : ∀ event ∈ es, Through event) : OwnReleases s ∧ Releases s := by
  induction hrun with
  | nil =>
    refine ⟨⟨?_, fun _ hstray => (by cases hstray)⟩, ⟨?_, fun _ _ hsome => (by cases hsome)⟩⟩
    · cases command <;> exact fun _ hrequest => (by cases hrequest)
    · cases command <;> exact fun _ _ hreleasing => (by cases hreleasing)
  | @snoc es a b event hrun hstep ih =>
    obtain ⟨hown, hreleases⟩ := ih fun event hevent => hthrough event (List.mem_append_left _ hevent)
    have hlinked := linked_run hrun
    refine ⟨hown.step hlinked (hlinked.step hstep) hstep, hreleases.step hlinked hown hstep ?_⟩
    exact hthrough event (List.mem_append_right _ List.mem_cons_self)

/-! ## The node comes back -/

/-- A node is not kept by a wrapper that is gone. A token is good for no longer than one ttl after
the last call that granted or renewed its lease, and once `run_leased` has returned it is good for
nothing unless its release is still under way. -/
theorem node_comes_back (hrun : Run (Fires (step ask)) (start settings command) es s)
    (hfresh : (drawnTokens s.served).Nodup) :
    (∀ token now lease, s.book.byToken.get? token = some lease → lease.live now = true →
      ∃ e ∈ s.served, e.Contacts token ∧ now < e.now + settings.ttl) ∧
    ((∀ event ∈ es, Through event) → ∀ result token, s.wrapper.pc = .returned result →
      s.token = some token → .release token ∉ s.strays → s.book.byToken.get? token = none) := by
  have hbook := (linked_run hrun).served
  constructor
  · intro token now lease hlease hlive
    obtain ⟨e, he, hcontact, hle⟩ := (NodeLeaseBook.heard_run hbook hfresh).contact hlease
    refine ⟨e, he, hcontact, ?_⟩
    rw [NodeLease.live, Bool.and_eq_true, decide_eq_true_eq] at hlive
    exact lt_of_lt_of_le hlive.1 hle
  · intro hthrough result token hpc hsome hstray
    rcases (releases_run hrun hthrough).2.settled (by rw [hpc]; rfl) token hsome with
      hmem | hreleased
    · exact absurd hmem hstray
    · exact hreleased.gone hbook hfresh

namespace Example

/-- The answer to the release is lost, but not the release. -/
def unheard : List ExchangeEvent :=
  started ++ [.runs (.wait (.exited 0)), .runs (.join .returned),
    .arrives .main (.handled 30 [] ""), .ends .main .failed, .runs .readLost]

end Example

open Example in
theorem node_comes_back_unheard :
    ∃ s, Run (Fires (step tester)) (start NodeLeaseBook.Example.limits ["make"]) unheard s ∧
      s.wrapper.pc = .returned 0 ∧ s.book.byToken.get? "t" = none := by
  have hrun : ∃ s, Run (Fires (step tester)) (start NodeLeaseBook.Example.limits ["make"]) unheard s ∧
      (s.wrapper.pc, s.token, s.strays, decide (drawnTokens s.served).Nodup) =
        (.returned 0, some "t", [], true) := run_of_shows (by decide +kernel)
  obtain ⟨s, hrun, hshown⟩ := hrun
  simp only [Prod.mk.injEq, decide_eq_true_eq] at hshown
  obtain ⟨hpc, htoken, hstrays, hfresh⟩ := hshown
  refine ⟨s, hrun, hpc, (node_comes_back hrun hfresh).2 ?_ 0 "t" hpc htoken (by simp [hstrays])⟩
  simp [unheard, started, Through]

end Exchange

end LlmHomeLab
