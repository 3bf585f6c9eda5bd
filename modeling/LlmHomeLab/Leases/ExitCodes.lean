import LlmHomeLab.Leases.Exchange

/-! # What the wrapper's exit codes say

Exit 4 says that the lease was over, and exit 2 of a wrapper that started no command says that
nothing was reserved for it, whatever was lost on the way and whoever else called the book.
-/

namespace LlmHomeLab

namespace Exchange

open NodeLeaseBook (Over Performs)

variable {settings : LeaseSettings} {ask : LeaseAsk} {command : List String} {s t a : Exchange}
  {es : List ExchangeEvent} {e : WrapperEvent} {request : LeaseRequest} {response : LeaseResponse}
  {arrival : Arrival} {thread : CallThread} {token : String} {event : ExchangeEvent}

/-! ## A lost lease -/

/-- The orchestrator has answered a heartbeat of the lease with an error. -/
def Rejected (served : List LeaseEvent) (token : String) : Prop :=
  ∃ before e after error, served = before ++ e :: after ∧ token ∈ drawnTokens before ∧
    e.call = .heartbeat token ∧ e.answer = .lease (.error error)

def Judged (s : Exchange) : Prop := ∃ token, s.token = some token ∧ Rejected s.served token

theorem Judged.later (h : Judged s) (htoken : ∀ token, s.token = some token → t.token = some token)
    (hserved : ∃ more, t.served = s.served ++ more) : Judged t := by
  obtain ⟨token, hsome, before, d, after, error, heq, hrest⟩ := h
  obtain ⟨more, hmore⟩ := hserved
  exact ⟨token, htoken token hsome, before, d, after ++ more, error, by simp [hmore, heq], hrest⟩

theorem response_lost {answer : LeaseAnswer} (h : OrchestratorLeaseApi.heartbeat
    ((LeaseRequest.heartbeat token).response answer) = .lost) :
    ∃ error, answer = .lease (.error error) := by
  unfold LeaseRequest.response at h
  split at h
  · next e => exact ⟨e, rfl⟩
  · cases h
  · cases h

/-- No layer before the handler answers a heartbeat with the statuses of its errors. -/
def OwnVerdict : ExchangeEvent → Prop
  | .arrives .beater (.turnedAway status) => status ≠ 403 ∧ status ≠ 409
  | _ => True

theorem heartbeat_lost_iff : OrchestratorLeaseApi.heartbeat response = .lost ↔
    response.status = 409 ∨ response.status = 403 := by
  unfold OrchestratorLeaseApi.heartbeat
  split
  · next h => simp [h]
  · next h =>
    split
    · next h' => simp [h']
    · next h' => split <;> simp [h, h']

/-- A heartbeat that comes back lost was rejected by the book. -/
theorem Linked.judged (h : Linked settings s) (htoken : s.token = some token)
    (harrive : s.arrive ask (.heartbeat token) arrival = some (response, a))
    (hown : OwnVerdict (.arrives .beater arrival))
    (hlost : OrchestratorLeaseApi.heartbeat response = .lost) : Judged a := by
  rcases arrive_cases harrive with ⟨now, hosts, drawn, -, rfl, rfl⟩ | ⟨status, rfl, -, rfl, rfl⟩
  · obtain ⟨error, hanswer⟩ := response_lost hlost
    exact ⟨token, htoken, s.served, _, [], error, rfl, h.drawn token htoken, rfl, hanswer⟩
  · rcases heartbeat_lost_iff.mp hlost with h409 | h403
    · exact absurd h409 hown.2
    · exact absurd h403 hown.1

theorem event_lost {call : ApiCall} {ending : ApiEnding}
    (h : call.event ending = some (.heartbeat .lost)) :
    ∃ token response, call = .answered (.heartbeat token) response ∧
      OrchestratorLeaseApi.heartbeat response = .lost := by
  unfold ApiCall.event at h
  split at h
  · cases h
  · exact absurd rfl (aborted_not h).2
  · next request response =>
    split at h
    · cases h
    · next token =>
      refine ⟨token, response, rfl, ?_⟩
      simpa using h
    · cases h
    · exact absurd rfl (aborted_not h).2


/-- The other thread has found the lease lost, or is about to, only if a heartbeat was rejected. -/
structure Truthful (s : Exchange) : Prop where
  answered : ∀ request response, s.call .beater = .answered request response →
    OrchestratorLeaseApi.heartbeat response = .lost → Judged s
  lost : s.wrapper.lost = true → Judged s

theorem Truthful.moves (h : Truthful s) (hlinked : Linked settings s) (hmove : s.moves e = some t)
    (hlost : e = .heartbeat .lost → Judged s) : Truthful t := by
  have hlater : Judged s → Judged t := fun hjudged =>
    hjudged.later (hlinked.moves_kept hmove) ⟨[], by simp [(moves_server hmove).2]⟩
  constructor
  · intro request response hanswered hverdict
    have hbeater := callAfter_beater s t.wrapper.pc e
    rw [← (moves_client hmove).2] at hbeater
    rcases hbeater with hsame | ⟨-, hbeat⟩
    · exact hlater (h.answered request response (hsame ▸ hanswered) hverdict)
    · rw [hbeat] at hanswered
      cases hanswered
  · intro hflag
    refine hlater ?_
    rcases Wrapper.step_cases (moves_wrapper hmove) with ⟨-, -, -, hset⟩ | ⟨-, -, -, hsame⟩
    · rcases hset.mp hflag with hflag | hbeat
      · exact h.lost hflag
      · exact hlost hbeat
    · exact h.lost (hsame ▸ hflag)

theorem Truthful.leaves (h : Truthful s) (thread : CallThread) : Truthful (s.leaves thread) := by
  refine ⟨fun request response hanswered => ?_, h.lost⟩
  by_cases heq : CallThread.beater = thread
  · rw [heq, leaves_self] at hanswered
    cases hanswered
  · exact h.answered request response ((s.leaves_of_ne heq).symm.trans hanswered)

theorem arrive_server (harrive : s.arrive ask request arrival = some (response, a)) :
    a.wrapper = s.wrapper ∧ ∃ more, a.served = s.served ++ more := by
  rcases arrive_cases harrive with ⟨now, hosts, drawn, -, -, rfl⟩ | ⟨-, -, -, -, rfl⟩
  · exact ⟨rfl, _, rfl⟩
  · exact ⟨rfl, [], by simp⟩

theorem Truthful.step (h : Truthful s) (hlinked : Linked settings s)
    (hstep : step ask s event = some t) (hown : OwnVerdict event) : Truthful t := by
  -- what the orchestrator does leaves a verdict that was passed
  have hserved : ∀ {a : Exchange}, a.wrapper = s.wrapper → a.token = s.token →
      a.call .beater = s.call .beater → (∃ more, a.served = s.served ++ more) → Truthful a := by
    intro a hwrapper htoken hcall hmore
    have hlater : Judged s → Judged a := fun hjudged =>
      hjudged.later (fun _ hsome => htoken.trans hsome) hmore
    exact ⟨fun request response hanswered hverdict =>
      hlater (h.answered request response (hcall ▸ hanswered) hverdict),
      fun hflag => hlater (h.lost (hwrapper ▸ hflag))⟩
  cases step_change hstep with
  | runs hofApi hmove =>
    refine h.moves hlinked hmove ?_
    rintro rfl
    cases hofApi
  | @ends thread ending e _ hevent hmove =>
    refine (h.leaves thread).moves (hlinked.leaves thread) hmove ?_
    rintro rfl
    obtain ⟨token, response, hcall, hlost⟩ := event_lost hevent
    cases thread with
    | main => exact absurd (by rw [hcall]; rfl) (hlinked.noBeat token)
    | beater => exact (h.answered _ response hcall hlost).later (fun _ => id) ⟨[], (List.append_nil _).symm⟩
  | @arrives thread arrival request response a hcall harrive =>
    obtain ⟨hwrapper, hmore⟩ := arrive_server harrive
    obtain ⟨hcalls, htoken⟩ := arrive_client harrive
    cases thread with
    | main =>
      refine hserved hwrapper htoken ?_ hmore
      have hne : CallThread.beater ≠ .main := by simp
      dsimp only
      rw [Function.update_of_ne hne, hcalls]
    | beater =>
      refine ⟨fun request' response' hanswered hverdict => ?_, fun hflag => ?_⟩
      · obtain ⟨token, hsome, rfl⟩ := hlinked.beats request (by rw [hcall]; rfl)
        have heq := (Function.update_self CallThread.beater _ a.call).symm.trans hanswered
        cases heq
        exact (hlinked.judged hsome harrive hown hverdict).later (fun _ => id) ⟨[], by simp⟩
      · exact (h.lost (hwrapper ▸ hflag)).later (fun _ hsome => htoken.trans hsome) hmore
  | strayArrives _ harrive =>
    obtain ⟨hwrapper, hmore⟩ := arrive_server harrive
    obtain ⟨hcalls, htoken⟩ := arrive_client harrive
    exact hserved hwrapper htoken (congrFun hcalls _) hmore
  | other => exact hserved rfl rfl rfl ⟨_, rfl⟩

theorem truthful_run (hrun : Run (Fires (step ask)) (start settings command) es s)
    (hown : ∀ event ∈ es, OwnVerdict event) : Truthful s := by
  induction hrun with
  | nil => exact ⟨fun _ _ hanswered => (by cases hanswered), fun hflag => (by cases hflag)⟩
  | @snoc es a b e hrun hstep ih =>
    refine (ih fun event hevent => hown event (List.mem_append_left _ hevent)).step
      (linked_run hrun) hstep ?_
    exact hown e (List.mem_append_right _ List.mem_cons_self)

/-- The flag is set only for a lease that was over, and that does not come back. -/
theorem Truthful.over (h : Truthful s) (hlinked : Linked settings s)
    (hfresh : (drawnTokens s.served).Nodup) (htimely : Timely s.served)
    (hlost : s.wrapper.lost = true) : ∃ token, s.token = some token ∧
      s.book.byToken.get? token = none ∧ Over settings s.served token := by
  obtain ⟨token, hsome, before, d, after, error, hserved, hdrawn, hcall, herror⟩ := h.lost hlost
  have hrun := hlinked.served
  rw [hserved] at hrun hfresh htimely ⊢
  exact ⟨token, hsome,
    NodeLeaseBook.over_of_rejected hrun hfresh htimely hdrawn hcall herror⟩

/-! ## Where a result comes from -/

/-- The code of the command, once the main thread has it. -/
def exitOf : WrapperPc → Option Int
  | .joining _ ending | .releasing _ ending => ending.code
  | .readingLost code => some code
  | _ => none

/-- The main thread returns without a lease, without a command, or with what it has read. -/
inductive Returns (pc : WrapperPc) (lost : Bool) : WrapperEvent → Int → Prop
  | refused : pc = .reserving → Returns pc lost (.reserve .refused) exitRefused
  | unreachable : pc = .reserving → Returns pc lost (.reserve .unreachable) exitUnreachable
  | notStarted {outcome : ReleaseOutcome} : tokenOf pc ≠ none →
      Returns pc lost (.release outcome) exitNotStarted
  | read {code : Int} : exitOf pc = some code →
      Returns pc lost .readLost (if lost then exitLost else Wrapper.shellStatus code)

theorem waitFor_exitOf {pc pc' : WrapperPc} {outcome : WaitOutcome} {code : Int}
    (h : Wrapper.waitFor pc outcome = some pc') (hexit : exitOf pc' = some code) :
    outcome = .exited code := by
  cases pc <;> cases outcome <;> cases h <;> cases hexit <;> rfl

theorem nextPc_exitOf {lost : Bool} {pc pc' : WrapperPc} {code : Int}
    (h : Wrapper.nextPc lost pc e = some pc') (hexit : exitOf pc' = some code) :
    exitOf pc = some code ∨ e = .wait (.exited code) := by
  cases e with
  | wait outcome =>
    have hwait : Wrapper.waitFor pc outcome = some pc' := by
      cases pc <;> exact h
    exact Or.inr (congrArg _ (waitFor_exitOf hwait hexit))
  | release outcome =>
    cases pc <;> try (cases h)
    next token ending =>
    cases outcome <;> cases h
    · cases ending <;> exact Or.inl hexit
    · cases ending <;> exact Or.inl hexit
    · cases hexit
  | join outcome =>
    cases pc <;> try (cases h)
    cases outcome <;> cases h
    · exact Or.inl hexit
    · cases hexit
  | reserve outcome =>
    cases pc <;> try (cases h)
    cases outcome <;> cases h <;> cases hexit
  | popen outcome =>
    cases pc <;> try (cases h)
    cases outcome <;> cases h <;> cases hexit
  | readLost =>
    cases pc <;> cases h
    cases hexit
  | _ => cases pc <;> cases h

theorem nextPc_returns {lost : Bool} {pc : WrapperPc} {result : Int}
    (h : Wrapper.nextPc lost pc e = some (.returned result)) : Returns pc lost e result := by
  cases e with
  | wait outcome =>
    cases pc <;> cases outcome <;> cases h
  | release outcome =>
    cases pc <;> try (cases h)
    next token ending =>
    cases ending <;> cases outcome <;> cases h <;> exact .notStarted (by simp [tokenOf])
  | join outcome => cases pc <;> cases outcome <;> cases h
  | reserve outcome =>
    cases pc <;> try (cases h)
    cases outcome <;> cases h
    · exact .refused rfl
    · exact .unreachable rfl
  | popen outcome => cases pc <;> cases outcome <;> cases h
  | readLost =>
    cases pc <;> cases h
    exact .read rfl
  | _ => cases pc <;> cases h

theorem tokenOf_waits {pc : WrapperPc} (h : Wrapper.Waits token pc) : tokenOf pc = some token := by
  cases h <;> rfl

/-- Where the main thread stands with its token and the code of the command. -/
structure Told (es : List ExchangeEvent) (s : Exchange) : Prop where
  exits : ∀ code, exitOf s.wrapper.pc = some code →
    s.token ≠ none ∧ .runs (.wait (.exited code)) ∈ es
  returned : ∀ result, s.wrapper.pc = .returned result →
    (s.token = none ∧ (result = exitRefused ∨ result = exitUnreachable)) ∨
      s.token ≠ none ∧ (result = exitNotStarted ∨ (result = exitLost ∧ s.wrapper.lost = true) ∨
        ∃ code, .runs (.wait (.exited code)) ∈ es ∧ result = Wrapper.shellStatus code)

theorem Told.snoc (h : Told es s) (event : ExchangeEvent) (hwrapper : t.wrapper = s.wrapper)
    (htoken : t.token = s.token) : Told (es ++ [event]) t := by
  constructor
  · intro code hexit
    rw [hwrapper] at hexit
    rw [htoken]
    exact ⟨(h.exits code hexit).1, List.mem_append_left _ (h.exits code hexit).2⟩
  · intro result hpc
    rw [hwrapper] at hpc ⊢
    rw [htoken]
    rcases h.returned result hpc with hnone | ⟨hsome, hstart | hlost | ⟨code, hcode, hresult⟩⟩
    · exact Or.inl hnone
    · exact Or.inr ⟨hsome, Or.inl hstart⟩
    · exact Or.inr ⟨hsome, Or.inr (Or.inl hlost)⟩
    · exact Or.inr ⟨hsome, Or.inr (Or.inr ⟨code, List.mem_append_left _ hcode, hresult⟩)⟩

theorem Told.moves (h : Told es s) (hlinked : Linked settings s) (hmove : s.moves e = some t)
    (hevent : ∀ outcome, e = .wait outcome → event = .runs e) : Told (es ++ [event]) t := by
  have hkept : s.token ≠ none → t.token ≠ none := by
    intro hsome
    obtain ⟨token, htoken⟩ := Option.ne_none_iff_exists'.mp hsome
    rw [hlinked.moves_kept hmove token htoken]
    simp
  rcases Wrapper.step_cases (moves_wrapper hmove) with ⟨hother, hpc, -, hlost⟩ | ⟨-, hnext, -, hlost⟩
  · -- of what the other thread does, only the flag matters here
    have htoken : t.token = s.token := by
      rw [(moves_client hmove).1]
      refine tokenAfter_of_ne ?_
      rintro granted rfl
      cases hother
    constructor
    · intro code hexit
      rw [hpc] at hexit
      rw [htoken]
      exact ⟨(h.exits code hexit).1, List.mem_append_left _ (h.exits code hexit).2⟩
    · intro result hreturned
      rw [hpc] at hreturned
      rw [htoken, hlost]
      rcases h.returned result hreturned with hnone | ⟨hsome, hstart | ⟨hresult, hflag⟩ |
        ⟨code, hcode, hresult⟩⟩
      · exact Or.inl hnone
      · exact Or.inr ⟨hsome, Or.inl hstart⟩
      · exact Or.inr ⟨hsome, Or.inr (Or.inl ⟨hresult, Or.inl hflag⟩)⟩
      · exact Or.inr ⟨hsome, Or.inr (Or.inr ⟨code, List.mem_append_left _ hcode, hresult⟩)⟩
  · constructor
    · intro code hexit
      rcases nextPc_exitOf hnext hexit with hold | rfl
      · obtain ⟨hsome, hmem⟩ := h.exits code hold
        exact ⟨hkept hsome, List.mem_append_left _ hmem⟩
      · -- the command ends while the main thread has the token in hand
        rw [← hevent _ rfl]
        refine ⟨hkept ?_, List.mem_append_right _ List.mem_cons_self⟩
        have hwait : Wrapper.waitFor s.wrapper.pc (.exited code) = some t.wrapper.pc := by
          revert hnext
          cases s.wrapper.pc <;> exact id
        obtain ⟨token, hwaits, -⟩ := Wrapper.waitFor_cases hwait
        rw [hlinked.inHand token (tokenOf_waits hwaits)]
        simp
    · intro result hpc
      rw [hpc] at hnext
      have hreturns := nextPc_returns hnext
      have htoken := (moves_client hmove).1
      revert hreturns
      generalize hwas : s.wrapper.pc = pc
      generalize hread : s.wrapper.lost = lost
      intro hreturns
      cases hreturns with
      | refused hreserving =>
        exact Or.inl ⟨htoken.trans (hlinked.asked (hwas.trans hreserving)), Or.inl rfl⟩
      | unreachable hreserving =>
        exact Or.inl ⟨htoken.trans (hlinked.asked (hwas.trans hreserving)), Or.inr rfl⟩
      | notStarted hinHand =>
        obtain ⟨token, htokenOf⟩ := Option.ne_none_iff_exists'.mp hinHand
        refine Or.inr ⟨hkept ?_, Or.inl rfl⟩
        rw [hlinked.inHand token (hwas ▸ htokenOf)]
        simp
      | @read code hexit =>
        obtain ⟨hsome, hmem⟩ := h.exits code (hwas ▸ hexit)
        refine Or.inr ⟨hkept hsome, Or.inr ?_⟩
        cases lost with
        | true => exact Or.inl ⟨rfl, hlost.trans hread⟩
        | false => exact Or.inr ⟨code, List.mem_append_left _ hmem, rfl⟩

theorem told_start (settings : LeaseSettings) (command : List String) :
    Told [] (start settings command) := by
  constructor
  · intro code hexit
    simp only [start, Wrapper.start] at hexit
    split at hexit <;> cases hexit
  · intro result hpc
    simp only [start, Wrapper.start] at hpc
    split at hpc
    · cases hpc
      exact Or.inl ⟨rfl, Or.inl rfl⟩
    · cases hpc

theorem event_ofApi {call : ApiCall} {ending : ApiEnding} (h : call.event ending = some e) :
    e.ofApi = true := by
  have haborted : ∀ {request}, ApiCall.event.aborted ending request = some e → e.ofApi = true := by
    intro request h
    unfold ApiCall.event.aborted at h
    split at h <;> cases h <;> rfl
  unfold ApiCall.event at h
  split at h
  · cases h
  · exact haborted h
  · split at h
    · cases h
      rfl
    · cases h
      rfl
    · cases h
      rfl
    · exact haborted h

theorem told_run (hrun : Run (Fires (step ask)) (start settings command) es s) : Told es s := by
  induction hrun with
  | nil => exact told_start settings command
  | @snoc es a b event hrun hstep ih =>
    have hlinked := linked_run hrun
    cases step_change hstep with
    | runs hofApi hmove => exact ih.moves hlinked hmove fun _ _ => rfl
    | @ends thread ending e _ hevent hmove =>
      refine Told.moves (s := a.leaves thread) ⟨ih.exits, ih.returned⟩ (hlinked.leaves thread)
        hmove ?_
      rintro outcome rfl
      cases event_ofApi hevent
    | arrives hcall harrive =>
      exact ih.snoc _ (arrive_server harrive).1 (arrive_client harrive).2
    | strayArrives _ harrive =>
      exact ih.snoc _ (arrive_server harrive).1 (arrive_client harrive).2
    | other => exact ih.snoc _ rfl rfl

/-! ## The reservation -/

/-- What the orchestrator has granted, as far as the wrapper knows. Once it knows, no reservation
of its own is under way any more. -/
structure Reserved (s : Exchange) : Prop where
  asking : (s.call .main).request = some .reserve → s.wrapper.pc = .reserving
  pending : s.call .main = .sent .reserve → s.granted = none ∧ .reserve ∉ s.strays
  answered : ∀ response, s.call .main = .answered .reserve response →
    response.token = s.granted ∧ (response.token ≠ none → response.status = 201) ∧
      .reserve ∉ s.strays
  told : ∀ token, s.token = some token → s.granted = some token ∧ .reserve ∉ s.strays
  refused : s.wrapper.pc = .returned exitRefused → s.token = none →
    s.granted = none ∧ .reserve ∉ s.strays

theorem Reserved.leaves (h : Reserved s) (hlinked : Linked settings s) (thread : CallThread) :
    Reserved (s.leaves thread) := by
  have hcall : ∀ {call}, (s.leaves thread).call .main = call → call ≠ .idle →
      CallThread.main ≠ thread ∧ s.call .main = call := by
    intro call hcall hbusy
    by_cases heq : CallThread.main = thread
    · rw [heq, leaves_self] at hcall
      exact absurd hcall.symm hbusy
    · exact ⟨heq, (s.leaves_of_ne heq).symm.trans hcall⟩
  -- a reservation is given up on only before its outcome is known
  have hstrays : s.wrapper.pc ≠ .reserving ∨ CallThread.main ≠ thread → .reserve ∉ s.strays →
      .reserve ∉ (s.leaves thread).strays := by
    intro hknown hnot hmem
    rcases List.mem_append.mp hmem with hmem | hmem
    · exact hnot hmem
    · have hrequest : (s.call thread).request = some .reserve := by
        cases hcall : s.call thread with
        | sent request =>
          rw [hcall] at hmem
          rw [List.mem_singleton.mp hmem]
          rfl
        | _ =>
          rw [hcall] at hmem
          cases hmem
      cases thread with
      | main =>
        rcases hknown with hpc | hne
        · exact hpc (h.asking hrequest)
        · exact hne rfl
      | beater =>
        obtain ⟨_, -, hbeat⟩ := hlinked.beats _ hrequest
        cases hbeat
  constructor
  · intro hrequest
    cases hmain : (s.leaves thread).call .main with
    | idle =>
      rw [hmain] at hrequest
      cases hrequest
    | _ =>
      obtain ⟨-, hsame⟩ := hcall hmain (by simp)
      rw [hmain, ← hsame] at hrequest
      exact h.asking hrequest
  · intro hsent
    obtain ⟨hne, hsame⟩ := hcall hsent (by simp)
    exact ⟨(h.pending hsame).1, hstrays (Or.inr hne) (h.pending hsame).2⟩
  · intro response hanswered
    obtain ⟨hne, hsame⟩ := hcall hanswered (by simp)
    obtain ⟨htoken, hstatus, hnot⟩ := h.answered response hsame
    exact ⟨htoken, hstatus, hstrays (Or.inr hne) hnot⟩
  · intro token hsome
    refine ⟨(h.told token hsome).1, hstrays (Or.inl fun hpc => ?_) (h.told token hsome).2⟩
    exact absurd ((hlinked.asked hpc).symm.trans hsome) (by simp)
  · intro hpc hnone
    refine ⟨(h.refused hpc hnone).1, hstrays (Or.inl ?_) (h.refused hpc hnone).2⟩
    rw [show s.wrapper.pc = _ from hpc]
    simp

theorem Reserved.moves (h : Reserved s) (hlinked : Linked settings s) (htold : Told es s)
    (hmove : s.moves e = some t)
    (hquiet : (s.call .main).request = some .reserve → Wrapper.isMain e = false)
    (hgranted : ∀ token, e = .reserve (.granted token) →
      s.granted = some token ∧ .reserve ∉ s.strays)
    (hrefused : e = .reserve .refused → s.granted = none ∧ .reserve ∉ s.strays) :
    Reserved t := by
  have hmain := callAfter_main s t.wrapper.pc e
  rw [← (moves_client hmove).2] at hmain
  have hserver : t.granted = s.granted ∧ t.strays = s.strays := by
    obtain ⟨wrapper, -, rfl⟩ := Option.map_eq_some_iff.mp hmove
    exact ⟨rfl, rfl⟩
  rw [← hserver.1, ← hserver.2] at hgranted hrefused
  have hcall : ∀ {call}, t.call .main = call → call.request = some .reserve →
      s.call .main = call := by
    intro call hcall hrequest
    rcases hmain with hsame | ⟨token, -, hrelease⟩
    · exact hsame.symm.trans hcall
    · rw [← hcall, hrelease] at hrequest
      cases hrequest
  have hsteps := Wrapper.step_cases (moves_wrapper hmove)
  constructor
  · intro hrequest
    have hsame := hcall rfl hrequest
    rw [← hsame] at hrequest
    rcases hsteps with ⟨-, hpc, -⟩ | ⟨hismain, -⟩
    · exact hpc.trans (h.asking hrequest)
    · rw [hquiet hrequest] at hismain
      cases hismain
  · intro hsent
    rw [hserver.1, hserver.2]
    exact h.pending (hcall hsent rfl)
  · intro response hanswered
    rw [hserver.1, hserver.2]
    exact h.answered response (hcall hanswered rfl)
  · intro token hsome
    rcases hlinked.moves_token hmove with ⟨granted, he, -, hgiven, -⟩ | ⟨hsame, -⟩
    · rw [hgiven] at hsome
      cases hsome
      exact hgranted _ he
    · rw [hserver.1, hserver.2]
      exact h.told token (hsame ▸ hsome)
  · intro hpc hnone
    have hbare : s.token = none := by
      rw [Option.eq_none_iff_forall_ne_some]
      intro token hsome
      rw [hlinked.moves_kept hmove token hsome] at hnone
      cases hnone
    rcases hsteps with ⟨-, hsame, -⟩ | ⟨-, hnext, -⟩
    · rw [hserver.1, hserver.2]
      exact h.refused (hsame ▸ hpc) hbare
    · rw [hpc] at hnext
      have hreturns := nextPc_returns hnext
      revert hreturns
      generalize hresult : exitRefused = result
      intro hreturns
      cases hreturns with
      | refused => exact hrefused rfl
      | unreachable => cases hresult
      | notStarted => cases hresult
      | read hexit => exact absurd hbare (htold.exits _ hexit).1

/-- Only the answer to a reservation has a token. -/
theorem response_token_none {answer : LeaseAnswer} (h : request ≠ .reserve) :
    (request.response answer).token = none := by
  unfold LeaseRequest.response
  split
  · rfl
  · exact absurd rfl h
  · rfl

theorem response_status {answer : LeaseAnswer} (h : (request.response answer).token ≠ none) :
    (request.response answer).status = 201 := by
  revert h
  unfold LeaseRequest.response
  split <;> simp

theorem arrive_granted (harrive : s.arrive ask request arrival = some (response, a)) :
    a.strays = s.strays ∧ a.granted = response.token.or s.granted ∧
      (response.token ≠ none → response.status = 201) ∧
      (request ≠ .reserve → response.token = none) := by
  rcases arrive_cases harrive with ⟨now, hosts, drawn, -, rfl, rfl⟩ | ⟨status, -, -, rfl, rfl⟩
  · exact ⟨rfl, rfl, response_status, response_token_none⟩
  · exact ⟨rfl, rfl, fun h => absurd rfl h, fun _ => rfl⟩

theorem reserve_refused (h : OrchestratorLeaseApi.reserve response = .refused) :
    response.status ≠ 201 := by
  intro hstatus
  unfold OrchestratorLeaseApi.reserve at h
  rw [hstatus] at h
  simp only [Nat.reduceEqDiff, or_self, if_false, Nat.reduceLeDiff] at h
  split at h <;> cases h

theorem event_refused {call : ApiCall} {ending : ApiEnding}
    (h : call.event ending = some (.reserve .refused)) :
    ∃ response, call = .answered .reserve response ∧ response.status ≠ 201 := by
  have haborted : ∀ {request}, ApiCall.event.aborted ending request ≠ some (.reserve .refused) := by
    intro request h
    unfold ApiCall.event.aborted at h
    split at h <;> cases h
  unfold ApiCall.event at h
  split at h
  · cases h
  · exact absurd h haborted
  · next request response =>
    split at h
    · refine ⟨response, rfl, reserve_refused ?_⟩
      simpa using h
    · cases h
    · cases h
    · exact absurd h haborted

/-- The other requests do not touch the reservation. -/
theorem Reserved.arrive (h : Reserved s) (hrequest : request ≠ .reserve)
    (harrive : s.arrive ask request arrival = some (response, a)) : Reserved a := by
  obtain ⟨hstrays, hgranted, -, hnone⟩ := arrive_granted harrive
  obtain ⟨hcalls, htoken⟩ := arrive_client harrive
  rw [hnone hrequest, Option.none_or] at hgranted
  have hpc := congrArg Wrapper.pc (arrive_server harrive).1
  constructor
  · rw [hcalls, hpc]
    exact h.asking
  · rw [hcalls, hgranted, hstrays]
    exact h.pending
  · rw [hcalls, hgranted, hstrays]
    exact h.answered
  · rw [htoken, hgranted, hstrays]
    exact h.told
  · rw [hpc, htoken, hgranted, hstrays]
    exact h.refused

theorem Reserved.arrives (h : Reserved s) (hlinked : Linked settings s)
    (hcall : s.call thread = .sent request)
    (harrive : s.arrive ask request arrival = some (response, a)) :
    Reserved { a with call := Function.update a.call thread (.answered request response) } := by
  obtain ⟨hstrays, hgranted, hstatus, -⟩ := arrive_granted harrive
  obtain ⟨hcalls, htoken⟩ := arrive_client harrive
  have hpc := congrArg Wrapper.pc (arrive_server harrive).1
  by_cases hrequest : request = .reserve
  · -- the reservation itself, which only the main thread sends
    subst hrequest
    cases thread with
    | beater =>
      obtain ⟨_, -, hbeat⟩ := hlinked.beats .reserve (by rw [hcall]; rfl)
      cases hbeat
    | main =>
      obtain ⟨hnone, hnot⟩ := h.pending hcall
      have hreserving := h.asking (by rw [hcall]; rfl)
      have hbare := hlinked.asked hreserving
      rw [hnone, Option.or_none] at hgranted
      constructor
      · exact fun _ => hpc.trans hreserving
      · intro hsent
        simp only [Function.update_self] at hsent
        cases hsent
      · intro answer hanswered
        simp only [Function.update_self] at hanswered
        cases hanswered
        exact ⟨hgranted.symm, hstatus, hstrays ▸ hnot⟩
      · intro token hsome
        exact absurd (hbare.symm.trans (htoken.symm.trans hsome)) (by simp)
      · intro hrefused
        exact absurd (hreserving.symm.trans (hpc.symm.trans hrefused)) (by simp)
  · have ha := h.arrive hrequest harrive
    have hold : ∀ {call : ApiCall}, Function.update a.call thread (.answered request response)
        .main = call → call.request = some .reserve → a.call .main = call := by
      intro call hnew hreserve
      by_cases heq : CallThread.main = thread
      · rw [← heq, Function.update_self] at hnew
        rw [← hnew] at hreserve
        exact absurd (Option.some.inj hreserve) hrequest
      · rwa [Function.update_of_ne heq] at hnew
    constructor
    · intro hreserve
      have hsame := hold rfl hreserve
      refine ha.asking ?_
      rw [hsame]
      exact hreserve
    · exact fun hsent => ha.pending (hold hsent rfl)
    · exact fun answer hanswered => ha.answered answer (hold hanswered rfl)
    · exact ha.told
    · exact ha.refused

theorem nextPc_reserving {lost : Bool} {pc : WrapperPc}
    (h : Wrapper.nextPc lost .reserving e = some pc) : e.ofApi = true := by
  cases e with
  | reserve outcome => rfl
  | release outcome => rfl
  | heartbeat outcome => rfl
  | _ => cases h

theorem event_heartbeat {call : ApiCall} {ending : ApiEnding} (token : String)
    (hrequest : call.request = some (.heartbeat token)) (h : call.event ending = some e) :
    Wrapper.isMain e = false := by
  cases call with
  | idle => cases hrequest
  | sent request =>
    cases hrequest
    cases ending <;> cases h
    rfl
  | answered request response =>
    cases hrequest
    cases ending <;> cases h <;> rfl

/-- A stray reservation tells the wrapper nothing any more. -/
theorem Reserved.strayArrives (h : Reserved s) (hstray : request ∈ s.strays)
    (harrive : s.arrive ask request arrival = some (response, a)) (i : Nat) :
    Reserved { a with strays := a.strays.eraseIdx i } := by
  by_cases hrequest : request = .reserve
  · subst hrequest
    obtain ⟨hcalls, htoken⟩ := arrive_client harrive
    have hpc := congrArg Wrapper.pc (arrive_server harrive).1
    refine ⟨?_, fun hsent => ?_, fun answer hanswered => ?_, fun token hsome => ?_,
      fun hrefused hnone => ?_⟩
    · dsimp only
      rw [hcalls, hpc]
      exact h.asking
    · exact absurd hstray (h.pending (hcalls ▸ hsent)).2
    · exact absurd hstray (h.answered answer (hcalls ▸ hanswered)).2.2
    · exact absurd hstray (h.told token (htoken ▸ hsome)).2
    · exact absurd hstray (h.refused (hpc ▸ hrefused) (htoken ▸ hnone)).2
  · have ha := h.arrive hrequest harrive
    have herased : .reserve ∉ a.strays → .reserve ∉ a.strays.eraseIdx i := fun hnot hmem =>
      hnot (List.mem_of_mem_eraseIdx hmem)
    refine ⟨ha.asking, fun hsent => ?_, fun answer hanswered => ?_, fun token hsome => ?_,
      fun hrefused hnone => ?_⟩
    · exact (ha.pending hsent).imp_right herased
    · exact (ha.answered answer hanswered).imp_right (And.imp_right herased)
    · exact (ha.told token hsome).imp_right herased
    · exact (ha.refused hrefused hnone).imp_right herased

theorem Reserved.step (h : Reserved s) (hlinked : Linked settings s) (htold : Told es s)
    (hstep : step ask s event = some t) : Reserved t := by
  cases step_change hstep with
  | @runs e _ hofApi hmove =>
    refine h.moves hlinked htold hmove ?_ ?_ ?_
    · -- the main thread is still waiting for the answer
      intro hrequest
      rcases Wrapper.step_cases (moves_wrapper hmove) with ⟨hother, -⟩ | ⟨-, hnext, -⟩
      · exact hother
      · rw [h.asking hrequest] at hnext
        rw [nextPc_reserving hnext] at hofApi
        cases hofApi
    · rintro token rfl
      cases hofApi
    · rintro rfl
      cases hofApi
  | @ends thread ending e _ hevent hmove =>
    -- the answer to the reservation is that of the main thread
    have hanswer : ∀ response, s.call thread = .answered .reserve response →
        response.token = (s.leaves thread).granted ∧
          (response.token ≠ none → response.status = 201) ∧
          .reserve ∉ (s.leaves thread).strays := by
      intro response hcall
      cases thread with
      | main =>
        obtain ⟨htoken, hstatus, hnot⟩ := h.answered response hcall
        refine ⟨htoken, hstatus, ?_⟩
        simpa [Exchange.leaves, hcall, ApiCall.stray] using hnot
      | beater =>
        obtain ⟨_, -, hbeat⟩ := hlinked.beats .reserve (by rw [hcall]; rfl)
        cases hbeat
    refine (h.leaves hlinked thread).moves (hlinked.leaves thread) ⟨htold.exits, htold.returned⟩
      hmove ?_ ?_ ?_
    · intro hrequest
      cases thread with
      | main =>
        rw [leaves_self] at hrequest
        cases hrequest
      | beater =>
        cases hcall : s.call .beater with
        | idle =>
          rw [hcall] at hevent
          cases hevent
        | _ =>
          obtain ⟨token, -, hbeat⟩ := hlinked.beats _ (by rw [hcall]; rfl)
          exact event_heartbeat token (by rw [hcall, ← hbeat]; rfl) hevent
    · rintro token rfl
      obtain ⟨response, hcall, htoken⟩ := event_granted hevent
      obtain ⟨hsame, -, hnot⟩ := hanswer response hcall
      exact ⟨hsame.symm.trans htoken, hnot⟩
    · rintro rfl
      obtain ⟨response, hcall, hstatus⟩ := event_refused hevent
      obtain ⟨hsame, hgranted, hnot⟩ := hanswer response hcall
      refine ⟨hsame.symm.trans ?_, hnot⟩
      by_contra hsome
      exact hstatus (hgranted hsome)
  | arrives hcall harrive => exact h.arrives hlinked hcall harrive
  | @strayArrives i _ _ _ _ hstray harrive =>
    exact h.strayArrives (List.mem_of_getElem? hstray) harrive i
  | other => exact ⟨h.asking, h.pending, h.answered, h.told, h.refused⟩

theorem reserved_start (settings : LeaseSettings) (command : List String) :
    Reserved (start settings command) := by
  refine ⟨?_, fun _ => ⟨rfl, by simp [start]⟩, ?_, fun _ hsome => (by cases hsome),
    fun _ _ => ⟨rfl, by simp [start]⟩⟩
  · cases command with
    | nil => exact fun hrequest => (by cases hrequest)
    | cons head tail => exact fun _ => rfl
  · intro response hanswered
    cases command <;> cases hanswered

theorem reserved_run (hrun : Run (Fires (step ask)) (start settings command) es s) :
    Reserved s := by
  induction hrun with
  | nil => exact reserved_start settings command
  | snoc hrun hstep ih => exact ih.step (linked_run hrun) (told_run hrun) hstep

/-! ## Exit codes -/

/-- What a result of `run_leased` says, about the lease and about the command. -/
inductive ResultMeans (settings : LeaseSettings) (es : List ExchangeEvent) (s : Exchange) :
    Int → Prop
  /-- Nothing is reserved, and nothing will be. -/
  | refused : s.token = none → s.granted = none → .reserve ∉ s.strays →
      ResultMeans settings es s exitRefused
  | unreachable : s.token = none → ResultMeans settings es s exitUnreachable
  | notStarted : s.token ≠ none → ResultMeans settings es s exitNotStarted
  | exited {code : Int} : s.token ≠ none → .runs (.wait (.exited code)) ∈ es →
      ResultMeans settings es s (Wrapper.shellStatus code)
  | lost {token : String} : s.token = some token → s.book.byToken.get? token = none →
      Over settings s.served token → ResultMeans settings es s exitLost

namespace Example

def tester : LeaseAsk where
  holder := "tester"

/-- The wrapper is granted the lease `"t"` on a node, and starts its command. -/
def started : List ExchangeEvent :=
  [.arrives .main (.handled 0 [⟨"node", .online, true, true⟩] "t"), .ends .main .heard,
    .runs (.popen .process)]

/-- A human ends the lease before the first heartbeat arrives. -/
def forced : List ExchangeEvent :=
  started ++ [.other (.forceRelease "node") 10, .runs .heartbeatDue,
    .arrives .beater (.handled 60 [] ""), .ends .beater .heard, .runs (.wait (.exited (-15))),
    .runs (.join .returned), .arrives .main (.handled 61 [] ""), .ends .main .heard,
    .runs .readLost]

end Example

end Exchange

end LlmHomeLab
