import Signalbox.Proofs.Control.Catalog
import Signalbox.Proofs.Control.Sessions
import Signalbox.Proofs.Web.Tracing

/-
  Signalbox/Proofs/Web/Answers.lean --- how requests are answered.

  A request that can be read is answered with the status of success, or with the
  text of the error and a status.  The status is meant to tell the cause of the
  failure, whatever the operation had to wait for and whichever of its jobs failed.
  It does, but for one case: when the store does not save a loco that is added,
  edited or deleted, the answer says that the request was wrong.
-/

set_option autoImplicit false

namespace Signalbox

open Schedule

/-! ## What requests ask for -/

namespace WebCall

variable {r : WebRequest}

theorem isOffered_of_operation {method : WebMethod} {parameter : List Char} {e : Endpoint}
    {op : Operation} (h : operation r method parameter e = .ok op) : op.IsOffered := by
  cases e with
  | loco =>
    simp only [operation] at h
    split at h
    · exact Except.ok.inj h ▸ trivial
    · obtain ⟨change, -, h⟩ := Steps.bind_eq_ok.mp h
      exact Except.ok.inj h ▸ trivial
  | _ =>
    simp only [operation, Steps.bind_eq_ok, Steps.map_eq_ok] at h
    grind [Operation.IsOffered, Steps.pure_eq_ok, onLoco]

/-- A request with a method of its endpoint, and with a parameter that is a text, asks for the
operation of the endpoint if it does not only look. -/
theorem ofRequest_eq {e : Endpoint} {written parameter : List Char}
    (hends : r.segments.bind Endpoint.ofSegments? = some (e, written))
    (hmethod : e.methods.contains (.ofName r.method) = true)
    (hparameter : WebRequest.segmentText? written = some parameter)
    (hview : (view? e).filter (fun _ => looks (.ofName r.method)) = none) :
    ofRequest r = (operation r (.ofName r.method) parameter e).map .operate := by
  rw [ofRequest, hends]
  simp only [hmethod, hparameter, hview]
  rfl

/-- No endpoint has options of its own. -/
theorem method_ne_options (hpath : ofRequest r ≠ .error .unknownPath)
    (hmethod : ofRequest r ≠ .error .wrongMethod) : r.method ≠ "OPTIONS" := by
  intro hoptions
  have hname : WebMethod.ofName r.method = .options := by rw [hoptions]; rfl
  cases hends : r.segments.bind Endpoint.ofSegments? with
  | none => exact hpath (by rw [ofRequest, hends])
  | some x =>
    have hnone : WebMethod.options ∉ x.1.methods := by cases x.1 <;> simp [Endpoint.methods]
    exact hmethod (by simp [ofRequest, hends, hname, hnone])

/-- What is asked for with an operation is offered, and wants an answer with a body. -/
theorem of_operate {op : Operation} (h : ofRequest r = .ok (.operate op)) :
    op.IsOffered ∧ r.method ≠ "HEAD" := by
  unfold ofRequest at h
  split at h
  · simp at h
  · rename_i endpoint written hsegments
    simp only at h
    split at h
    · simp at h
    · rename_i hmethod
      split at h
      · simp at h
      · split at h
        · simp at h
        · rename_i parameter _ _ hlook
          obtain ⟨op', hop, heq⟩ := Steps.map_eq_ok.mp h
          obtain rfl := WebCall.operate.inj heq
          refine ⟨isOffered_of_operation hop, fun hhead => ?_⟩
          have hname : WebMethod.ofName r.method = .head := by rw [hhead]; rfl
          rw [hname] at hmethod hlook
          cases endpoint <;> simp_all [Endpoint.methods, view?, looks]

end WebCall

/-! ## The table -/

/-- The answer tells of success, with data. -/
def WebResponse.Succeeds (answer : WebResponse) : Prop :=
  answer.status = 200 ∧ ∃ data, answer.body = some (successJson data)

/-- The answer tells of a failure, with a status and the text of an error. -/
def WebResponse.Fails (answer : WebResponse) (status : Nat) (text : String) : Prop :=
  answer.status = status ∧ answer.body = some (failureJson text)

namespace Session

/-- A job that the operation of a client has come to is refused for a cause, with the failure that
the client is told. -/
def FailsFor (s : Session) (op : Operation) (f : Failure) (cause : Cause) : Prop :=
  ∃ last : Session,
    Later Succession.program (s.startFirst (s.world.duty (.ofJobs [.operate op]))) last ∧
      ∃ (d : Duty) (j : Job) (rest : List Job), last.ready.head? = some (s.next, d) ∧
        d.task.jobs = j :: rest ∧ op.ComesTo j ∧ (last.world.controllerAt d.place).Refuses j f cause

/-- A request that can be read is answered as documented: by the cause when it fails, together with
the text of the error, and with the status of success when it does not. -/
def AnswersByCause (s : Session) (anyOrigin : Bool) (r : WebRequest) : Prop :=
  match WebCall.ofRequest r with
  | .ok (.look _) => (s.serve anyOrigin r).1.status = 200 ∧
      (r.method ≠ "HEAD" → (s.serve anyOrigin r).1.Succeeds)
  | .ok (.operate op) => ∀ reply, (s.perform op).1 = some reply →
      match reply with
      | .failed f => ∃ cause, s.FailsFor op f cause ∧
          (s.serve anyOrigin r).1.Fails cause.status f.message
      | _ => (s.serve anyOrigin r).1.Succeeds
  | .error (.wrongPid text) => (s.serve anyOrigin r).1.Fails Cause.other.status (invalidPid text)
  | .error _ => True

variable {s : Session} {r : WebRequest} {op : Operation}

/-- A request to an endpoint with one of its methods is served as it is answered, wherever it comes
from. -/
theorem serve_eq (hpath : WebCall.ofRequest r ≠ .error .unknownPath)
    (hmethod : WebCall.ofRequest r ≠ .error .wrongMethod) (anyOrigin : Bool) :
    (s.serve anyOrigin r).1.status = (s.respond r).1.1 ∧
      (s.serve anyOrigin r).1.body = (s.respond r).1.2 ∧
        (s.serve anyOrigin r).2 = (s.respond r).2 := by
  have hoptions := WebCall.method_ne_options hpath hmethod
  rw [serve, if_neg (by simp [hoptions])]
  exact ⟨rfl, rfl, rfl⟩

/-- An operation that has got a reply is answered by it. -/
theorem serve_operate (hr : WebCall.ofRequest r = .ok (.operate op)) (anyOrigin : Bool)
    {reply : Reply} (hreply : (s.perform op).1 = some reply) :
    (s.serve anyOrigin r).1.status = (op.answer (s.perform op).2.controller reply).1 ∧
      (s.serve anyOrigin r).1.body = some (op.answer (s.perform op).2.controller reply).2 := by
  obtain ⟨-, hhead⟩ := WebCall.of_operate hr
  obtain ⟨hstatus, hbody, -⟩ := s.serve_eq (r := r) (by simp [hr]) (by simp [hr]) anyOrigin
  rw [hstatus, hbody, respond, hr]
  simp [answer, hreply, hhead]

/-- A failure is told with its status. -/
theorem fails_of_failed (hr : WebCall.ofRequest r = .ok (.operate op)) (anyOrigin : Bool)
    {f : Failure} (hreply : (s.perform op).1 = some (.failed f)) :
    (s.serve anyOrigin r).1.Fails f.status f.message := serve_operate hr anyOrigin hreply

/-- Any other reply is told as data. -/
theorem succeeds_of_reply (hr : WebCall.ofRequest r = .ok (.operate op)) (anyOrigin : Bool)
    {reply : Reply} (hreply : (s.perform op).1 = some reply) (hother : ∀ f, reply ≠ .failed f) :
    (s.serve anyOrigin r).1.Succeeds := by
  obtain ⟨hstatus, hbody⟩ := serve_operate hr anyOrigin hreply
  rw [WebResponse.Succeeds, hstatus, hbody]
  cases reply with
  | failed f => exact absurd rfl (hother f)
  | _ => exact ⟨rfl, _, rfl⟩

/-! ## Failing -/

/-- What the task of an operation is kept at: it comes to jobs of the operation only, and its reply
so far is no failure. -/
def KeepsTo (op : Operation) (d : Duty) : Prop :=
  (∀ j ∈ d.task.jobs, op.ComesTo j) ∧ ∀ f, d.task.reply ≠ .failed f

/-- One turn keeps the task of an operation at it. -/
theorem KeepsTo.step (hop : op.IsOffered) {now : Nat} {w w' : Succession} {d d' : Duty}
    {started : List Duty} (hd : KeepsTo op d)
    (hstep : Succession.program.step now w d = .goesOn w' started d') : KeepsTo op d' := by
  obtain ⟨j, rest, c, next, reply, hjobs, hrun, htask⟩ := Duty.step_eq_goesOn hstep
  obtain ⟨hcomes, hreply⟩ := hd
  have htraced : ((w.controllerAt d.place).run now j).IsTraced _ op j :=
    Controller.isTraced_run hop (hcomes j (hjobs ▸ List.mem_cons_self))
  rw [hrun] at htraced
  obtain ⟨hnext, hnew⟩ := htraced
  refine ⟨fun k hk => ?_, fun f => ?_⟩
  · rw [htask] at hk
    rcases List.mem_append.mp hk with hk | hk
    · exact hnext k hk
    · exact hcomes k (hjobs ▸ List.mem_cons_of_mem j hk)
  · rw [htask]
    cases reply with
    | none => exact hreply f
    | some r => exact fun hr => hnew f (congrArg some hr)

/-- A failure that a client is told has a cause. -/
theorem exists_failsFor (hs : s.Numbered) (hop : op.IsOffered) {f : Failure}
    (hreply : (s.perform op).1 = some (.failed f)) : ∃ cause, s.FailsFor op f cause := by
  have hfirst : KeepsTo op (s.world.duty (.ofJobs [.operate op])) :=
    ⟨fun j hj => List.mem_singleton.mp hj ▸ rfl, by simp [Succession.duty, Task.ofJobs]⟩
  obtain ⟨last, hlater, d, hd, hhead, w, started, hstep⟩ :=
    exists_last_of_call hs hfirst (fun _ _ _ _ _ _ hd => hd.step hop) hreply
  rcases Duty.step_eq_ends hstep with ⟨-, hf⟩ | ⟨j, rest, c, f', hjobs, hrun, hf⟩
  · exact absurd hf.symm (hd.2 f)
  · obtain rfl := Reply.failed.inj hf
    have hj := hd.1 j (hjobs ▸ List.mem_cons_self)
    have htraced : ((last.world.controllerAt d.place).run last.now j).IsTraced _ op j :=
      Controller.isTraced_run hop hj
    rw [hrun] at htraced
    obtain ⟨cause, hcause⟩ := htraced
    exact ⟨cause, last, hlater, d, j, rest, hhead, hjobs, hj, hcause⟩

/-! ## Edits of the roster -/

/-- An edit of the roster whose change is not saved fails with the error of the store. -/
theorem perform_of_unsaved (hs : s.Numbered) (hedits : op.editsRoster = true) {change : RowChange}
    (hchange : op.change? s.controller = some change) {e : StorageError}
    (he : (s.controller.store.change change).1 = .error e) :
    (s.perform op).1 = some (.failed (.loco (.storage e))) := by
  obtain ⟨c, hop⟩ := Controller.operate_of_unsaved s.now hedits hchange he
  exact (perform_of_fails hs hop).1

/-- Only an edit of the roster whose change is not saved fails with the error of the store. -/
theorem exists_unsaved_of_perform (hs : s.Numbered) (hoffered : op.IsOffered) {e : StorageError}
    (hreply : (s.perform op).1 = some (.failed (.loco (.storage e)))) :
    op.editsRoster = true ∧ ∃ change, op.change? s.controller = some change ∧
      (s.controller.store.change change).1 = .error e := by
  -- The cause is an edit; and an edit fails with its first job, in the session as it is.
  obtain ⟨cause, last, -, d, j, rest, -, -, hcomes, hcause⟩ := exists_failsFor hs hoffered hreply
  obtain ⟨op', -, rfl, hedits, -, -⟩ := hcause.of_storage
  obtain rfl : op' = op := hcomes
  have htraced : (s.controller.operate s.now op').IsTraced _ op' (.operate op') :=
    Controller.isTraced_operate hoffered
  rcases Controller.operate_editsRoster hedits with ⟨c, reply, hop⟩ | ⟨c, f, hop⟩
  · rw [hop] at htraced
    rw [(perform_of_done hs hop).1] at hreply
    cases reply with
    | none => simp at hreply
    | some r => exact absurd hreply (htraced.2 _)
  · rw [hop] at htraced
    rw [(perform_of_fails hs hop).1] at hreply
    obtain rfl := Reply.failed.inj (Option.some.inj hreply)
    obtain ⟨cause', hrefuses⟩ := htraced
    obtain ⟨op'', change, hj, hedits, hchange, he⟩ := hrefuses.of_storage
    obtain rfl := Job.operate.inj hj
    exact ⟨hedits, change, hchange, he⟩

/-- An edit of the roster whose change is not saved is answered as if the client had got something
wrong. -/
theorem not_answersByCause (hs : s.Numbered) (hr : WebCall.ofRequest r = .ok (.operate op))
    (hedits : op.editsRoster = true) {change : RowChange}
    (hchange : op.change? s.controller = some change) {e : StorageError}
    (he : (s.controller.store.change change).1 = .error e) (anyOrigin : Bool) :
    (s.serve anyOrigin r).1.Fails 400 e.message ∧ ¬ s.AnswersByCause anyOrigin r := by
  have hreply := perform_of_unsaved hs hedits hchange he
  have hfails := fails_of_failed hr anyOrigin hreply
  refine ⟨hfails, fun hanswers => ?_⟩
  simp only [AnswersByCause, hr] at hanswers
  obtain ⟨cause, ⟨last, -, d, j, rest, -, -, -, hcause⟩, hstatus, -⟩ := hanswers _ hreply
  exact hcause.status_iff.mp (hfails.1.symm.trans hstatus) e rfl

/-! ## The answers -/

/-- In every reachable session a request that can be read is answered as documented, unless it adds,
edits or deletes a loco and the store fails to save that. -/
theorem answersByCause_iff (h : s.Reachable) (anyOrigin : Bool) (r : WebRequest) :
    s.AnswersByCause anyOrigin r ↔
      ∀ op change, WebCall.ofRequest r = .ok (.operate op) → op.editsRoster = true →
        op.change? s.controller = some change → s.controller.store.Accepts change := by
  have hs := h.numbered
  constructor
  · intro hanswers op change hr hedits hchange
    cases he : (s.controller.store.change change).1 with
    | ok _ => exact he
    | error e => exact absurd hanswers (not_answersByCause hs hr hedits hchange he anyOrigin).2
  · intro hsaves
    unfold AnswersByCause
    split
    · rename_i v hr
      obtain ⟨hstatus, hbody, -⟩ := s.serve_eq (r := r) (by simp [hr]) (by simp [hr]) anyOrigin
      rw [WebResponse.Succeeds, hstatus, hbody, respond, hr]
      exact ⟨rfl, fun hhead => ⟨rfl, s.controller.viewJson v, by simp [answer, hhead]⟩⟩
    · rename_i op hr
      obtain ⟨hoffered, -⟩ := WebCall.of_operate hr
      intro reply hreply
      split
      · rename_i f
        obtain ⟨cause, hfails⟩ := exists_failsFor hs hoffered hreply
        obtain ⟨last, -, d, j, rest, -, -, -, hcause⟩ := id hfails
        have hstatus : f.status = cause.status := by
          refine hcause.status_iff.mpr ?_
          rintro e rfl
          obtain ⟨hedits, change, hchange, he⟩ := exists_unsaved_of_perform hs hoffered hreply
          have haccepts := hsaves op change hr hedits hchange
          simp [Store.Accepts, he] at haccepts
        exact ⟨cause, hfails, hstatus ▸ fails_of_failed hr anyOrigin hreply⟩
      · rename_i hother
        exact succeeds_of_reply hr anyOrigin hreply hother
    · rename_i text hr
      obtain ⟨hstatus, hbody, -⟩ := s.serve_eq (r := r) (by simp [hr]) (by simp [hr]) anyOrigin
      rw [WebResponse.Fails, hstatus, hbody, respond, hr]
      exact ⟨rfl, rfl⟩
    · trivial

/-! ## A store that is full -/

/-- A request for a new loco. -/
def newLoco : WebRequest :=
  ⟨"POST", "/api/locos", some "application/json", "\x7b\"name\": \"A\", \"address\": 3\x7d"⟩

theorem ofRequest_newLoco : WebCall.ofRequest newLoco = .ok (.operate (.addLoco "A" 3)) := by
  have hparameter : WebRequest.segmentText? [] = some [] := by
    simp [WebRequest.segmentText?, WebRequest.unescape, Text.ofUtf8?, Text.pieces_nil]
  rw [WebCall.ofRequest_eq (e := .locos) (by decide) (by decide) hparameter (by decide)]
  rfl

/-- Without locos, over a store that has no place for any. -/
def fullTrial : Session :=
  .ofController { Controller.bare with
    store := (Store.inMemory .empty).refusing ["insert_loco"] (.io "disk full") }

/-- With room in the store, the request for a new loco is answered as documented. -/
theorem answersByCause_newLoco :
    (ofController .bare).Reachable ∧ (ofController .bare).AnswersByCause true newLoco ∧
      ((ofController .bare).serve true newLoco).1.Succeeds := by
  have hreachable := Reachable.start .bare
  have hanswers : (ofController .bare).AnswersByCause true newLoco := by
    refine (answersByCause_iff hreachable true newLoco).mpr fun op change hr _ hchange => ?_
    obtain rfl := WebCall.operate.inj (Except.ok.inj (ofRequest_newLoco.symm.trans hr))
    obtain rfl := Option.some.inj hchange
    rfl
  refine ⟨hreachable, hanswers, ?_⟩
  obtain ⟨c, hop⟩ : ∃ c, (ofController .bare).controller.operate 0 (.addLoco "A" 3) =
      .done c [] (some (.loco (.standing "A" 3))) := ⟨_, rfl⟩
  simp only [AnswersByCause, ofRequest_newLoco] at hanswers
  exact hanswers _ (perform_of_done hreachable.numbered hop).1

/-- When the store has no room for it, the answer blames the request. -/
theorem not_answersByCause_fullTrial :
    fullTrial.Reachable ∧
      (fullTrial.serve true newLoco).1.Fails 400 "Storage I/O error: disk full" ∧
      ¬ fullTrial.AnswersByCause true newLoco := by
  have hreachable : fullTrial.Reachable := .start _
  exact ⟨hreachable, not_answersByCause hreachable.numbered ofRequest_newLoco rfl rfl rfl true⟩

end Session

end Signalbox
