import Signalbox.Proofs.Web.Answers

/-
  Signalbox/Proofs/Web/RunRequests.lean --- the loco that a request for a run names.

  The body of a request for a run is there to name a loco, and it may be left out.
  A body that names a loco leads to a run with that loco, or to a refusal if there
  is none.  But a body that cannot be read is taken for none at all: the run starts
  without a loco.  So does one that is not declared as JSON.
-/

set_option autoImplicit false

namespace Signalbox

/-! ## Requests for runs -/

namespace WebRequest

/-- The request asks for a run of a script. -/
def AsksToRun (r : WebRequest) (id : Int) : Prop :=
  r.method = "POST" ∧ ∃ written parameter,
    r.segments.bind Endpoint.ofSegments? = some (.run, written) ∧
      segmentText? written = some parameter ∧ Text.int64? parameter = some id

/-- The loco that the body names, if it names one, as an empty body does not; none if the body
cannot be read. -/
def namedLoco? (r : WebRequest) : Option (Option LocoId) :=
  if r.body = "" then some none
  else
    match Body.read [.optional "loco" LocoId.ofJson?] r.body with
    | .ok v => some (v.fieldAs? "loco" LocoId.ofJson?)
    | .error _ => none

variable {r : WebRequest} {id : Int}

/-- Only a body that claims to be JSON, and can be read, names a loco for a run. -/
theorem locoForRun_eq (r : WebRequest) :
    r.locoForRun = if r.claimsJson then r.namedLoco?.join else none := by
  unfold locoForRun record namedLoco?
  split
  · by_cases hempty : r.body = ""
    · rw [hempty]
      rfl
    · cases hread : Body.read [.optional "loco" LocoId.ofJson?] r.body <;> simp [hread, hempty]
  · rfl

theorem AsksToRun.ofRequest_eq (h : r.AsksToRun id) :
    WebCall.ofRequest r = .ok (.operate (.runScript id r.locoForRun)) := by
  obtain ⟨hmethod, written, parameter, hends, hparameter, hid⟩ := h
  rw [WebCall.ofRequest_eq hends (by rw [hmethod]; rfl) hparameter (by rw [hmethod]; rfl), hmethod]
  simp only [WebCall.operation, WebCall.number, hid]
  rfl

end WebRequest

/-! ## Runs that are started -/

namespace Controller

/-- Of two moments of a controller, the later one has one run more: one of the script, with the loco
of the handle, under a name of its own. -/
def StartsRun (c c' : Controller) (script : Script) (loco : Option LocoHandle) : Prop :=
  ∃ pid, c'.runs = c.runs.insert c.runs.size (.ofScript pid script loco) ∧
    c'.live = c.live.insert pid c.runs.size

/-- Both have the same runs. -/
def StartsNone (c c' : Controller) : Prop := c'.runs = c.runs ∧ c'.live = c.live

variable {c c' : Controller} {script script' : Script} {loco loco' : Option LocoHandle}

/-- A run has one loco. -/
theorem StartsRun.loco_eq (h : c.StartsRun c' script loco) (h' : c.StartsRun c' script' loco') :
    loco = loco' := by
  obtain ⟨pid, hruns, -⟩ := h
  obtain ⟨pid', hruns', -⟩ := h'
  have hrun : c'.runs.get? c.runs.size = some (.ofScript pid script loco) := by simp [hruns]
  have hrun' : c'.runs.get? c.runs.size = some (.ofScript pid' script' loco') := by simp [hruns']
  exact congrArg Run.loco (Option.some.inj (hrun.symm.trans hrun'))

theorem startsRun_startRun (c : Controller) (script : Script) (loco : Option LocoHandle)
    (root : Int) : c.StartsRun (c.startRun script loco root).2.takeStarted.2 script loco :=
  ⟨_, rfl, rfl⟩

end Controller

namespace Session

variable {s : Session} {r : WebRequest} {id : Int}

/-! ## Answers to requests for runs -/

/-- The request succeeds, and it has started a run of a script with a loco or without one. -/
def Runs (s : Session) (anyOrigin : Bool) (r : WebRequest) (script : Script)
    (loco : Option LocoHandle) : Prop :=
  (s.serve anyOrigin r).1.Succeeds ∧
    s.controller.StartsRun (s.serve anyOrigin r).2.controller script loco

/-- The request fails, and it has started no run. -/
def TurnsAway (s : Session) (anyOrigin : Bool) (r : WebRequest) : Prop :=
  (s.serve anyOrigin r).1.status ≠ 200 ∧
    s.controller.StartsNone (s.serve anyOrigin r).2.controller

/-- The request comes to a run with a loco, or with none: if the script drives one, exactly the
loco that is meant, which has to be there. -/
def RunsWith (s : Session) (anyOrigin : Bool) (r : WebRequest) (id : Int) (loco : Option LocoId) :
    Prop :=
  match s.controller.catalog.scripts.get? id with
  | none => s.TurnsAway anyOrigin r
  | some script =>
    match loco.filter fun _ => script.bindsLoco with
    | none => s.Runs anyOrigin r script none
    | some l =>
      match s.controller.roster.addressOf? l with
      | none => s.TurnsAway anyOrigin r
      | some address => s.Runs anyOrigin r script (some ⟨address, s.controller.defaultSync⟩)

/-- The body is taken at its word: it comes to a run with the loco that it names, and to none if it
cannot be read. -/
def RunsAsNamed (s : Session) (anyOrigin : Bool) (r : WebRequest) (id : Int) : Prop :=
  match r.namedLoco? with
  | some named => s.RunsWith anyOrigin r id named
  | none => s.TurnsAway anyOrigin r

theorem serve_session {op : Operation} (hr : WebCall.ofRequest r = .ok (.operate op))
    (anyOrigin : Bool) : (s.serve anyOrigin r).2 = (s.perform op).2 := by
  obtain ⟨-, -, hsession⟩ := s.serve_eq (r := r) (by simp [hr]) (by simp [hr]) anyOrigin
  rw [hsession, respond, hr]
  rfl

theorem Runs.not_turnsAway {anyOrigin : Bool} {script : Script} {loco : Option LocoHandle}
    (h : s.Runs anyOrigin r script loco) : ¬ s.TurnsAway anyOrigin r := fun haway => haway.1 h.1.1

/-- A request is turned away if its operation fails at once and has started no run by then. -/
theorem turnsAway_of_fails (hs : s.Numbered) {op : Operation}
    (hr : WebCall.ofRequest r = .ok (.operate op)) {c : Controller} {f : Failure}
    (hop : s.controller.operate s.now op = .fails c f) (hnone : s.controller.StartsNone c)
    (hstatus : f.status ≠ 200) (anyOrigin : Bool) : s.TurnsAway anyOrigin r := by
  obtain ⟨hreply, hafter⟩ := perform_of_fails hs hop
  refine ⟨?_, ?_⟩
  · rw [(fails_of_failed hr anyOrigin hreply).1]
    exact hstatus
  · rw [serve_session hr, hafter]
    exact hnone

/-- A request whose operation starts a run is answered with the name of the run. -/
theorem runs_of_startRun (hs : s.Numbered) {op : Operation}
    (hr : WebCall.ofRequest r = .ok (.operate op)) {script : Script} {loco : Option LocoHandle}
    (hop : s.controller.operate s.now op =
      .answers (s.controller.startRun script loco script.id).2
        (.started (s.controller.startRun script loco script.id).1)) (anyOrigin : Bool) :
    s.Runs anyOrigin r script loco := by
  obtain ⟨hreply, hafter⟩ := perform_of_done hs hop
  refine ⟨succeeds_of_reply hr anyOrigin hreply (by simp), ?_⟩
  rw [serve_session hr, hafter]
  exact Controller.startsRun_startRun _ _ _ _

/-- A request for a run comes to one with the loco that is made of its body. -/
theorem runsWith_locoForRun (hs : s.Numbered) (hr : r.AsksToRun id) (anyOrigin : Bool) :
    s.RunsWith anyOrigin r id r.locoForRun := by
  have hop : s.controller.operate s.now (.runScript id r.locoForRun) =
      s.controller.runScript id r.locoForRun := rfl
  unfold Controller.runScript at hop
  unfold RunsWith
  cases hscript : s.controller.catalog.scripts.get? id with
  | none =>
    rw [hscript] at hop
    exact turnsAway_of_fails hs hr.ofRequest_eq hop ⟨rfl, rfl⟩
      (by simp [Failure.status, RunError.status]) anyOrigin
  | some script =>
    rw [hscript] at hop
    simp only at hop ⊢
    cases hloco : r.locoForRun.filter fun _ => script.bindsLoco with
    | none =>
      rw [hloco] at hop
      exact runs_of_startRun hs hr.ofRequest_eq hop anyOrigin
    | some l =>
      rw [hloco] at hop
      simp only at hop ⊢
      cases haddress : s.controller.roster.addressOf? l with
      | none =>
        rw [haddress] at hop
        exact turnsAway_of_fails hs hr.ofRequest_eq hop ⟨rfl, rfl⟩ (by decide) anyOrigin
      | some address =>
        rw [haddress] at hop
        exact runs_of_startRun hs hr.ofRequest_eq hop anyOrigin

/-- A request whose body is not read starts a run without a loco. -/
theorem runs_of_unread (hs : s.Numbered) (hr : r.AsksToRun id)
    (hunread : r.claimsJson = false ∨ r.namedLoco? = none) {script : Script}
    (hscript : s.controller.catalog.scripts.get? id = some script) (anyOrigin : Bool) :
    s.Runs anyOrigin r script none := by
  have hnone : r.locoForRun = none := by
    rw [WebRequest.locoForRun_eq]
    rcases hunread with hclaims | hnamed
    · simp [hclaims]
    · simp [hnamed]
  have hruns := runsWith_locoForRun hs hr anyOrigin
  simpa only [RunsWith, hscript, hnone, Option.filter_none] using hruns

/-- So does a request whose body cannot be read, which should be turned away. -/
theorem not_runsAsNamed (hs : s.Numbered) (hr : r.AsksToRun id) (hnamed : r.namedLoco? = none)
    {script : Script} (hscript : s.controller.catalog.scripts.get? id = some script)
    (anyOrigin : Bool) : s.Runs anyOrigin r script none ∧ ¬ s.RunsAsNamed anyOrigin r id := by
  have hstarted := runs_of_unread hs hr (.inr hnamed) hscript anyOrigin
  simp only [RunsAsNamed, hnamed]
  exact ⟨hstarted, hstarted.not_turnsAway⟩

/-- A run of a script that is there is started as its body asks exactly if the body can be read, and
claims to be JSON unless it makes no difference. -/
theorem runsAsNamed_iff (h : s.Reachable) (hr : r.AsksToRun id) (anyOrigin : Bool) :
    s.RunsAsNamed anyOrigin r id ↔
      ∀ script, s.controller.catalog.scripts.get? id = some script →
        ∃ named, r.namedLoco? = some named ∧
          (r.claimsJson = true ∨ named.filter (fun _ => script.bindsLoco) = none) := by
  have hs := h.numbered
  have hruns := runsWith_locoForRun hs hr anyOrigin
  cases hscript : s.controller.catalog.scripts.get? id with
  | none =>
    refine iff_of_true ?_ (by simp)
    simp only [RunsWith, hscript] at hruns
    unfold RunsAsNamed
    split
    · simpa only [RunsWith, hscript] using hruns
    · exact hruns
  | some script =>
    simp only [Option.some.injEq, forall_eq']
    cases hnamed : r.namedLoco? with
    | none => exact iff_of_false (not_runsAsNamed hs hr hnamed hscript anyOrigin).2 (by simp)
    | some named =>
      simp only [RunsAsNamed, hnamed, Option.some.injEq, exists_eq_left']
      cases hclaims : r.claimsJson with
      | true =>
        refine iff_of_true ?_ (.inl rfl)
        simpa [WebRequest.locoForRun_eq, hclaims, hnamed] using hruns
      | false =>
        have hstarted := runs_of_unread hs hr (.inl hclaims) hscript anyOrigin
        simp only [RunsWith, hscript, Bool.false_eq_true, false_or]
        cases hloco : named.filter fun _ => script.bindsLoco with
        | none => exact iff_of_true hstarted rfl
        | some l =>
          refine iff_of_false ?_ (by simp)
          simp only
          split
          · exact hstarted.not_turnsAway
          · exact fun hbound => absurd (hstarted.2.loco_eq hbound.2) (by simp)

/-! ## A shuttle -/

/-- A script that drives a loco. -/
def shuttle : Script :=
  { id := 1
    name := "Shuttle"
    description := Script.defaultDescription
    kind := .automation
    trigger := none
    children := [.act (.drive .forward 40), .act (.delay 1000), .act .stop]
    source := "AUTOMATION(1, 'Shuttle') FWD(40) DELAY(1000) STOP DONE" }

/-- There is the script, and a loco for it. -/
def shuttleTrial : Session :=
  .ofController { Controller.bare with
    catalog := Catalog.empty.register shuttle
    roster := Roster.empty.insert (.standing "A" 3) }

/-- A request for a run of the script. -/
def shuttleRequest (body : String) : WebRequest :=
  ⟨"POST", "/api/automations/1/run", some "application/json", body⟩

theorem asksToRun_shuttleRequest (body : String) : (shuttleRequest body).AsksToRun 1 := by
  have hends : (shuttleRequest body).segments.bind Endpoint.ofSegments? = some (.run, ['1']) := by
    simp only [WebRequest.segments, shuttleRequest]
    decide
  have hpieces : Text.pieces [49] = [some '1'] := by
    rw [Text.pieces, List.drop_nil, Text.pieces_nil]
    rfl
  have hparameter : WebRequest.segmentText? ['1'] = some ['1'] := by
    change (Text.pieces [49]).mapM id = some ['1']
    rw [hpieces]
    rfl
  exact ⟨rfl, ['1'], ['1'], hends, hparameter, by decide⟩

/-- A run is started with the loco that is named. -/
theorem runsAsNamed_shuttleTrial :
    shuttleTrial.Reachable ∧ (shuttleRequest "\x7b\"loco\": \"A\"\x7d").AsksToRun 1 ∧
      shuttleTrial.Runs true (shuttleRequest "\x7b\"loco\": \"A\"\x7d") shuttle
        (some ⟨3, .all⟩) := by
  have hreachable : shuttleTrial.Reachable := .start _
  have hasks := asksToRun_shuttleRequest "\x7b\"loco\": \"A\"\x7d"
  have hnamed : (shuttleRequest "\x7b\"loco\": \"A\"\x7d").namedLoco? =
      some (some (.name "A")) := by decide
  have hruns := (runsAsNamed_iff hreachable hasks true).mpr
    fun script hscript => ⟨_, hnamed, .inl (by decide)⟩
  refine ⟨hreachable, hasks, ?_⟩
  simp only [RunsAsNamed, hnamed] at hruns
  exact hruns

/-- An address beyond all addresses, and an object without its end, are taken for no loco. -/
theorem not_runsAsNamed_shuttleTrial :
    shuttleTrial.Reachable ∧
      (shuttleTrial.Runs true (shuttleRequest "\x7b\"loco\": 70000\x7d") shuttle none ∧
        ¬ shuttleTrial.RunsAsNamed true (shuttleRequest "\x7b\"loco\": 70000\x7d") 1) ∧
      shuttleTrial.Runs true (shuttleRequest "\x7b\"loco\": 3") shuttle none ∧
        ¬ shuttleTrial.RunsAsNamed true (shuttleRequest "\x7b\"loco\": 3") 1 := by
  have hreachable : shuttleTrial.Reachable := .start _
  have hs := hreachable.numbered
  exact ⟨hreachable, not_runsAsNamed hs (asksToRun_shuttleRequest _) (by decide) rfl true,
    not_runsAsNamed hs (asksToRun_shuttleRequest _) (by decide) rfl true⟩

end Session

end Signalbox
