import Signalbox.Proofs.Control.Alone
import Signalbox.Proofs.Layout.Renewal

/-
  Signalbox/Proofs/Control/Renewal.lean --- asking twice in a row for the same route.

  The second call finds the route set and its turnouts in place.  So it has no turnout to
  see to: it ends in one step, without waiting for the hardware, and only tells clients
  that the components of the route are free and held again, and which route it is.
-/

set_option autoImplicit false

namespace Signalbox

namespace Controller

variable {c c' : Controller} {now : Nat} {start finish : NodeId} {o again : RouteOutcome}
  {l : Layout}

/-! ## The second call -/

/-- What clients are told when a route is renewed; no turnout is among it. -/
def renewalEvents (r : Route) : List Event :=
  [.released r.components, .held r.components, .route r]

theorem routeEvents_of_renews (h : Interlocking.Renews o again) :
    routeEvents again = renewalEvents o.route := by
  -- The ends of a route are among its components, so that something is released.
  have hsome : o.route.components.isEmpty = false := rfl
  rw [routeEvents, releasedEvents, h.released, h.changes, h.route, hsome]
  rfl

/-- A call for a route in a controller renews the route.  The call ends, and however it ends it
answers the route that is set, starts no task and changes nothing but the interlocking; in
particular it writes nothing into the store and calls no driver. -/
structure RenewsRoute (c : Controller) (now : Nat) (start finish : NodeId) (o : RouteOutcome) :
    Prop where
  ends : ∃ c' started reply,
    Task.Completes now c (.ofJobs [.operate (.setRoute start finish)]) c' started reply
  leaves : ∀ c' started reply,
    Task.Completes now c (.ofJobs [.operate (.setRoute start finish)]) c' started reply →
      ∃ again, Interlocking.Renews o again ∧ reply = .route again.id o.route ∧ started = [] ∧
        c' = { c with
          interlocking := again.after
          events := c.events ++ renewalEvents o.route }

/-- A controller that has a route set as a call has left it renews it. -/
theorem renewsRoute_of_after (hstarted : c.started = []) (hafter : c.interlocking = o.after)
    (hagain : o.after.setRoute start finish = .ok again) (hrenews : Interlocking.Renews o again)
    (now : Nat) : c.RenewsRoute now start finish o := by
  have hrun : c.run now (.operate (.setRoute start finish)) =
      .done (tellAll { c with interlocking := again.after } (renewalEvents o.route)) []
        (some (.route again.id o.route)) := by
    simp only [run, operate, setRoute, hafter, hagain, hrenews.changes, nextSetting,
      routeEvents_of_renews hrenews, hrenews.route]
  refine ⟨⟨_, _, _, Task.completes_of_done hrun Task.completes_over⟩, ?_⟩
  intro c' started reply hdone
  obtain ⟨later, hrest, rfl⟩ := hdone.of_done hrun
  obtain ⟨rfl, rfl, rfl⟩ := hrest.ended
  refine ⟨again, hrenews, rfl, ?_, ?_⟩
  · rw [List.append_nil]
    exact hstarted
  · simp only [tellAll, ← hstarted]

/-! ## The first call -/

/-- A call that sets a route answers it and leaves the interlocking with it set. -/
theorem Concludes.of_setRoute {started : List Task} {reply : Reply}
    (h : c.Concludes (.setRoute start finish) c' started reply)
    (ho : c.interlocking.setRoute start finish = .ok o) :
    reply = .route o.id o.route ∧ c'.interlocking = o.after ∧ c'.started = [] := by
  cases h with
  | routeRefused refused => simp [ho] at refused
  | route found _ sees =>
    obtain rfl := Except.ok.inj (ho.symm.trans found)
    obtain ⟨told, -, hleft⟩ := sees.left
    exact ⟨rfl, congrArg Controller.interlocking hleft, congrArg Controller.started hleft⟩

/-- Whatever layout was loaded and whatever calls came before, a call that sets a route ends, and
the same call right after it renews the route.  It does so whatever has become of the store by
then: a write of what is there already would show in some other store. -/
theorem renewsRoute_afterAll (nodes : List Node) (links : List Link)
    (calls : List Interlocking.Call)
    (hc : c.interlocking = (Interlocking.ofLayout (.ofParts nodes links)).afterAll calls)
    (ho : c.interlocking.setRoute start finish = .ok o) (now : Nat) :
    (∃ c' started reply,
      Task.Completes now c (.ofJobs [.operate (.setRoute start finish)]) c' started reply) ∧
    ∀ c' started reply,
      Task.Completes now c (.ofJobs [.operate (.setRoute start finish)]) c' started reply →
        reply = .route o.id o.route ∧
          ∀ later store, RenewsRoute { c' with store := store } later start finish o := by
  let l := Layout.ofParts nodes links
  have hl : l.Keyed := Layout.keyed_ofParts nodes links
  have hsound : Interlocking.Sound l c.interlocking :=
    hc ▸ (Interlocking.sound_ofLayout l).afterAll calls
  have hvaries : l.Varies c.interlocking.layout :=
    hc ▸ (Interlocking.ofLayout l).varies_afterAll calls
  have hanswers : c.AnswersAlone now (.setRoute start finish) :=
    answersAlone_setRoute hsound hl hvaries start finish
  obtain ⟨hends, hconcludes⟩ := hanswers
  obtain ⟨again, hagain, hrenews⟩ := hsound.renews hl hvaries ho
  refine ⟨hends, fun c' started reply hdone => ?_⟩
  obtain ⟨hreply, hafter, hstarted⟩ := (hconcludes c' started reply hdone).of_setRoute ho
  refine ⟨hreply, fun later store => ?_⟩
  apply renewsRoute_of_after
  · exact hstarted
  · exact hafter
  · exact hagain
  · exact hrenews

/-- A route to the shed throws both turnouts of the station, and setting it again throws none. -/
theorem renewsRoute_station :
    stationController.interlocking =
        (Interlocking.ofLayout (.ofParts stationNodes stationLinks)).afterAll [.setRoute 1 2] ∧
      ∃ o, stationController.interlocking.setRoute 1 4 = .ok o ∧
        o.changes = [⟨10, .thrown⟩, ⟨11, .thrown⟩] ∧
        ∃ c' started reply,
          Task.Completes 0 stationController (.ofJobs [.operate (.setRoute 1 4)]) c' started
            reply ∧ c'.RenewsRoute 0 1 4 o := by
  obtain ⟨o, ho, hchanges⟩ : ∃ o, stationController.interlocking.setRoute 1 4 = .ok o ∧
      o.changes = [⟨10, .thrown⟩, ⟨11, .thrown⟩] :=
    Steps.map_toOption_eq_some.mp (by decide +kernel)
  obtain ⟨⟨c', started, reply, hdone⟩, hrenews⟩ :=
    renewsRoute_afterAll stationNodes stationLinks [.setRoute 1 2] rfl ho 0
  exact ⟨rfl, o, ho, hchanges, c', started, reply, hdone,
    (hrenews c' started reply hdone).2 0 c'.store⟩

end Controller

end Signalbox
