import Signalbox.Proofs.Control.Catalog
import Signalbox.Proofs.Control.Reports
import Signalbox.Proofs.Control.Traffic

/-
  Signalbox/Proofs/Control/Order.lean --- tables that stay in order.

  Whatever happens to a controller that was loaded, the tables of its layout and of its
  catalog stay in order, and every script of the catalog that handles an event is also
  found under the event.  Few jobs have to be looked into: those of the layout and
  those of the catalog.
-/

set_option autoImplicit false

namespace Signalbox

/-! ## Handlers -/

theorem TurnoutEvent.eq_of_handlerId {a b : TurnoutEvent} (h : a.handlerId = b.handlerId) :
    a = b := by
  obtain ⟨turnout, state⟩ := a
  obtain ⟨turnout', state'⟩ := b
  cases state <;> cases state' <;> simp only [handlerId] at h <;>
    first
    | exact congrArg (TurnoutEvent.mk · _) (by omega)
    | omega

instance : IsStrictTotalOrder TurnoutEvent (· < ·) where
  irrefl a := Int.lt_irrefl a.handlerId
  trans _ _ _ := Int.lt_trans
  trichotomous _ _ hab hba := TurnoutEvent.eq_of_handlerId
    (Int.le_antisymm (Int.not_lt.mp hba) (Int.not_lt.mp hab))

/-- A handler has the number of its event. -/
def Script.IsNumbered (s : Script) : Prop := ∀ e, s.trigger = some e → s.id = e.handlerId

theorem Script.IsKept.isNumbered {s : Script} (h : s.IsKept) : s.IsNumbered := by
  intro e he
  obtain ⟨id, name, description, kind, trigger, children, source⟩ := s
  cases h with
  | user => simp at he
  | handler => exact congrArg TurnoutEvent.handlerId (Option.some.inj he)

/-! ## Catalogs -/

namespace Catalog

/-- The tables are in order, and a script with a trigger is the handler for it. -/
structure InOrder (c : Catalog) : Prop where
  scripts : c.scripts.KeyedBy Script.id
  handlers : c.handlers.Ascending
  trigger : ∀ id s e, c.scripts.get? id = some s → s.trigger = some e →
    s.IsNumbered ∧ c.handlers.get? e = some s

variable {c : Catalog} {s : Script}

theorem inOrder_empty : empty.InOrder :=
  ⟨Table.keyedBy_empty _, Table.ascending_empty, by simp [empty, Table.get?_empty]⟩

/-- What a handler is found under is decided by its number. -/
theorem InOrder.ne_trigger (h : c.InOrder) {id : Int} {t : Script} {e e' : TurnoutEvent}
    (ht : c.scripts.get? id = some t) (hte : t.trigger = some e) (hs : s.IsNumbered)
    (hse : s.trigger = some e') (hne : s.id ≠ id) : e' ≠ e := by
  rintro rfl
  obtain ⟨hnumbered, -⟩ := h.trigger id t e' ht hte
  exact hne (by rw [hs e' hse, ← hnumbered e' hte, h.scripts.id_eq id t ht])

theorem InOrder.register (h : c.InOrder) (hs : s.IsNumbered) : (c.register s).InOrder := by
  refine ⟨h.scripts.insert s, ?_, fun id t e ht hte => ?_⟩
  · rw [Catalog.register]
    split
    · exact h.handlers.insert _ _
    · exact h.handlers
  · rw [Catalog.register, Table.get?_insert] at ht
    split at ht
    · obtain rfl := Option.some.inj ht
      refine ⟨hs, ?_⟩
      simp [Catalog.register, hte]
    · rename_i hne
      obtain ⟨hnumbered, hfound⟩ := h.trigger id t e ht hte
      refine ⟨hnumbered, ?_⟩
      rw [Catalog.register]
      split
      · rename_i e' hse
        rw [Table.get?_insert, if_neg (h.ne_trigger ht hte hs hse hne), hfound]
      · exact hfound

theorem InOrder.unregister (h : c.InOrder) {id : Int} {c' : Catalog}
    (hc' : c.unregister? id = some c') : c'.InOrder := by
  obtain ⟨s, hs, rfl⟩ := Option.map_eq_some_iff.mp hc'
  have hid := h.scripts.id_eq id s hs
  refine ⟨⟨h.scripts.ascending.erase id, fun key t ht => ?_⟩, ?_, fun key t e ht hte => ?_⟩
  · rw [Table.get?_erase] at ht
    split at ht
    · simp at ht
    · exact h.scripts.id_eq key t ht
  · split
    · exact h.handlers.erase _
    · exact h.handlers
  · rw [Table.get?_erase] at ht
    split at ht
    · simp at ht
    · rename_i hne
      obtain ⟨hnumbered, hfound⟩ := h.trigger key t e ht hte
      refine ⟨hnumbered, ?_⟩
      split
      · rename_i e' hse
        obtain ⟨hs', -⟩ := h.trigger id s e' hs hse
        rw [Table.get?_erase, if_neg (h.ne_trigger ht hte hs' hse (hid ▸ hne)), hfound]
      · exact hfound

end Catalog

/-- What registering, describing and unregistering a script keep true of a catalog. -/
structure Catalog.Lasts (P : Catalog → Prop) : Prop where
  register : ∀ {c : Catalog} {s : Script}, P c → s.IsKept → P (c.register s)
  describe : ∀ {c : Catalog} {id : Int} {s : Script} (text : String), P c →
    c.scripts.get? id = some s → P (c.register { s with description := text })
  unregister : ∀ {c c' : Catalog} {id : Int}, P c → c.unregister? id = some c' → P c'

theorem Catalog.Lasts.registerAll {P : Catalog → Prop} (hP : Catalog.Lasts P) {c : Catalog}
    (h : P c) {scripts : List Script} (hs : ∀ s ∈ scripts, s.IsKept) :
    P (c.registerAll scripts) := by
  induction scripts generalizing c with
  | nil => exact h
  | cons s scripts ih =>
    exact ih (hP.register h (hs s List.mem_cons_self)) fun t ht => hs t (List.mem_cons_of_mem _ ht)

theorem Catalog.lasts_inOrder : Catalog.Lasts Catalog.InOrder where
  register h hs := h.register hs.isNumbered
  describe _ h hscript := h.register fun e he => (h.trigger _ _ e hscript he).1 e he
  unregister h := h.unregister

/-- What compiling makes of a text are scripts to be kept, and so are those of a saved row. -/
theorem Script.isKept_of_compile {text : String} {scripts : List Script}
    (h : Script.compile text = .ok scripts) : ∀ s ∈ scripts, s.IsKept := fun s hs =>
  (Script.regular_of_compile h s hs).isKept

theorem Catalog.isKept_scriptsOf (rows : List StoredScript) :
    ∀ s ∈ Catalog.scriptsOf rows, s.IsKept := by
  intro s hs
  obtain ⟨row, -, hs⟩ := List.mem_flatMap.mp hs
  unfold StoredScript.scripts at hs
  split at hs
  · rename_i scripts hcompile
    obtain ⟨t, ht, rfl⟩ := List.mem_map.mp hs
    have hkept := Script.isKept_of_compile hcompile t ht
    unfold Script.described
    split
    · exact hkept
    · exact hkept.describe row.description
  · simp at hs

/-! ## Controllers -/

namespace Controller

/-- The layout and the catalog are in order. -/
structure InOrder (c : Controller) : Prop where
  layout : c.interlocking.layout.InOrder
  catalog : c.catalog.InOrder

variable {c c' : Controller}

theorem InOrder.of_eq (h : c.InOrder) (hlayout : c'.interlocking = c.interlocking)
    (hcatalog : c'.catalog = c.catalog) : c'.InOrder :=
  ⟨hlayout ▸ h.layout, hcatalog ▸ h.catalog⟩

theorem inOrder_load {store : Store} {adapter : Adapter} {sync : SyncLevel}
    (h : load store adapter sync = .ok c) : c.InOrder := by
  obtain ⟨nodes, links, roster, rows, -, rfl⟩ := load_eq h
  exact ⟨Layout.inOrder_ofParts nodes links,
    Catalog.lasts_inOrder.registerAll Catalog.inOrder_empty (Catalog.isKept_scriptsOf rows)⟩

/-! ### The catalog -/

section Lasts

variable {P : Catalog → Prop}

theorem lasts_addScripts (hP : Catalog.Lasts P) (h : P c.catalog) {scripts : List Script}
    (hs : ∀ s ∈ scripts, s.IsKept) : P (c.addScripts scripts).2.2.catalog := by
  induction scripts generalizing c with
  | nil => exact h
  | cons s scripts ih =>
    rw [addScripts]
    split
    · rename_i hsave
      obtain rfl := congrArg Prod.snd hsave
      exact h
    · rename_i hsave
      obtain rfl := congrArg Prod.snd hsave
      exact ih (hP.register h (hs s List.mem_cons_self)) fun t ht =>
        hs t (List.mem_cons_of_mem _ ht)

theorem lasts_upload (hP : Catalog.Lasts P) (h : P c.catalog) (text : String) :
    P ((c.upload text).leaving c).catalog := by
  simp only [upload]
  split
  · exact h
  · rename_i scripts hcompile
    have hadded := lasts_addScripts hP h (Script.isKept_of_compile hcompile)
    split
    · exact hadded
    · exact hadded

theorem lasts_deleteScript (hP : Catalog.Lasts P) (h : P c.catalog) (id : Int) :
    P ((c.deleteScript id).leaving c).catalog := by
  simp only [deleteScript]
  split
  · exact h
  · rename_i catalog hcatalog
    have hdropped := hP.unregister h hcatalog
    split <;> rename_i hsave
    all_goals
      obtain rfl := congrArg Prod.snd hsave
      exact hdropped

theorem lasts_describe (hP : Catalog.Lasts P) (h : P c.catalog) (id : Int) (text : String) :
    P ((c.describe id text).leaving c).catalog := by
  simp only [describe]
  split
  · exact h
  · rename_i s hscript
    have hregistered := hP.describe text h hscript
    split <;> rename_i hsave
    all_goals
      obtain rfl := congrArg Prod.snd hsave
      exact hregistered

/-- It is still true of the catalog after whatever job. -/
theorem lasts_run (hP : Catalog.Lasts P) (h : P c.catalog) (now : Nat) (j : Job) :
    P ((c.run now j).leaving c).catalog := by
  by_cases hs : j.sphere? = some .catalog
  · cases j with
    | operate op =>
      cases op with
      | upload text => exact lasts_upload hP h text
      | loadScripts =>
        simp only [run, operate, loadScripts]
        split
        · exact h
        · exact hP.registerAll h (Catalog.isKept_scriptsOf _)
      | deleteScript id => exact lasts_deleteScript hP h id
      | describe id text => exact lasts_describe hP h id text
      | _ => simp [Job.sphere?, Operation.sphere?] at hs
    | command id part cmd =>
      cases cmd with
      | act a => cases a <;> simp [Job.sphere?] at hs
      | test wanted turnout body => simp [Job.sphere?] at hs
    | _ => simp [Job.sphere?] at hs
  · have hcatalog : _ = c.catalog := leaves_leaving (leaves_run now hs)
    rw [hcatalog]
    exact h

end Lasts

end Controller

/-! ## Worlds -/

/-- It is still true of the catalog after whatever happens. -/
theorem World.lasts_after {P : Catalog → Prop} (hP : Catalog.Lasts P) {w : World}
    (h : P w.controller.catalog) (m : World.Move) : P (w.after m).controller.catalog := by
  cases hjob : w.job? m with
  | none =>
    obtain ⟨store, faults, hsame⟩ := World.after_of_no_job hjob
    rwa [hsame]
  | some j =>
    obtain ⟨started, hafter⟩ := World.after_of_job hjob
    rw [hafter]
    exact Controller.lasts_run hP h w.now j

theorem World.lasts_afterAll {P : Catalog → Prop} (hP : Catalog.Lasts P) {w : World}
    (h : P w.controller.catalog) (moves : List World.Move) :
    P (w.afterAll moves).controller.catalog := by
  induction moves generalizing w with
  | nil => exact h
  | cons m moves ih => exact ih (World.lasts_after hP h m)

/-- What some moves lead to from a controller that has been loaded. -/
inductive World.Loaded : World → Prop
  | start {store : Store} {adapter : Adapter} {sync : SyncLevel} {c : Controller}
      (load : Controller.load store adapter sync = .ok c) : Loaded (.ofController c)
  | configured {store : Store} {config : Config} {connect : String → Attempt} {c : Controller}
      (load : Controller.ofConfig store config connect = .ok c) : Loaded (.ofController c)
  | move {w : World} (m : World.Move) (h : Loaded w) : Loaded (w.after m)

theorem World.Loaded.afterAll {w : World} (h : w.Loaded) (moves : List World.Move) :
    (w.afterAll moves).Loaded := by
  induction moves generalizing w with
  | nil => exact h
  | cons m moves ih => exact ih (h.move m)

theorem Controller.inOrder_ofConfig {store : Store} {config : Config} {connect : String → Attempt}
    {c : Controller} (h : Controller.ofConfig store config connect = .ok c) : c.InOrder := by
  obtain ⟨c', hload, h⟩ := Steps.bind_eq_ok.mp h
  have horder := Controller.inOrder_load hload
  obtain rfl := Except.ok.inj h
  split
  · exact horder
  · exact horder.of_eq rfl rfl

/-- In every world of a controller that was loaded, layout and catalog are in order. -/
theorem World.Loaded.inOrder {w : World} (h : w.Loaded) : w.controller.InOrder := by
  induction h with
  | start load => exact (Controller.inOrder_load load).of_eq rfl rfl
  | configured load => exact (Controller.inOrder_ofConfig load).of_eq rfl rfl
  | @move w m _ ih =>
    exact ⟨ih.layout.varies (w.varies_after m), lasts_after Catalog.lasts_inOrder ih.catalog m⟩

end Signalbox
