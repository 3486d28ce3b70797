import Signalbox.Proofs.Control.Spheres
import Signalbox.Proofs.Control.Writes
import Signalbox.Proofs.Script.Compiled

/-
  Signalbox/Proofs/Control/Catalog.lean --- the catalog after a restart.

  Of a script only its source and its description are saved.  Through every edit the
  rows of the store are those of the catalog, and every script of the catalog is what
  compiling made of some text, but for its description.  So a new controller of the
  same store makes each script again from its source.

  The script comes back as it was, but for what the source cannot say: a name without
  its quotes, with one space between its words, and an empty description.
-/

set_option autoImplicit false

namespace Signalbox

/-! ## Scripts that are loaded again -/

namespace Script

variable {s : Script}

/-- A script that is regular but for its description. -/
def IsKept (s : Script) : Prop := Regular { s with description := defaultDescription }

/-- The script that is loaded for a script that was saved. -/
def reloaded (s : Script) : Script := described s.description s.reread

theorem Regular.description_eq (h : s.Regular) : s.description = defaultDescription := by
  cases h <;> rfl

theorem Regular.isKept (h : s.Regular) : s.IsKept := by
  have heq : ({ s with description := defaultDescription } : Script) = s := by
    rw [← h.description_eq]
  rwa [IsKept, heq]

/-- Describing a script keeps all else. -/
theorem IsKept.describe (h : s.IsKept) (text : String) :
    IsKept { s with description := text } := h

/-- The row of a script is loaded as one script. -/
theorem IsKept.scripts_row (h : s.IsKept)
    (hname : s.trigger = none → marksComment (unquoted s.name) = false) :
    s.row.scripts = [s.reloaded] := by
  have hregular : Regular { s with description := defaultDescription } := h
  have hcompile : compile s.row.source = .ok [s.reread] := hregular.compile_source hname
  rw [StoredScript.scripts, hcompile]
  rfl

/-- What a script is after a restart. -/
structure Survives (s : Script) : Prop where
  id : s.reloaded.id = s.id
  kind : s.reloaded.kind = s.kind
  trigger : s.reloaded.trigger = s.trigger
  children : s.reloaded.children = s.children
  description : s.reloaded.description =
    if s.description.isEmpty then defaultDescription else s.description
  name : s.trigger = none → s.reloaded.name =
    if Text.isBlankText (readName s.name).toList then s.kind.title ++ " " ++ Text.ofInt s.id
    else readName s.name
  source : s.reloaded.source = s.reloaded.canonicalSource
  /-- Nothing is lost of a script with a description whose name the source gives back. -/
  whole : s.description.isEmpty = false → (s.trigger = none → readName s.name = s.name) →
    s.reloaded = s

theorem reloaded_eq (s : Script) : s.reloaded = { s.reread with
    description := if s.description.isEmpty then s.reread.description else s.description } := by
  rw [reloaded, described]
  split <;> rfl

theorem canonicalSource_describe (s : Script) (text : String) :
    canonicalSource { s with description := text } = s.canonicalSource := rfl

theorem source_withSource (s : Script) : s.withSource.source = s.withSource.canonicalSource := rfl

theorem source_reread (s : Script) : s.reread.source = s.reread.canonicalSource := by
  unfold reread
  split
  · exact source_withSource _
  · exact source_withSource _

theorem description_reread (s : Script) : s.reread.description = defaultDescription := by
  unfold reread
  split <;> rfl

theorem name_reread (h : s.trigger = none) : s.reread.name =
    if Text.isBlankText (readName s.name).toList then s.kind.title ++ " " ++ Text.ofInt s.id
    else readName s.name := by
  have hname : ∀ (kind : ScriptKind) (id : Int) (name : String) (children : List Command),
      (ofUser kind id name children).name =
        if Text.isBlankText name.toList then kind.title ++ " " ++ Text.ofInt id else name :=
    fun _ _ _ _ => rfl
  rw [reread, h, hname]

theorem IsKept.survives (h : s.IsKept) : s.Survives := by
  obtain ⟨hid, hkind, htrigger, hchildren⟩ : s.reread.id = s.id ∧ s.reread.kind = s.kind ∧
      s.reread.trigger = s.trigger ∧ s.reread.children = s.children := by
    obtain ⟨id, name, description, kind, trigger, children, source⟩ := s
    cases h <;> exact ⟨rfl, rfl, rfl, rfl⟩
  have hreloaded := s.reloaded_eq
  rw [s.description_reread] at hreloaded
  have hwhole : (s.trigger = none → readName s.name = s.name) →
      s.reread = { s with description := defaultDescription } := Regular.reread_eq h
  refine ⟨?_, ?_, ?_, ?_, ?_, fun hnone => ?_, ?_, fun hfull hsame => ?_⟩ <;> rw [hreloaded]
  · exact hid
  · exact hkind
  · exact htrigger
  · exact hchildren
  · exact name_reread hnone
  · rw [canonicalSource_describe]
    exact s.source_reread
  · rw [hfull, if_neg Bool.false_ne_true, hwhole hsame]

end Script

namespace Catalog

/-- Scripts under their ids are registered as they are. -/
theorem scripts_registerAll {t : Table Int Script} (h : t.KeyedBy Script.id) :
    (empty.registerAll t.values).scripts = t := by
  have hfold : ∀ (scripts : List Script) (c : Catalog), (c.registerAll scripts).scripts =
      (scripts.map fun s => (s.id, s)).foldl (fun t row => t.insert row.1 row.2) c.scripts := by
    intro scripts
    induction scripts with
    | nil => exact fun _ => rfl
    | cons s scripts ih => exact fun c => ih (c.register s)
  have hrows : (t.values.map fun s => (s.id, s)) = t.rows := by
    rw [Table.values, List.map_map]
    refine (List.map_congr_left fun row hrow => ?_).trans (List.map_id _)
    obtain ⟨key, s⟩ := row
    exact Prod.ext (h.id_eq key s (h.ascending.mem_rows_iff.mp hrow)) rfl
  rw [hfold, hrows]
  exact h.ascending.ofList_rows

end Catalog

/-! ## Edits -/

/-- A call that changes the catalog. -/
inductive ScriptEdit where
  | upload (text : String)
  | describe (id : Int) (text : String)
  | delete (id : Int)
  deriving DecidableEq, Repr

/-- The edit as an operation. -/
def ScriptEdit.operation : ScriptEdit → Operation
  | upload text => .upload text
  | describe id text => .describe id text
  | delete id => .deleteScript id

namespace Controller

variable {c c' : Controller} {s : Script}

/-- The controller after an edit, whether it succeeds or fails. -/
def edited (c : Controller) (e : ScriptEdit) : Controller := (c.operate 0 e.operation).leaving c

/-- The controller after some edits, one after the other. -/
def editedAll (c : Controller) (edits : List ScriptEdit) : Controller := edits.foldl edited c

/-- The store never fails and has the rows of the catalog, whose scripts are made of their
sources. -/
structure Keeps (c : Controller) : Prop where
  store : c.store.NeverFails
  rows : c.store.rows.scripts = c.catalog.scripts.map Script.row
  keyed : c.catalog.scripts.KeyedBy Script.id
  kept : ∀ id s, c.catalog.scripts.get? id = some s → s.IsKept

theorem Keeps.of_eq (h : c.Keeps) (hstore : c'.store = c.store)
    (hcatalog : c'.catalog = c.catalog) : c'.Keeps := by
  obtain ⟨hfails, hrows, hkeyed, hkept⟩ := h
  rw [← hstore, ← hcatalog] at hrows
  exact ⟨hstore ▸ hfails, hrows, hcatalog ▸ hkeyed, hcatalog ▸ hkept⟩

theorem keeps_empty (hstore : c.store.NeverFails) (hrows : c.store.rows.scripts = Table.empty)
    (hcatalog : c.catalog = .empty) : c.Keeps := by
  refine ⟨hstore, ?_, ?_, ?_⟩ <;> rw [hcatalog]
  · exact hrows
  · exact Table.keyedBy_empty _
  · intro id s hs
    simp [Catalog.empty, Table.get?_empty] at hs

/-- A script is saved and registered. -/
theorem Keeps.save (h : c.Keeps) (hs : s.IsKept) :
    ∃ store, c.store.change (.saveScript s.row) = (.ok (), store) ∧
      Keeps { c with store := store, catalog := c.catalog.register s } := by
  obtain ⟨store, hchange, hstore, hrows⟩ := h.store.change
    (rfl : c.store.rows.apply (.saveScript s.row) = .ok (c.store.rows.withScript s.row))
  refine ⟨store, hchange, hstore, ?_, h.keyed.insert s, fun id t ht => ?_⟩
  · rw [hrows]
    exact (congrArg (·.insert s.id s.row) h.rows).trans (Table.map_insert _ _ _ _).symm
  · rw [Catalog.register, Table.get?_insert] at ht
    split at ht
    · rwa [← Option.some.inj ht]
    · exact h.kept id t ht

/-- All scripts of an upload come in. -/
theorem Keeps.addScripts (h : c.Keeps) {scripts : List Script} (hs : ∀ s ∈ scripts, s.IsKept) :
    ∃ c', c.addScripts scripts = (scripts.map Script.id, none, c') ∧ c'.Keeps := by
  induction scripts generalizing c with
  | nil => exact ⟨c, rfl, h⟩
  | cons s scripts ih =>
    obtain ⟨store, hchange, hkeeps⟩ := h.save (hs s List.mem_cons_self)
    obtain ⟨c', hadd, hkeeps'⟩ := ih hkeeps fun t ht => hs t (List.mem_cons_of_mem _ ht)
    refine ⟨c', ?_, hkeeps'⟩
    simp only [Controller.addScripts, Controller.save, hchange, hadd, List.map_cons]

theorem Keeps.upload (h : c.Keeps) (text : String) : ((c.upload text).leaving c).Keeps := by
  unfold Controller.upload
  cases hcompile : Script.compile text with
  | error e => exact h.of_eq rfl rfl
  | ok scripts =>
    obtain ⟨c', hadd, hkeeps⟩ := h.addScripts fun s hs =>
      (Script.regular_of_compile hcompile s hs).isKept
    simp only [hadd]
    exact hkeeps.of_eq rfl rfl

theorem Keeps.describe (h : c.Keeps) (id : Int) (text : String) :
    ((c.describe id text).leaving c).Keeps := by
  unfold Controller.describe
  split
  · exact h
  · rename_i s hs
    obtain ⟨store, hchange, hkeeps⟩ := h.save ((h.kept id s hs).describe text)
    simp only [Controller.save, hchange]
    exact hkeeps.of_eq rfl rfl

theorem Keeps.deleteScript (h : c.Keeps) (id : Int) : ((c.deleteScript id).leaving c).Keeps := by
  unfold Controller.deleteScript
  split
  · exact h
  · rename_i catalog hcatalog
    have hscripts : catalog.scripts = c.catalog.scripts.erase id := by
      obtain ⟨s, -, rfl⟩ := Option.map_eq_some_iff.mp hcatalog
      rfl
    obtain ⟨store, hchange, hstore, hrows⟩ := h.store.change
      (rfl : c.store.rows.apply (.deleteScript id) =
        .ok { c.store.rows with scripts := c.store.rows.scripts.erase id })
    have hget : ∀ key t, catalog.scripts.get? key = some t →
        c.catalog.scripts.get? key = some t := by
      intro key t ht
      rw [hscripts, Table.get?_erase] at ht
      split at ht
      · simp at ht
      · exact ht
    have hkeeps : Keeps { c with store := store, catalog := catalog } := by
      refine ⟨hstore, ?_, ⟨hscripts ▸ h.keyed.ascending.erase id, fun key t ht => ?_⟩,
        fun key t ht => ?_⟩
      · rw [hrows, hscripts]
        exact (congrArg (·.erase id) h.rows).trans (Table.map_erase _ _ _).symm
      · exact h.keyed.id_eq key t (hget key t ht)
      · exact h.kept key t (hget key t ht)
    simp only [Controller.save, hchange]
    exact hkeeps.of_eq rfl rfl

theorem Keeps.edited (h : c.Keeps) (e : ScriptEdit) : (c.edited e).Keeps := by
  cases e with
  | upload text => exact h.upload text
  | describe id text => exact h.describe id text
  | delete id => exact h.deleteScript id

theorem Keeps.editedAll (h : c.Keeps) (edits : List ScriptEdit) : (c.editedAll edits).Keeps := by
  induction edits generalizing c with
  | nil => exact h
  | cons e edits ih => exact ih (h.edited e)

/-! ## Restarting -/

/-- A controller of the store that has not loaded anything loads every script again. -/
theorem Keeps.loadScripts (h : c.Keeps)
    (hnames : ∀ s ∈ c.catalog.scripts.values, s.trigger = none →
      Script.marksComment (Script.unquoted s.name) = false)
    (layout : Layout) (adapter : Adapter) (sync : SyncLevel) :
    ∃ c', (ofLayout c.store layout adapter sync).loadScripts =
        .answers c' (.count c.catalog.scripts.size) ∧
      c'.catalog.scripts = c.catalog.scripts.map Script.reloaded := by
  have hload : (ofLayout c.store layout adapter sync).store.loadScripts =
      .ok (c.catalog.scripts.values.map Script.row) := by
    rw [ofLayout, Store.loadScripts, Store.query, h.store.refuses, h.rows, Table.values_map]
  have hscripts : Catalog.scriptsOf (c.catalog.scripts.values.map Script.row) =
      (c.catalog.scripts.map Script.reloaded).values := by
    have hrow : ∀ s ∈ c.catalog.scripts.values, s.row.scripts = [s.reloaded] := by
      intro s hs
      exact (h.kept s.id s (h.keyed.mem_values_iff.mp hs)).scripts_row (hnames s hs)
    rw [Catalog.scriptsOf, List.flatMap_map, Table.values_map, List.map_eq_flatMap]
    exact List.flatMap_congr hrow
  have hkeyed : (c.catalog.scripts.map Script.reloaded).KeyedBy Script.id := by
    refine ⟨h.keyed.ascending.map _, fun key t ht => ?_⟩
    rw [Table.get?_map] at ht
    obtain ⟨s, hs, rfl⟩ := Option.map_eq_some_iff.mp ht
    rw [(h.kept key s hs).survives.id, h.keyed.id_eq key s hs]
  have hcount : (c.catalog.scripts.map Script.reloaded).values.length = c.catalog.scripts.size :=
    (List.length_map _).trans (Table.size_map _ _)
  refine ⟨{ ofLayout c.store layout adapter sync with
    catalog := Catalog.empty.registerAll (c.catalog.scripts.map Script.reloaded).values }, ?_,
    Catalog.scripts_registerAll hkeyed⟩
  rw [Controller.loadScripts, hload]
  simp only [hscripts, hcount]
  rfl

/-- After any edits in a store that never fails, and unless a name marks a comment, a restart
leaves the scripts under their ids, each as its source and its description make it again. -/
theorem loadScripts_editedAll (hstore : c.store.NeverFails)
    (hrows : c.store.rows.scripts = Table.empty) (hcatalog : c.catalog = .empty)
    (edits : List ScriptEdit)
    (hnames : ∀ s ∈ (c.editedAll edits).catalog.scripts.values, s.trigger = none →
      Script.marksComment (Script.unquoted s.name) = false)
    (layout : Layout) (adapter : Adapter) (sync : SyncLevel) :
    ∃ c', (ofLayout (c.editedAll edits).store layout adapter sync).loadScripts =
        .answers c' (.count (c.editedAll edits).catalog.scripts.size) ∧
      (∀ id, c'.catalog.scripts.get? id =
        ((c.editedAll edits).catalog.scripts.get? id).map Script.reloaded) ∧
      ∀ id s, (c.editedAll edits).catalog.scripts.get? id = some s → s.Survives := by
  have hkeeps := (keeps_empty hstore hrows hcatalog).editedAll edits
  obtain ⟨c', hload, hscripts⟩ := hkeeps.loadScripts hnames layout adapter sync
  refine ⟨c', hload, fun id => ?_, fun id s hs => (hkeeps.kept id s hs).survives⟩
  rw [hscripts, Table.get?_map]

/-- A controller of nothing, with a store in memory. -/
def bare : Controller :=
  ofLayout (.inMemory Rows.empty) (.ofParts [] []) (.ofDriver .virtual [] fun _ => .virtual) .all

theorem neverFails_bare : bare.store.NeverFails :=
  ⟨fun _ => rfl, by simp [bare, ofLayout, Store.inMemory]⟩

/-- Scripts come in, one takes the place of another, one is deleted, and two are described. -/
def yardEdits : List ScriptEdit :=
  [.upload "AUTOMATION(1, 'Shuttle') FWD(20) DONE ONTHROW(5) STOP DONE ROUTE(2) DONE",
    .upload "SEQUENCE(1, 'Shuttle \\//*') DONE", .delete 2, .describe (-12) "Halt",
    .describe 1 "Back and forth"]

/-- All that is left comes back as it was. -/
theorem loadScripts_editedAll_yard :
    ∃ c', (ofLayout (bare.editedAll yardEdits).store (.ofParts [] [])
          (.ofDriver .virtual [] fun _ => .virtual) .all).loadScripts = .answers c' (.count 2) ∧
      c'.catalog.scripts.get? 1 =
        some { Script.ofUser .sequence 1 "Shuttle //*" [] with description := "Back and forth" } ∧
      c'.catalog.scripts.get? (-12) =
        some { Script.ofEvent ⟨5, .thrown⟩ [.act .stop] with description := "Halt" } := by
  have hnames : ∀ s ∈ (bare.editedAll yardEdits).catalog.scripts.values, s.trigger = none →
      Script.marksComment (Script.unquoted s.name) = false := by decide
  obtain ⟨c', hload, hget, hsurvives⟩ := loadScripts_editedAll neverFails_bare rfl rfl yardEdits
    hnames (.ofParts [] []) (.ofDriver .virtual [] fun _ => .virtual) .all
  have hsame : ∀ id s, (bare.editedAll yardEdits).catalog.scripts.get? id = some s →
      s.description.isEmpty = false → (s.trigger = none → Script.readName s.name = s.name) →
      c'.catalog.scripts.get? id = some s := by
    intro id s hs hfull hname
    rw [hget, hs, Option.map_some, (hsurvives id s hs).whole hfull hname]
  exact ⟨c', hload, hsame 1 _ rfl (by decide) (fun _ => rfl),
    hsame (-12) _ rfl (by decide) (fun _ => rfl)⟩

/-- A name in quotes has quotes of the other kind, another one two spaces, and a description is
taken away. -/
def lossyEdits : List ScriptEdit :=
  [.upload "AUTOMATION(1, \"Bob's\") DONE ROUTE(2, \"a \"\" b\") DONE SEQUENCE(3) DONE",
    .describe 3 ""]

/-- None of these scripts comes back as it was. -/
theorem loadScripts_editedAll_lossy :
    bare.store.NeverFails ∧ bare.store.rows.scripts = Table.empty ∧ bare.catalog = .empty ∧
      ∃ c', (ofLayout (bare.editedAll lossyEdits).store (.ofParts [] [])
            (.ofDriver .virtual [] fun _ => .virtual) .all).loadScripts = .answers c' (.count 3) ∧
        ∀ id ∈ [1, 2, 3], c'.catalog.scripts.get? id ≠
          (bare.editedAll lossyEdits).catalog.scripts.get? id := by
  have hnames : ∀ s ∈ (bare.editedAll lossyEdits).catalog.scripts.values, s.trigger = none →
      Script.marksComment (Script.unquoted s.name) = false := by decide
  have hkeeps := (keeps_empty neverFails_bare rfl rfl).editedAll lossyEdits
  obtain ⟨c', hload, hscripts⟩ := hkeeps.loadScripts hnames (.ofParts [] [])
    (.ofDriver .virtual [] fun _ => .virtual) .all
  refine ⟨neverFails_bare, rfl, rfl, c', hload, ?_⟩
  rw [hscripts]
  decide

end Controller

end Signalbox
