import Signalbox.Proofs.Json.Bytes
import Signalbox.Proofs.Store.Documents

/-
  Signalbox/Proofs/Store/Reopening.lean --- stores that are opened again.

  The numbers of a document fit their words, and go on doing so as long as changes bring
  none that do not.  So a store whose places are whole can always be opened again from
  what it wrote last.  The scripts and the locos are then as they were.  The nodes and the
  links are too, unless one of their places has a number that is misread.
-/

set_option autoImplicit false

namespace Signalbox

/-! ## What decoders answer -/

namespace Json

variable {α κ : Type}

theorem inInt64_of_asInt64 {j : Json} {n : Int} (h : j.asInt64 = some n) : inInt64 n = true := by
  unfold asInt64 at h
  split at h
  · exact (Option.filter_eq_some_iff.mp h).2
  · simp at h

theorem le_of_word? {numeral : Numeral} {max n : Nat} (h : numeral.word? max = some n) :
    n ≤ max := by
  obtain ⟨i, -, h⟩ := Option.bind_eq_some_iff.mp h
  simp only [Option.ite_none_right_eq_some, Option.some.injEq, Bool.and_eq_true,
    decide_eq_true_eq] at h
  omega

theorem le_of_asWord {j : Json} {max n : Nat} (h : j.asWord max = some n) : n ≤ max := by
  unfold asWord at h
  split at h
  · exact le_of_word? h
  · simp at h

theorem exists_of_required {fields : Fields} {name : String} {decode : Json → Option α} {a : α}
    (h : fields.required name decode = some a) : ∃ j, decode j = some a := by
  obtain ⟨j, -, h⟩ := Option.bind_eq_some_iff.mp h
  exact ⟨j, h⟩

theorem exists_of_mapM {β : Type} {decode : α → Option β} {as : List α} {bs : List β}
    (h : as.mapM decode = some bs) {b : β} (hb : b ∈ bs) : ∃ a ∈ as, decode a = some b := by
  induction as generalizing bs with
  | nil =>
    obtain rfl := Option.some.inj h
    simp at hb
  | cons a as ih =>
    rw [List.mapM_cons] at h
    obtain ⟨b', hb', h⟩ := Option.bind_eq_some_iff.mp h
    obtain ⟨bs', hbs', h⟩ := Option.bind_eq_some_iff.mp h
    obtain rfl := Option.some.inj h
    obtain rfl | hb := List.mem_cons.mp hb
    · exact ⟨a, List.mem_cons_self, hb'⟩
    · obtain ⟨a', ha', hread⟩ := ih hbs' hb
      exact ⟨a', List.mem_cons_of_mem a ha', hread⟩

/-- Every entry has a key and a value that were decoded. -/
theorem exists_of_asEntries {key : Numeral → Option κ} {decode : Json → Option α} {j : Json}
    {rows : List (κ × α)} (h : j.asEntries key decode = some rows) {row : κ × α}
    (hrow : row ∈ rows) : (∃ n, key n = some row.1) ∧ ∃ v, decode v = some row.2 := by
  cases j with
  | object entries =>
    obtain ⟨⟨name, value⟩, -, hread⟩ := exists_of_mapM h hrow
    obtain ⟨k, hk, hread⟩ := Option.bind_eq_some_iff.mp hread
    obtain ⟨a, ha, hread⟩ := Option.bind_eq_some_iff.mp hread
    obtain rfl := Option.some.inj hread
    obtain ⟨n, -, hn⟩ := Option.bind_eq_some_iff.mp hk
    exact ⟨⟨n, hn⟩, value, ha⟩
  | _ => simp [asEntries] at h

end Json

theorem StoredScript.fits_of_ofJson? {j : Json} {s : StoredScript} (h : ofJson? j = some s) :
    s.Fits := by
  obtain ⟨r, -, h⟩ := Option.bind_eq_some_iff.mp h
  obtain ⟨id, hid, h⟩ := Option.bind_eq_some_iff.mp h
  obtain ⟨name, -, h⟩ := Option.bind_eq_some_iff.mp h
  obtain ⟨source, -, h⟩ := Option.bind_eq_some_iff.mp h
  obtain ⟨description, -, h⟩ := Option.bind_eq_some_iff.mp h
  obtain rfl := Option.some.inj h
  obtain ⟨v, hv⟩ := Json.exists_of_required hid
  exact Json.inInt64_of_asInt64 hv

theorem LocoRecord.fits_of_ofJson? {j : Json} {r : LocoRecord} (h : ofJson? j = some r) :
    r.Fits := by
  obtain ⟨fields, -, h⟩ := Option.bind_eq_some_iff.mp h
  obtain ⟨name, -, h⟩ := Option.bind_eq_some_iff.mp h
  obtain ⟨address, haddress, h⟩ := Option.bind_eq_some_iff.mp h
  obtain rfl := Option.some.inj h
  obtain ⟨v, hv⟩ := Json.exists_of_required haddress
  exact Json.le_of_asWord hv

theorem Turnout.fits_of_ofRecord? {stateOf : Json → Option TurnoutState} {j : Json} {t : Turnout}
    (h : ofRecord? stateOf j = some t) : (Node.turnout t).Fits := by
  obtain ⟨r, -, h⟩ := Option.bind_eq_some_iff.mp h
  obtain ⟨id, hid, h⟩ := Option.bind_eq_some_iff.mp h
  obtain ⟨name, -, h⟩ := Option.bind_eq_some_iff.mp h
  obtain ⟨coordinate, -, h⟩ := Option.bind_eq_some_iff.mp h
  obtain ⟨state, -, h⟩ := Option.bind_eq_some_iff.mp h
  obtain ⟨primary, hprimary, h⟩ := Option.bind_eq_some_iff.mp h
  obtain ⟨secondary, hsecondary, h⟩ := Option.bind_eq_some_iff.mp h
  obtain rfl := Option.some.inj h
  obtain ⟨u, hu⟩ := Json.exists_of_required hid
  obtain ⟨v, hv⟩ := Json.exists_of_required hprimary
  obtain ⟨w, hw⟩ := Json.exists_of_required hsecondary
  exact ⟨Json.inInt64_of_asInt64 hu, Json.inInt64_of_asInt64 hv, Json.inInt64_of_asInt64 hw⟩

theorem Destination.fits_of_ofJson? {j : Json} {d : Destination} (h : ofJson? j = some d) :
    (Node.destination d).Fits := by
  obtain ⟨r, -, h⟩ := Option.bind_eq_some_iff.mp h
  obtain ⟨id, hid, h⟩ := Option.bind_eq_some_iff.mp h
  obtain ⟨name, -, h⟩ := Option.bind_eq_some_iff.mp h
  obtain ⟨description, -, h⟩ := Option.bind_eq_some_iff.mp h
  obtain ⟨coordinate, -, h⟩ := Option.bind_eq_some_iff.mp h
  obtain rfl := Option.some.inj h
  obtain ⟨v, hv⟩ := Json.exists_of_required hid
  exact Json.inInt64_of_asInt64 hv

theorem Node.fits_of_ofJson? {j : Json} {n : Node} (h : ofJson? j = some n) : n.Fits := by
  obtain ⟨⟨kind, record⟩, -, h⟩ := Option.bind_eq_some_iff.mp h
  dsimp only at h
  split at h
  · obtain ⟨t, ht, rfl⟩ := Option.map_eq_some_iff.mp h
    exact Turnout.fits_of_ofRecord? ht
  · split at h
    · obtain ⟨d, hd, rfl⟩ := Option.map_eq_some_iff.mp h
      exact Destination.fits_of_ofJson? hd
    · simp at h

theorem Link.fits_of_ofJson? {j : Json} {l : Link} (h : ofJson? j = some l) : l.Fits := by
  obtain ⟨r, -, h⟩ := Option.bind_eq_some_iff.mp h
  obtain ⟨id, hid, h⟩ := Option.bind_eq_some_iff.mp h
  obtain ⟨length, hlength, h⟩ := Option.bind_eq_some_iff.mp h
  obtain ⟨start, hstart, h⟩ := Option.bind_eq_some_iff.mp h
  obtain ⟨finish, hfinish, h⟩ := Option.bind_eq_some_iff.mp h
  obtain ⟨points, -, h⟩ := Option.bind_eq_some_iff.mp h
  obtain rfl := Option.some.inj h
  obtain ⟨u, hu⟩ := Json.exists_of_required hid
  obtain ⟨v, hv⟩ := Json.exists_of_required hlength
  obtain ⟨w, hw⟩ := Json.exists_of_required hstart
  obtain ⟨x, hx⟩ := Json.exists_of_required hfinish
  exact ⟨Json.inInt64_of_asInt64 hu, Json.le_of_asWord hv, Json.inInt64_of_asInt64 hw,
    Json.inInt64_of_asInt64 hx⟩

/-! ## Rows whose numbers fit -/

namespace Rows

variable {r r' : Rows} {c : RowChange}

theorem fits_empty : empty.Fits := ⟨by simp [empty, Table.empty], by simp [empty, Table.empty],
  by simp [empty, Table.empty], by simp [empty, Table.empty]⟩

/-- The numbers in a document fit their words. -/
theorem fits_ofJson? {j : Json} (h : ofJson? j = some r) : r.Fits := by
  have htable {α : Type} {decode : Json → Option α} {Fits : α → Prop} {fields : Json.Fields}
      {name : String} {t : Table Int α} (hfits : ∀ v a, decode v = some a → Fits a)
      (ht : fields.withDefault name Table.empty (tableOf? decode) = some t) :
      ∀ row ∈ t.rows, inInt64 row.1 = true ∧ Fits row.2 := by
    unfold Json.Fields.withDefault at ht
    split at ht
    · obtain ⟨rows, hrows, rfl⟩ := Option.map_eq_some_iff.mp ht
      intro row hrow
      obtain ⟨⟨n, hn⟩, v, hv⟩ := Json.exists_of_asEntries hrows (Table.mem_of_mem_ofList hrow)
      exact ⟨(Option.filter_eq_some_iff.mp hn).2, hfits v _ hv⟩
    · obtain rfl := Option.some.inj ht
      simp [Table.empty]
  have haddress {α : Type} {decode : Json → Option α} {Fits : α → Prop} {fields : Json.Fields}
      {name : String} {t : Table Nat α} (hfits : ∀ v a, decode v = some a → Fits a)
      (ht : fields.withDefault name Table.empty (addressOf? decode) = some t) :
      ∀ row ∈ t.rows, row.1 ≤ maxWord16 ∧ Fits row.2 := by
    unfold Json.Fields.withDefault at ht
    split at ht
    · obtain ⟨rows, hrows, rfl⟩ := Option.map_eq_some_iff.mp ht
      intro row hrow
      obtain ⟨⟨n, hn⟩, v, hv⟩ := Json.exists_of_asEntries hrows (Table.mem_of_mem_ofList hrow)
      exact ⟨Json.le_of_word? hn, hfits v _ hv⟩
    · obtain rfl := Option.some.inj ht
      simp [Table.empty]
  obtain ⟨fields, -, h⟩ := Option.bind_eq_some_iff.mp h
  obtain ⟨scripts, hscripts, h⟩ := Option.bind_eq_some_iff.mp h
  obtain ⟨nodes, hnodes, h⟩ := Option.bind_eq_some_iff.mp h
  obtain ⟨links, hlinks, h⟩ := Option.bind_eq_some_iff.mp h
  obtain ⟨locos, hlocos, h⟩ := Option.bind_eq_some_iff.mp h
  obtain rfl := Option.some.inj h
  exact ⟨htable (fun _ _ => StoredScript.fits_of_ofJson?) hscripts,
    htable (fun _ _ => Node.fits_of_ofJson?) hnodes,
    htable (fun _ _ => Link.fits_of_ofJson?) hlinks,
    haddress (fun _ _ => LocoRecord.fits_of_ofJson?) hlocos⟩

end Rows

/-- The numbers that a change brings fit their words. -/
def RowChange.Fits : RowChange → Prop
  | saveScript row => row.Fits
  | insertLoco record => record.Fits
  | updateLoco _ record => record.Fits
  | _ => True

namespace Rows

variable {r r' : Rows} {c : RowChange}

theorem fits_insert {κ α : Type} [DecidableEq κ] [LT κ] [DecidableLT κ] {p : κ × α → Prop}
    {t : Table κ α} {key : κ} {value : α} (h : ∀ row ∈ t.rows, p row) (hp : p (key, value)) :
    ∀ row ∈ (t.insert key value).rows, p row := by
  intro row hrow
  obtain rfl | hrow := Table.mem_place_iff hrow
  · exact hp
  · exact h row hrow

theorem fits_erase {κ α : Type} [DecidableEq κ] {p : κ × α → Prop} {t : Table κ α}
    (h : ∀ row ∈ t.rows, p row) (key : κ) : ∀ row ∈ (t.erase key).rows, p row :=
  fun row hrow => h row (List.mem_of_mem_filter hrow)

theorem fits_moved {n : Node} (h : n.Fits) (place : Coordinate) : (moved place n).Fits := by
  cases n <;> exact h

/-- Numbers fit after a change that brings none that do not. -/
theorem Fits.apply (h : r.Fits) (hc : c.Fits) (happly : r.apply c = .ok r') : r'.Fits := by
  obtain ⟨hscripts, hnodes, hlinks, hlocos⟩ := h
  cases c with
  | saveScript row =>
    obtain rfl := Except.ok.inj happly
    exact ⟨fits_insert hscripts ⟨hc, hc⟩, hnodes, hlinks, hlocos⟩
  | deleteScript id =>
    obtain rfl := Except.ok.inj happly
    exact ⟨fits_erase hscripts id, hnodes, hlinks, hlocos⟩
  | saveState id state =>
    simp only [Rows.apply, saveState] at happly
    split at happly
    · rename_i t hnode
      obtain rfl := Except.ok.inj happly
      obtain ⟨hid, hfits⟩ := hnodes _ (Table.mem_of_get? hnode)
      exact ⟨hscripts, fits_insert hnodes ⟨hid, hfits⟩, hlinks, hlocos⟩
    · simp at happly
  | saveCoordinate id place =>
    simp only [Rows.apply, saveCoordinate] at happly
    split at happly
    · rename_i n hnode
      obtain rfl := Except.ok.inj happly
      obtain ⟨hid, hfits⟩ := hnodes _ (Table.mem_of_get? hnode)
      exact ⟨hscripts, fits_insert hnodes ⟨hid, fits_moved hfits place⟩, hlinks, hlocos⟩
    · simp at happly
  | insertLoco record =>
    obtain rfl := Except.ok.inj happly
    exact ⟨hscripts, hnodes, hlinks, fits_insert hlocos ⟨hc, hc⟩⟩
  | updateLoco previous record =>
    simp only [Rows.apply, updateLoco] at happly
    split at happly
    · obtain rfl := Except.ok.inj happly
      exact ⟨hscripts, hnodes, hlinks, fits_insert (fits_erase hlocos previous) ⟨hc, hc⟩⟩
    · simp at happly
  | deleteLoco address =>
    obtain rfl := Except.ok.inj happly
    exact ⟨hscripts, hnodes, hlinks, fits_erase hlocos address⟩

/-! ## What is read of rows -/

theorem map_eq_self_iff {α : Type} {f : α → α} {as : List α} :
    as.map f = as ↔ ∀ a ∈ as, f a = a := by
  rw [show (as.map f = as) = (as.map f = as.map id) by rw [List.map_id]]
  exact List.map_inj_left

/-- The nodes and the links are read as they are exactly if all their places are kept. -/
theorem reread_eq_iff (hwhole : ∀ c ∈ r.places, c.IsWhole) :
    (r.reread.nodes.values = r.nodes.values ∧ r.reread.links.values = r.links.values) ↔
      ∀ c ∈ r.places, c.IsKept := by
  have hnode (n : Node) : n.reread = n ↔ n.coordinate.reread = n.coordinate :=
    moved_eq_self_iff.trans eq_comm
  have hlink (l : Link) : l.reread = l ↔ ∀ c ∈ l.points, c.reread = c := by
    rw [← map_eq_self_iff]
    cases l
    simp [Link.reread]
  have hkept : (∀ c ∈ r.places, c.IsKept) ↔ ∀ c ∈ r.places, c.reread = c :=
    forall₂_congr fun c hc => (hwhole c hc).reread_eq_iff.symm
  rw [hkept]
  simp only [reread, Table.values_map, map_eq_self_iff, hnode, hlink, places, List.mem_append,
    List.mem_map, List.mem_flatMap]
  constructor
  · rintro ⟨hnodes, hlinks⟩ c (⟨n, hn, rfl⟩ | ⟨l, hl, hc⟩)
    · exact hnodes n hn
    · exact hlinks l hl c hc
  · exact fun hplaces => ⟨fun n hn => hplaces _ (.inl ⟨n, hn, rfl⟩),
      fun l hl c hc => hplaces c (.inr ⟨l, hl, hc⟩)⟩

end Rows

/-! ## Stores -/

namespace Store

variable {s t : Store} {w : Write} {ws : List Write} {f : StoreFile}

theorem fits_openFile (h : openFile f = .ok s) : s.rows.Fits := by
  obtain ⟨rows, hrows, rfl⟩ : ∃ rows, f.open? = .ok rows ∧ s = ⟨rows, some f, fun _ => none⟩ := by
    unfold openFile at h
    cases hopen : f.open? with
    | error e => simp [hopen, Except.map] at h
    | ok rows =>
      rw [hopen] at h
      exact ⟨rows, rfl, (Except.ok.inj h).symm⟩
  unfold StoreFile.open? at hrows
  split at hrows
  · obtain rfl := Except.ok.inj hrows
    exact Rows.fits_empty
  · split at hrows
    · rename_i hread
      obtain rfl := Except.ok.inj hrows
      obtain ⟨text, -, hread⟩ := Option.bind_eq_some_iff.mp hread
      obtain ⟨j, -, hj⟩ := Option.bind_eq_some_iff.mp hread
      exact Rows.fits_ofJson? hj
    · simp at hrows

theorem HasFile.fits_attempt (h : s.HasFile) (hfits : s.rows.Fits) (hw : w.change.Fits) :
    (s.attempt w).2.rows.Fits := by
  cases happly : s.rows.apply w.change with
  | error e => rwa [(h.attempt_impossible happly).2.1]
  | ok rows =>
    rw [(h.attempt_possible happly).1]
    exact hfits.apply hw happly

theorem HasFile.fits_afterAll (h : s.HasFile) (hfits : s.rows.Fits)
    (hws : ∀ w ∈ ws, w.change.Fits) : (s.afterAll ws).rows.Fits := by
  induction ws generalizing s with
  | nil => exact hfits
  | cons w ws ih =>
    exact ih (h.attempt w) (h.fits_attempt hfits (hws w List.mem_cons_self))
      fun v hv => hws v (List.mem_cons_of_mem w hv)

/-- A store whose file has its rows is opened with what is read of them. -/
theorem HasFile.reopen_eq (h : s.HasFile)
    (hdocument : s.document? = some (Text.utf8 s.rows.write.toList)) (hfits : s.rows.Fits)
    (hwhole : ∀ c ∈ s.rows.places, c.IsWhole) :
    s.reopen? = .ok ⟨s.rows.reread, s.file, fun _ => none⟩ := by
  obtain ⟨f, hf⟩ := Option.isSome_iff_exists.mp h.file
  rw [document?, hf, Option.bind_some] at hdocument
  have hopen : f.open? = .ok s.rows.reread := by
    rw [StoreFile.open?, hdocument]
    simp only [Json.textOf?_utf8, Option.bind_some,
      Rows.read?_write hfits h.ascending hwhole]
  rw [reopen?, hf]
  simp only [openFile, hopen, Except.map]

/-- After any changes, the last of which was written, a store can be opened again if its places
are whole.  Its scripts and locos are then as they were, and its nodes and links exactly if no
place has a number that is misread. -/
theorem reopens_iff (hopen : openFile f = .ok s) (hfits : ∀ v ∈ ws ++ [w], v.change.Fits)
    (hok : ((s.afterAll ws).attempt w).1 = .ok ())
    (hwhole : ∀ c ∈ (s.afterAll (ws ++ [w])).rows.places, c.IsWhole) :
    ∃ t, (s.afterAll (ws ++ [w])).reopen? = .ok t ∧
      t.loadScripts = (s.afterAll (ws ++ [w])).loadScripts ∧
      t.loadLocos = (s.afterAll (ws ++ [w])).loadLocos ∧
      (t.loadNodes = (s.afterAll (ws ++ [w])).loadNodes ∧
          t.loadLinks = (s.afterAll (ws ++ [w])).loadLinks ↔
        ∀ c ∈ (s.afterAll (ws ++ [w])).rows.places, c.IsKept) := by
  have h := hasFile_openFile hopen
  have hafter := h.afterAll (ws ++ [w])
  have hdocument : (s.afterAll (ws ++ [w])).document? =
      some (Text.utf8 (s.afterAll (ws ++ [w])).rows.write.toList) := by
    rw [afterAll_concat]
    exact (h.afterAll ws).document_of_success hok
  have hreopen := hafter.reopen_eq hdocument (h.fits_afterAll (fits_openFile hopen) hfits) hwhole
  refine ⟨_, hreopen, ?_⟩
  simp only [loadScripts, loadLocos, loadNodes, loadLinks, query, hafter.refuses, Except.ok.injEq]
  exact ⟨rfl, rfl, Rows.reread_eq_iff hwhole⟩

/-- A document with one node, which has no place. -/
def placelessText : String :=
  "\x7b\"nodes\": \x7b\"1\": \x7b\"type\": \"destination\", \"id\": 1, \"name\": \"A\"\x7d\x7d\x7d"

/-- A store that has been opened from the document. -/
def placelessTrial : Store :=
  ⟨{ Rows.empty with nodes := ⟨[(1, .destination ⟨1, "A", "", .origin⟩)]⟩ },
    some (.holding (some (Text.utf8 placelessText.toList))), fun _ => none⟩

theorem openFile_placeless :
    openFile (.holding (some (Text.utf8 placelessText.toList))) = .ok placelessTrial := by
  have hopen : (StoreFile.holding (some (Text.utf8 placelessText.toList))).open? =
      .ok placelessTrial.rows := by decide +kernel
  rw [openFile, hopen]
  rfl

/-- The node is moved to a place that is `n` to the right. -/
def movesTo (n : Nat) : Write :=
  ⟨.saveCoordinate 1 ⟨Binary64.wholeAt false n 50, .zero⟩, none, none⟩

theorem fits_movesTo (n : Nat) : ∀ v ∈ [] ++ [movesTo n], v.change.Fits := by
  simp [movesTo, RowChange.Fits]

theorem places_movesTo (n : Nat) : (placelessTrial.afterAll ([] ++ [movesTo n])).rows.places =
    [⟨Binary64.wholeAt false n 50, .zero⟩] := rfl

theorem isWhole_zero : Binary64.zero.IsWhole 0 := ⟨by decide, rfl⟩

theorem isWhole_movesTo {n : Nat} (hx : (Binary64.wholeAt false n 50).IsWhole n) :
    ∀ c ∈ (placelessTrial.afterAll ([] ++ [movesTo n])).rows.places, c.IsWhole := by
  rw [places_movesTo]
  simp only [List.forall_mem_singleton]
  exact ⟨n, 0, hx, isWhole_zero⟩

/-- A node is found again where it was moved to. -/
theorem reopens_movesTo : ∃ t,
    (placelessTrial.afterAll [movesTo 1801439850948200]).reopen? = .ok t ∧
      t.loadNodes = (placelessTrial.afterAll [movesTo 1801439850948200]).loadNodes := by
  have hx : (Binary64.wholeAt false 1801439850948200 50).IsWhole 1801439850948200 :=
    ⟨by decide, by decide +kernel⟩
  obtain ⟨t, hopen, -, -, hkept⟩ :=
    reopens_iff openFile_placeless (fits_movesTo 1801439850948200) rfl (isWhole_movesTo hx)
  refine ⟨t, hopen, (hkept.mpr ?_).1⟩
  rw [places_movesTo, List.forall_mem_singleton, Coordinate.isKept_iff hx isWhole_zero]
  decide

/-- The node is moved to a place one before that, which succeeds, and is not found there when the
store is opened again. -/
theorem not_reopens_movesTo :
    (placelessTrial.attempt (movesTo 1801439850948199)).1 = .ok () ∧
      (∀ c ∈ (placelessTrial.afterAll [movesTo 1801439850948199]).rows.places, c.IsWhole) ∧
      ∃ t, (placelessTrial.afterAll [movesTo 1801439850948199]).reopen? = .ok t ∧
        t.loadNodes ≠ (placelessTrial.afterAll [movesTo 1801439850948199]).loadNodes := by
  have hx : (Binary64.wholeAt false 1801439850948199 50).IsWhole 1801439850948199 :=
    ⟨by decide, by decide +kernel⟩
  have hwhole := isWhole_movesTo hx
  have h := hasFile_openFile openFile_placeless
  have hfits := h.fits_afterAll (fits_openFile openFile_placeless) (fits_movesTo 1801439850948199)
  have hopen := (h.attempt (movesTo 1801439850948199)).reopen_eq (h.document_of_success rfl) hfits
    hwhole
  refine ⟨rfl, hwhole, _, hopen, fun hsame => ?_⟩
  have hkept := (Rows.reread_eq_iff hwhole).mp ⟨Except.ok.inj hsame, rfl⟩
  rw [places_movesTo, List.forall_mem_singleton, Coordinate.isKept_iff hx isWhole_zero] at hkept
  exact absurd hkept (by decide)

end Store

end Signalbox
