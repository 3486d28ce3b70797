import Signalbox.Proofs.Json.Reading
import Signalbox.Proofs.Store.Failures

/-
  Signalbox/Proofs/Store/Documents.lean --- rows are read from the document they are in.

  Each record is decoded from what it is encoded as, but for the places of nodes and
  links, whose numbers are what is read of them.  From this the tables are, entry by
  entry, and from these all the rows.  It takes numbers that fit their words and places
  that are whole; the rows of a document have the first, and keep it.
-/

set_option autoImplicit false

namespace Signalbox

open Json (Form IsReadable Reads formed?)

/-! ## Fields -/

namespace Json

variable {depth : Nat}

theorem asInt64_ofInt {n : Int} (h : inInt64 n = true) : (Json.ofInt n).asInt64 = some n :=
  Numeral.int64?_ofInt h

theorem asWord_ofNat {n max : Nat} (h : n ≤ max) : (Json.ofNat n).asWord max = some n :=
  Numeral.word?_ofInt h

theorem isReadable_ofInt {n : Int} (h : inInt64 n = true) : IsReadable depth (.ofInt n) := by
  have hbound : n.natAbs ≤ maxWord64 := by
    simp only [inInt64, Bool.and_eq_true, decide_eq_true_eq] at h
    unfold maxWord64
    omega
  have hread : (Numeral.ofInt n).IsProper ∧ (Numeral.ofInt n).toBinary64.isSome :=
    ⟨Numeral.isProper_ofInt n, Numeral.isSome_toBinary64_ofInt hbound⟩
  cases depth <;> exact hread

theorem isReadable_ofNat {n : Nat} (h : n ≤ maxWord32) : IsReadable depth (.ofNat n) := by
  refine isReadable_ofInt ?_
  simp only [inInt64, Bool.and_eq_true, decide_eq_true_eq]
  unfold maxWord32 at h
  omega

theorem isReadable_string (s : String) : IsReadable depth (.string s) := by
  cases depth <;> trivial

theorem isReadable_object {fields : List (String × Json)}
    (h : ∀ field ∈ fields, IsReadable depth field.2) : IsReadable (depth + 1) (.object fields) := h

/-- Fields that are those of a record, in its order, are its fields. -/
theorem asFields_object {names : List String} {entries : List (String × Json)}
    (hnames : entries.map (·.1) = names) (h : noRepetition names = true) :
    (Json.object entries).asFields names = some ⟨entries⟩ := by
  have hall : entries.filter (fun entry => names.contains entry.1) = entries := by
    refine List.filter_eq_self.mpr fun entry hentry => ?_
    rw [List.contains_iff_mem, ← hnames]
    exact List.mem_map_of_mem hentry
  simp only [asFields, hall, hnames, h, if_true]

theorem Fields.find?_cons (entry : String × Json) (entries : List (String × Json)) (name : String) :
    Fields.find? ⟨entry :: entries⟩ name =
      if entry.1 = name then some entry.2 else Fields.find? ⟨entries⟩ name := by
  simp only [Fields.find?, List.find?_cons]
  split
  · rename_i hname
    rw [if_pos (eq_of_beq hname)]
    rfl
  · rename_i hname
    rw [if_neg (ne_of_beq_false hname)]

@[simp] theorem Fields.required_cons {α : Type} (entry : String × Json)
    (entries : List (String × Json)) (name : String) (decode : Json → Option α) :
    Fields.required ⟨entry :: entries⟩ name decode =
      if entry.1 = name then decode entry.2 else Fields.required ⟨entries⟩ name decode := by
  rw [Fields.required, Fields.find?_cons]
  split <;> rfl

@[simp] theorem Fields.withDefault_cons {α : Type} (entry : String × Json)
    (entries : List (String × Json)) (name : String) (default : α) (decode : Json → Option α) :
    Fields.withDefault ⟨entry :: entries⟩ name default decode =
      if entry.1 = name then decode entry.2
      else Fields.withDefault ⟨entries⟩ name default decode := by
  rw [Fields.withDefault, Fields.find?_cons]
  by_cases hname : entry.1 = name
  · rw [if_pos hname, if_pos hname]
  · rw [if_neg hname, if_neg hname, Fields.withDefault]

@[simp] theorem asString_string (s : String) : (Json.string s).asString = some s := rfl

theorem lookup_flat {names : List String} {name : String} (h : name ∈ names) :
    (names.map fun name => (name, Form.whole)).lookup name = some .whole := by
  induction names with
  | nil => simp at h
  | cons n names ih =>
    rw [List.map_cons, List.lookup_cons]
    split
    · rfl
    · rename_i hne
      refine ih ((List.mem_cons.mp h).resolve_left fun heq => ?_)
      simp [heq] at hne

/-- A tag is split from a record that has no field with its name. -/
theorem splitTag_object {tag kind : String} {fields : List (String × Json)}
    (h : tag ∉ fields.map (·.1)) :
    (Json.object ((tag, .string kind) :: fields)).splitTag tag = some (kind, .object fields) := by
  have hne : ∀ field ∈ fields, field.1 ≠ tag := fun field hfield heq =>
    h (heq ▸ List.mem_map_of_mem hfield)
  have htagged : fields.filter (fun field => field.1 == tag) = [] :=
    List.filter_eq_nil_iff.mpr fun field hfield => by simpa using hne field hfield
  have hothers : fields.filter (fun field => field.1 != tag) = fields :=
    List.filter_eq_self.mpr fun field hfield => by simpa using hne field hfield
  simp only [splitTag, List.filter_cons, beq_self_eq_true, bne_self_eq_false, if_true, htagged,
    hothers, Bool.false_eq_true, if_false]

/-- A record without parts is read by the form that has its names. -/
theorem reads_flat {names : List String} {fields : List (String × Json)} {d : Nat}
    (hnames : fields.map (·.1) = names) (h : ∀ field ∈ fields, IsReadable depth field.2) :
    Reads (fun fuel => formed? fuel (depth + 1) (.flat names)) d (.object fields) := by
  refine reads_record fun field hfield => ⟨.whole, lookup_flat ?_, reads_whole (h field hfield)⟩
  rw [← hnames]
  exact List.mem_map_of_mem hfield

theorem mapM_map_eq_some {α β γ : Type} {encode : α → β} {decode : β → Option γ} {f : α → γ}
    {as : List α} (h : ∀ a ∈ as, decode (encode a) = some (f a)) :
    (as.map encode).mapM decode = some (as.map f) := by
  induction as with
  | nil => rfl
  | cons a as ih =>
    rw [List.map_cons, List.mapM_cons, h a List.mem_cons_self,
      ih fun b hb => h b (List.mem_cons_of_mem a hb)]
    rfl

end Json

/-! ## Records -/

/-- A record is read off its text by a form, and is decoded from it as `b`. -/
structure Rereads {α : Type} (form : Form) (encode : α → Json) (decode : Json → Option α)
    (a b : α) : Prop where
  reads : ∀ depth d, Reads (fun fuel => formed? fuel (depth + 3) form) d (encode a)
  decodes : decode (encode a) = some b

/-- The id fits its word. -/
def StoredScript.Fits (s : StoredScript) : Prop := inInt64 s.id = true

/-- The address fits its word. -/
def LocoRecord.Fits (r : LocoRecord) : Prop := r.address ≤ maxWord16

/-- The numbers of a node fit their words. -/
def Node.Fits : Node → Prop
  | turnout t => inInt64 t.id = true ∧ inInt64 t.primary = true ∧ inInt64 t.secondary = true
  | destination d => inInt64 d.id = true

/-- The numbers of a link fit their words. -/
structure Link.Fits (l : Link) : Prop where
  id : inInt64 l.id = true
  length : l.length ≤ maxWord32
  start : inInt64 l.start = true
  finish : inInt64 l.finish = true

theorem StoredScript.rereads {s : StoredScript} (h : s.Fits) :
    Rereads form toJson ofJson? s s where
  reads depth d := by
    refine Json.reads_flat rfl ?_
    simp only [List.forall_mem_cons, Json.isReadable_string, Json.isReadable_ofInt h, true_and]
    simp
  decodes := by
    rw [toJson, ofJson?, Json.asFields_object]
    · simp [Json.asInt64_ofInt h]
    · rfl
    · rfl

theorem LocoRecord.rereads {r : LocoRecord} (h : r.Fits) :
    Rereads form toJson ofJson? r r where
  reads depth d := by
    refine Json.reads_flat rfl ?_
    have haddress : r.address ≤ maxWord32 := h.trans (by decide)
    simp only [List.forall_mem_cons, Json.isReadable_string, Json.isReadable_ofNat haddress,
      true_and]
    simp
  decodes := by
    rw [toJson, ofJson?, Json.asFields_object]
    · simp [Json.asWord_ofNat h]
    · rfl
    · rfl

/-! ## Places -/

namespace Coordinate

/-- Both numbers are whole. -/
def IsWhole (c : Coordinate) : Prop := ∃ m n, c.x.IsWhole m ∧ c.y.IsWhole n

/-- What is read of a place as it is written. -/
def reread (c : Coordinate) : Coordinate := ⟨Json.Numeral.reread c.x, Json.Numeral.reread c.y⟩

/-- Neither number is one that is misread. -/
def IsKept (c : Coordinate) : Prop :=
  ∀ n, c.x.IsWhole n ∨ c.y.IsWhole n → ¬ Binary64.IsMisread n

theorem isReadable_number {depth : Nat} {x : Binary64} {n : Nat} (h : x.IsWhole n) :
    IsReadable depth (.ofBinary64 x) := by
  have hproper : (Json.Numeral.ofBinary64 x).IsProper := by
    rw [Json.Numeral.ofBinary64_whole h]
    simp [Json.Numeral.IsProper]
  have hread : (Json.Numeral.ofBinary64 x).IsProper ∧
      (Json.Numeral.ofBinary64 x).toBinary64.isSome :=
    ⟨hproper, Option.isSome_of_eq_some (Json.Numeral.toBinary64_whole h).1⟩
  cases depth <;> exact hread

variable {c : Coordinate}

theorem IsWhole.isReadable (h : c.IsWhole) (depth : Nat) : IsReadable (depth + 1) c.toJson := by
  obtain ⟨m, n, hx, hy⟩ := h
  refine Json.isReadable_object ?_
  simp only [List.forall_mem_cons, isReadable_number hx, isReadable_number hy, true_and]
  simp

theorem IsWhole.reads (h : c.IsWhole) (depth d : Nat) :
    Reads (fun fuel => formed? fuel (depth + 1) form) d c.toJson :=
  Json.reads_flat rfl (h.isReadable depth)

theorem IsWhole.ofJson?_toJson (h : c.IsWhole) : ofJson? c.toJson = some c.reread := by
  obtain ⟨m, n, hx, hy⟩ := h
  have hxRead : (Json.ofBinary64 c.x).asBinary64 = some c.reread.x :=
    (Json.Numeral.toBinary64_whole hx).1
  have hyRead : (Json.ofBinary64 c.y).asBinary64 = some c.reread.y :=
    (Json.Numeral.toBinary64_whole hy).1
  rw [toJson, ofJson?, Json.asFields_object]
  · simp [hxRead, hyRead]
  · rfl
  · rfl

theorem isKept_iff {m n : Nat} (hx : c.x.IsWhole m) (hy : c.y.IsWhole n) :
    c.IsKept ↔ ¬ Binary64.IsMisread m ∧ ¬ Binary64.IsMisread n := by
  constructor
  · exact fun hkept => ⟨hkept m (.inl hx), hkept n (.inr hy)⟩
  · rintro ⟨hm, hn⟩ k (hk | hk)
    · rwa [← (Json.Numeral.toBinary64_whole hk).2, (Json.Numeral.toBinary64_whole hx).2]
    · rwa [← (Json.Numeral.toBinary64_whole hk).2, (Json.Numeral.toBinary64_whole hy).2]

/-- A place is read as it is exactly if it is kept. -/
theorem IsWhole.reread_eq_iff (h : c.IsWhole) : c.reread = c ↔ c.IsKept := by
  obtain ⟨m, n, hx, hy⟩ := h
  have hsame : c.reread = c ↔
      Json.Numeral.reread c.x = c.x ∧ Json.Numeral.reread c.y = c.y := by
    cases c
    exact Coordinate.mk.injEq .. ▸ Iff.rfl
  rw [hsame, isKept_iff hx hy, (Json.Numeral.toBinary64_whole hx).2,
    (Json.Numeral.toBinary64_whole hy).2]

end Coordinate

/-! ## Nodes and links -/

/-- What is read of a node as it is written. -/
def Node.reread (n : Node) : Node := Rows.moved n.coordinate.reread n

/-- What is read of a link as it is written. -/
def Link.reread (l : Link) : Link := { l with points := l.points.map Coordinate.reread }

theorem Turnout.ofRecord?_fields {t : Turnout} (h : (Node.turnout t).Fits)
    (hwhole : t.coordinate.IsWhole) :
    ofRecord? TurnoutState.ofTagged? (.object t.fields) =
      some { t with coordinate := t.coordinate.reread } := by
  obtain ⟨hid, hprimary, hsecondary⟩ := h
  have hstate : TurnoutState.ofTagged? t.state.toJson = some t.state :=
    TurnoutState.ofName?_name t.state
  rw [fields, ofRecord?, Json.asFields_object]
  · simp [hstate, hwhole.ofJson?_toJson, Json.asInt64_ofInt hid, Json.asInt64_ofInt hprimary,
      Json.asInt64_ofInt hsecondary]
  · rfl
  · rfl

theorem Destination.ofJson?_fields {d : Destination} (h : (Node.destination d).Fits)
    (hwhole : d.coordinate.IsWhole) :
    ofJson? (.object d.fields) = some { d with coordinate := d.coordinate.reread } := by
  have hid : inInt64 d.id = true := h
  rw [fields, ofJson?, Json.asFields_object]
  · simp [hwhole.ofJson?_toJson, Json.asInt64_ofInt hid]
  · rfl
  · rfl

theorem Node.rereads {n : Node} (h : n.Fits) (hwhole : n.coordinate.IsWhole) :
    Rereads .whole toJson ofJson? n n.reread where
  reads depth d := by
    refine Json.reads_whole ?_
    cases n with
    | turnout t =>
      obtain ⟨hid, hprimary, hsecondary⟩ := h
      have hplace : IsReadable (depth + 2) t.coordinate.toJson := hwhole.isReadable _
      refine Json.isReadable_object ?_
      simp only [Turnout.fields, List.forall_mem_cons, Json.isReadable_string, hplace,
        TurnoutState.toJson, Json.isReadable_ofInt hid, Json.isReadable_ofInt hprimary,
        Json.isReadable_ofInt hsecondary, true_and]
      simp
    | destination d =>
      have hid : inInt64 d.id = true := h
      have hplace : IsReadable (depth + 2) d.coordinate.toJson := hwhole.isReadable _
      refine Json.isReadable_object ?_
      simp only [Destination.fields, List.forall_mem_cons, Json.isReadable_string, hplace,
        Json.isReadable_ofInt hid, true_and]
      simp
  decodes := by
    cases n with
    | turnout t =>
      have htag : (toJson (turnout t)).splitTag "type" = some ("turnout", .object t.fields) :=
        Json.splitTag_object (by simp [Turnout.fields])
      rw [ofJson?, htag, Option.bind_eq_bind, Option.bind_some]
      simp only [if_true]
      rw [Turnout.ofRecord?_fields h hwhole]
      rfl
    | destination d =>
      have htag : (toJson (destination d)).splitTag "type" =
          some ("destination", .object d.fields) :=
        Json.splitTag_object (by simp [Destination.fields])
      rw [ofJson?, htag, Option.bind_eq_bind, Option.bind_some]
      simp only [String.reduceEq, if_false, if_true]
      rw [Destination.ofJson?_fields h hwhole]
      rfl

theorem Link.rereads {l : Link} (h : l.Fits) (hwhole : ∀ c ∈ l.points, c.IsWhole) :
    Rereads form toJson ofJson? l l.reread where
  reads depth d := by
    have hnumber {v : Json} (hv : IsReadable (depth + 2) v) :
        Reads (fun fuel => formed? fuel (depth + 2) .whole) (d + 1) v := Json.reads_whole hv
    have hpoints : Reads (fun fuel => formed? fuel (depth + 2) (.list Coordinate.form)) (d + 1)
        (.ofList Coordinate.toJson l.points) := by
      refine Json.reads_list fun item hitem => ?_
      obtain ⟨c, hc, rfl⟩ := List.mem_map.mp hitem
      exact (hwhole c hc).reads _ _
    refine Json.reads_record ?_
    simp only [List.forall_mem_cons]
    exact ⟨⟨_, rfl, hnumber (Json.isReadable_ofInt h.id)⟩,
      ⟨_, rfl, hnumber (Json.isReadable_ofNat h.length)⟩,
      ⟨_, rfl, hnumber (Json.isReadable_ofInt h.start)⟩,
      ⟨_, rfl, hnumber (Json.isReadable_ofInt h.finish)⟩, ⟨_, rfl, hpoints⟩, by simp⟩
  decodes := by
    have hpoints : (Json.ofList Coordinate.toJson l.points).asList Coordinate.ofJson? =
        some (l.points.map Coordinate.reread) :=
      Json.mapM_map_eq_some fun c hc => (hwhole c hc).ofJson?_toJson
    rw [toJson, ofJson?, Json.asFields_object]
    · simp [Json.asInt64_ofInt h.id, Json.asWord_ofNat h.length, Json.asInt64_ofInt h.start,
        Json.asInt64_ofInt h.finish, hpoints, Link.reread]
    · rfl
    · rfl

/-! ## Tables -/

namespace Json

variable {α κ : Type} {depth d : Nat} {form : Form} {encode : α → Json} {decode : Json → Option α}
  {f : α → α}

theorem isPlain_ofInt (n : Int) : IsPlain (Text.ofInt n) := by
  intro c hc
  have hnumeric := Text.isNumeric_of_mem_ofInt hc
  have hcode : ¬ c.toNat < 32 ∧ c.toNat ≠ 8 ∧ c.toNat ≠ 12 := by
    have := Text.toNat_of_isNumeric hnumeric
    omega
  have hne {x : Char} (hx : Text.isNumeric x = false) : (c == x) = false :=
    beq_false_of_ne (Text.ne_of_isNumeric hnumeric hx)
  simp only [escapeChar, hne (show Text.isNumeric '"' = false by decide),
    hne (show Text.isNumeric '\\' = false by decide),
    hne (show Text.isNumeric '\n' = false by decide),
    hne (show Text.isNumeric '\r' = false by decide),
    hne (show Text.isNumeric '\t' = false by decide), beq_false_of_ne hcode.2.1,
    beq_false_of_ne hcode.2.2, if_neg hcode.1, Bool.false_eq_true, if_false]

/-- Entries under names that are read as their keys are the rows. -/
theorem asEntries_map {key : Numeral → Option κ} {name : κ → String} {rows : List (κ × α)}
    (hname : ∀ row ∈ rows, (asKey (name row.1)).bind key = some row.1)
    (h : ∀ row ∈ rows, decode (encode row.2) = some (f row.2)) :
    (Json.object (rows.map fun (k, a) => (name k, encode a))).asEntries key decode =
      some (rows.map fun row => (row.1, f row.2)) := by
  refine mapM_map_eq_some fun row hrow => ?_
  simp only [hname row hrow, h row hrow, Option.bind_eq_bind, Option.bind_some]

end Json

namespace Rows

variable {α : Type} {form : Form} {encode : α → Json} {decode : Json → Option α} {f : α → α}

/-- A table under integers is read as its rows are. -/
theorem rereads_table {t : Table Int α} (hascending : t.Ascending)
    (hkeys : ∀ row ∈ t.rows, inInt64 row.1 = true)
    (h : ∀ row ∈ t.rows, Rereads form encode decode row.2 (f row.2)) :
    (∀ depth d, Reads (fun fuel => formed? fuel (depth + 4) (.table form)) d
      (tableJson encode t)) ∧ tableOf? decode (tableJson encode t) = some (t.map f) := by
  constructor
  · intro depth d
    refine Json.reads_table fun field hfield => ?_
    obtain ⟨row, hrow, rfl⟩ := List.mem_map.mp hfield
    exact ⟨Json.isPlain_ofInt row.1, (h row hrow).reads depth _⟩
  · have hentries : (tableJson encode t).asEntries Json.Numeral.int64? decode =
        some (t.map f).rows := by
      refine Json.asEntries_map (fun row hrow => ?_) fun row hrow => (h row hrow).decodes
      rw [Json.asKey_ofInt, Option.bind_some, Json.Numeral.int64?_ofInt (hkeys row hrow)]
    rw [tableOf?, hentries, Option.map_some, (hascending.map f).ofList_rows]

/-- A table under addresses is read as its rows are. -/
theorem rereads_addresses {t : Table Nat α} (hascending : t.Ascending)
    (hkeys : ∀ row ∈ t.rows, row.1 ≤ maxWord16)
    (h : ∀ row ∈ t.rows, Rereads form encode decode row.2 (f row.2)) :
    (∀ depth d, Reads (fun fuel => formed? fuel (depth + 4) (.table form)) d
      (addressJson encode t)) ∧ addressOf? decode (addressJson encode t) = some (t.map f) := by
  constructor
  · intro depth d
    refine Json.reads_table fun field hfield => ?_
    obtain ⟨row, hrow, rfl⟩ := List.mem_map.mp hfield
    exact ⟨Json.isPlain_ofInt row.1, (h row hrow).reads depth _⟩
  · have hentries : (addressJson encode t).asEntries (Json.Numeral.word? maxWord16) decode =
        some (t.map f).rows := by
      refine Json.asEntries_map (fun row hrow => ?_) fun row hrow => (h row hrow).decodes
      have hkey : Json.asKey (Text.ofNat row.1) = some (.ofInt row.1) := Json.asKey_ofInt row.1
      rw [hkey, Option.bind_some, Json.Numeral.word?_ofInt (hkeys row hrow)]
    rw [addressOf?, hentries, Option.map_some, (hascending.map f).ofList_rows]

/-! ## Rows -/

/-- All numbers fit their words. -/
structure Fits (r : Rows) : Prop where
  scripts : ∀ row ∈ r.scripts.rows, inInt64 row.1 = true ∧ row.2.Fits
  nodes : ∀ row ∈ r.nodes.rows, inInt64 row.1 = true ∧ row.2.Fits
  links : ∀ row ∈ r.links.rows, inInt64 row.1 = true ∧ row.2.Fits
  locos : ∀ row ∈ r.locos.rows, row.1 ≤ maxWord16 ∧ row.2.Fits

/-- The places of the nodes and the points of the links. -/
def places (r : Rows) : List Coordinate :=
  r.nodes.values.map Node.coordinate ++ r.links.values.flatMap Link.points

/-- What is read of the rows as they are written. -/
def reread (r : Rows) : Rows :=
  { r with nodes := r.nodes.map Node.reread, links := r.links.map Link.reread }

variable {r : Rows}

/-- The text of the rows is read, and every number of a place as it is read alone. -/
theorem read?_write (hfits : r.Fits) (hascending : r.Ascending)
    (hwhole : ∀ c ∈ r.places, c.IsWhole) : read? r.write = some r.reread := by
  have hnode : ∀ row ∈ r.nodes.rows, row.2.coordinate.IsWhole := fun row hrow =>
    hwhole _ (List.mem_append_left _ (List.mem_map_of_mem (List.mem_map_of_mem hrow)))
  have hlink : ∀ row ∈ r.links.rows, ∀ c ∈ row.2.points, c.IsWhole := fun row hrow c hc =>
    hwhole _ (List.mem_append_right _ (List.mem_flatMap.mpr ⟨row.2, List.mem_map_of_mem hrow, hc⟩))
  obtain ⟨hscriptsRead, hscripts⟩ := rereads_table hascending.scripts
    (fun row hrow => (hfits.scripts row hrow).1) (f := id)
    fun row hrow => StoredScript.rereads (hfits.scripts row hrow).2
  obtain ⟨hnodesRead, hnodes⟩ := rereads_table hascending.nodes
    (fun row hrow => (hfits.nodes row hrow).1)
    fun row hrow => Node.rereads (hfits.nodes row hrow).2 (hnode row hrow)
  obtain ⟨hlinksRead, hlinks⟩ := rereads_table hascending.links
    (fun row hrow => (hfits.links row hrow).1)
    fun row hrow => Link.rereads (hfits.links row hrow).2 (hlink row hrow)
  obtain ⟨hlocosRead, hlocos⟩ := rereads_addresses hascending.locos
    (fun row hrow => (hfits.locos row hrow).1) (f := id)
    fun row hrow => LocoRecord.rereads (hfits.locos row hrow).2
  have hdocument : Json.readAs Rows.form r.write = some r.toJson := by
    have hrecord : Reads (fun fuel => formed? fuel (126 + 1) Rows.form) 0 r.toJson := by
      refine Json.reads_record ?_
      simp only [List.forall_mem_cons]
      exact ⟨⟨_, rfl, hscriptsRead 122 1⟩, ⟨_, rfl, hnodesRead 122 1⟩,
        ⟨_, rfl, hlinksRead 122 1⟩, ⟨_, rfl, hlocosRead 122 1⟩, by simp⟩
    exact Json.readAs_writeIndented hrecord
  rw [read?, hdocument, Option.bind_some, toJson, ofJson?, Json.asFields_object]
  · simp [hscripts, hnodes, hlinks, hlocos, Table.map_id, reread]
  · rfl
  · rfl

end Rows

end Signalbox
