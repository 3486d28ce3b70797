import Signalbox.Event.Publish

/-
  Signalbox/Proofs/Config/Topics.lean --- short names, and the topics made of them.

  A text that is cut to a number of bytes keeps the longest part that it begins with and
  that has no more bytes.  What carries this is that the parts that the cut text begins
  with are those parts of the whole text that fit.

  A topic is put together from the topic prefix, a slash and the name of an event, and a
  piece that does not fit is left out.  None ever is: the prefix has been cut, and there
  is room for the name of every event behind it.  A prefix may have slashes of its own.
  Still the topic tells where it ends, since every name has exactly one slash.
-/

set_option autoImplicit false

namespace Signalbox

/-! ## The bytes of a text -/

namespace Text

variable {as bs cs : List Char} {capacity : Nat}

theorem utf8Size_nil : utf8Size [] = 0 := rfl

theorem utf8Size_cons (c : Char) (cs : List Char) :
    utf8Size (c :: cs) = c.utf8Size + utf8Size cs := by
  have hfrom (cs : List Char) (n : Nat) :
      cs.foldl (fun size c => size + c.utf8Size) n = n + utf8Size cs := by
    induction cs generalizing n with
    | nil => rfl
    | cons c cs ih => rw [utf8Size, List.foldl_cons, List.foldl_cons, ih, ih, Nat.zero_add,
        Nat.add_assoc]
  rw [utf8Size, List.foldl_cons, Nat.zero_add, hfrom]

theorem utf8Size_append (as bs : List Char) :
    utf8Size (as ++ bs) = utf8Size as + utf8Size bs := by
  induction as with
  | nil => rw [List.nil_append, utf8Size_nil, Nat.zero_add]
  | cons a as ih => rw [List.cons_append, utf8Size_cons, utf8Size_cons, ih, Nat.add_assoc]

/-- The bytes that are counted are those of the encoded text. -/
theorem utf8Size_eq (cs : List Char) : utf8Size cs = (String.ofList cs).utf8ByteSize := by
  induction cs with
  | nil => rw [utf8Size_nil, String.ofList_nil, String.utf8ByteSize_empty]
  | cons c cs ih =>
    rw [utf8Size_cons, ih, String.ofList_cons, String.utf8ByteSize_append,
      String.utf8ByteSize_singleton]

theorem utf8Size_le_of_isPrefix (h : as <+: bs) : utf8Size as ≤ utf8Size bs := by
  obtain ⟨rest, rfl⟩ := h
  rw [utf8Size_append]
  exact Nat.le_add_right _ _

/-- A character has a byte, so what a text begins with has fewer bytes unless it is the text. -/
theorem eq_of_isPrefix (h : as <+: bs) (hsize : utf8Size bs ≤ utf8Size as) : as = bs := by
  obtain ⟨rest, rfl⟩ := h
  cases rest with
  | nil => rw [List.append_nil]
  | cons c rest =>
    have hpos := c.utf8Size_pos
    rw [utf8Size_append, utf8Size_cons] at hsize
    omega

/-! ### The part that fits -/

/-- The part that fits begins as the text does, as far as the bytes reach. -/
theorem prefix_fitting_iff :
    as <+: fitting capacity cs ↔ as <+: cs ∧ utf8Size as ≤ capacity := by
  induction cs generalizing capacity as with
  | nil =>
    rw [fitting, List.prefix_nil]
    constructor
    · rintro rfl
      exact ⟨rfl, Nat.zero_le _⟩
    · exact And.left
  | cons c cs ih =>
    cases as with
    | nil => simp [utf8Size_nil]
    | cons a as =>
      rw [fitting, utf8Size_cons, List.cons_prefix_cons]
      split
      · rename_i hfits
        rw [List.cons_prefix_cons, ih]
        constructor
        · rintro ⟨rfl, hbegins, hsize⟩
          exact ⟨⟨rfl, hbegins⟩, by omega⟩
        · rintro ⟨⟨rfl, hbegins⟩, hsize⟩
          exact ⟨rfl, hbegins, by omega⟩
      · rename_i hfull
        constructor
        · intro h
          exact absurd (List.prefix_nil.mp h) (List.cons_ne_nil a as)
        · rintro ⟨⟨rfl, -⟩, hsize⟩
          omega

theorem isPrefix_fitting (capacity : Nat) (cs : List Char) : fitting capacity cs <+: cs :=
  (prefix_fitting_iff.mp List.prefix_rfl).1

/-- What is cut to a number of bytes has no more bytes. -/
theorem utf8Size_fitting_le (capacity : Nat) (cs : List Char) :
    utf8Size (fitting capacity cs) ≤ capacity :=
  (prefix_fitting_iff.mp List.prefix_rfl).2

end Text

/-! ## Cut texts -/

theorem byteSize_eq (s : String) : byteSize s = s.utf8ByteSize := by
  rw [byteSize, Text.utf8Size_eq, String.ofList_toList]

theorem byteSize_append (s t : String) : byteSize (s ++ t) = byteSize s + byteSize t := by
  rw [byteSize, String.toList_append, Text.utf8Size_append, byteSize, byteSize]

theorem toList_bounded (capacity : Nat) (s : String) :
    (bounded capacity s).toList = Text.fitting capacity s.toList :=
  String.toList_ofList

theorem byteSize_bounded_le (capacity : Nat) (s : String) :
    byteSize (bounded capacity s) ≤ capacity := by
  rw [byteSize, toList_bounded]
  exact Text.utf8Size_fitting_le capacity s.toList

theorem exists_append_iff {s t : String} : (∃ rest, t ++ rest = s) ↔ t.toList <+: s.toList := by
  constructor
  · rintro ⟨rest, rfl⟩
    exact ⟨rest.toList, String.toList_append.symm⟩
  · rintro ⟨rest, hrest⟩
    refine ⟨String.ofList rest, String.toList_inj.mp ?_⟩
    rw [String.toList_append, String.toList_ofList, hrest]

/-- The text `t` is the longest of those that `s` begins with and that have no more than
`capacity` bytes in UTF-8.  Texts are made of whole characters, so none of them is cut. -/
structure IsLongestFit (capacity : Nat) (s t : String) : Prop where
  begins : ∃ rest, t ++ rest = s
  fits : t.utf8ByteSize ≤ capacity
  longest : ∀ u rest : String, u ++ rest = s → u.utf8ByteSize ≤ capacity →
    u.utf8ByteSize ≤ t.utf8ByteSize

theorem isLongestFit_bounded (capacity : Nat) (s : String) :
    IsLongestFit capacity s (bounded capacity s) where
  begins := by
    rw [exists_append_iff, toList_bounded]
    exact Text.isPrefix_fitting capacity s.toList
  fits := by
    rw [← byteSize_eq]
    exact byteSize_bounded_le capacity s
  longest := by
    intro u rest hu hsize
    rw [← byteSize_eq] at hsize
    rw [← byteSize_eq, ← byteSize_eq, byteSize, byteSize, toList_bounded]
    apply Text.utf8Size_le_of_isPrefix
    rw [Text.prefix_fitting_iff]
    exact ⟨exists_append_iff.mp ⟨rest, hu⟩, hsize⟩

/-- Two texts that another begins with are the same if they have equally many bytes. -/
theorem IsLongestFit.unique {capacity : Nat} {s t t' : String} (h : IsLongestFit capacity s t)
    (h' : IsLongestFit capacity s t') : t = t' := by
  obtain ⟨rest, hrest⟩ := h.begins
  obtain ⟨rest', hrest'⟩ := h'.begins
  have hle : byteSize t ≤ byteSize t' := by
    rw [byteSize_eq, byteSize_eq]
    exact h'.longest t rest hrest h.fits
  have hge : byteSize t' ≤ byteSize t := by
    rw [byteSize_eq, byteSize_eq]
    exact h.longest t' rest' hrest' h'.fits
  apply String.toList_inj.mp
  rcases List.prefix_or_prefix_of_prefix (exists_append_iff.mp h.begins)
    (exists_append_iff.mp h'.begins) with hbegins | hbegins
  · exact Text.eq_of_isPrefix hbegins hge
  · exact (Text.eq_of_isPrefix hbegins hle).symm

theorem bounded_eq_iff {capacity : Nat} {s t : String} :
    bounded capacity s = t ↔ IsLongestFit capacity s t := by
  constructor
  · rintro rfl
    exact isLongestFit_bounded capacity s
  · intro h
    exact (isLongestFit_bounded capacity s).unique h

/-! ## Pieces put together -/

section Pieces

variable {capacity : Nat} {s : String}

theorem byteSize_appendFitting_le (h : byteSize s ≤ capacity) (piece : String) :
    byteSize (appendFitting capacity s piece) ≤ capacity := by
  rw [appendFitting]
  split
  · rename_i hfits
    rwa [byteSize_append]
  · exact h

/-- Whatever the pieces are, the text does not grow beyond its capacity. -/
theorem byteSize_foldl_appendFitting_le (h : byteSize s ≤ capacity) (pieces : List String) :
    byteSize (pieces.foldl (appendFitting capacity) s) ≤ capacity := by
  induction pieces generalizing s with
  | nil => exact h
  | cons piece pieces ih => exact ih (byteSize_appendFitting_le h piece)

/-- No piece is left out if all of them fit together. -/
theorem foldl_appendFitting_eq {pieces : List String}
    (h : byteSize (s ++ String.join pieces) ≤ capacity) :
    pieces.foldl (appendFitting capacity) s = s ++ String.join pieces := by
  induction pieces generalizing s with
  | nil => rw [List.foldl_nil, String.join_nil, String.append_empty]
  | cons piece pieces ih =>
    rw [String.join_cons, ← String.append_assoc] at h ⊢
    have hfits : byteSize s + byteSize piece ≤ capacity := by
      rw [byteSize_append, byteSize_append] at h
      omega
    rw [List.foldl_cons, appendFitting, if_pos hfits]
    exact ih h

end Pieces

/-- Two texts with a separator between them are found again in the whole, if the number of
separators in the second is known. -/
theorem append_cons_inj_of_count {α : Type} [DecidableEq α] {a : α} {xs xs' ys ys' : List α}
    (hcount : ys.count a = ys'.count a) (h : xs ++ a :: ys = xs' ++ a :: ys') :
    xs = xs' ∧ ys = ys' := by
  -- If one separator stood before the other, there would be one more behind it.
  have hnone {es zs zs' : List α} (heq : a :: zs = es ++ a :: zs')
      (hzs : zs.count a = zs'.count a) : es = [] := by
    cases es with
    | nil => rfl
    | cons e es =>
      obtain ⟨-, htail⟩ := List.cons.inj heq
      have hmore : zs.count a = es.count a + (zs'.count a + 1) := by
        rw [htail, List.append_eq, List.count_append, List.count_cons_self]
      omega
  rcases List.append_eq_append_iff.mp h with ⟨es, rfl, heq⟩ | ⟨es, rfl, heq⟩
  · obtain rfl := hnone heq hcount
    exact ⟨(List.append_nil xs).symm, (List.cons.inj heq).2⟩
  · obtain rfl := hnone heq hcount.symm
    exact ⟨List.append_nil xs', (List.cons.inj heq).2.symm⟩

/-! ## Topics -/

namespace Event

/-- There is room for the name of every event behind a slash and a short name. -/
theorem byteSize_name_le (e : Event) : shortNameSize + 1 + byteSize e.name ≤ topicSize := by
  cases e <;> simp only [name] <;> decide

/-- A name has a slash between the group that the event belongs to and what happens in it. -/
theorem count_slash_name (e : Event) : e.name.toList.count '/' = 1 := by
  cases e <;> simp only [name] <;> decide

end Event

namespace MqttConfig

variable {m : MqttConfig}

/-- No topic is too long, whatever the prefix and the name are. -/
theorem byteSize_topic_le (m : MqttConfig) (name : String) : byteSize (m.topic name) ≤ topicSize :=
  byteSize_foldl_appendFitting_le (Nat.zero_le _) _

/-- Nothing is left out of a topic if there is room for all of it. -/
theorem topic_eq {name : String}
    (h : byteSize m.topicPrefix + 1 + byteSize name ≤ topicSize) :
    m.topic name = m.topicPrefix ++ "/" ++ name := by
  have hjoin : "" ++ String.join [m.topicPrefix, "/", name] = m.topicPrefix ++ "/" ++ name := by
    rw [String.empty_append, String.join_cons, String.join_cons, String.join_cons, String.join_nil,
      String.append_empty, String.append_assoc]
  have hslash : byteSize "/" = 1 := rfl
  have hall : byteSize ("" ++ String.join [m.topicPrefix, "/", name]) ≤ topicSize := by
    rw [hjoin, byteSize_append, byteSize_append]
    omega
  rw [topic, foldl_appendFitting_eq hall, hjoin]

/-- Under a short prefix, an event is published with its whole name. -/
theorem topic_message (h : byteSize m.topicPrefix ≤ shortNameSize) (e : Event) :
    (m.message e).topic = m.topicPrefix ++ "/" ++ e.name := by
  have hname := e.byteSize_name_le
  exact topic_eq (by omega)

theorem topicPrefix_withTopicPrefix (m : MqttConfig) (text : String) :
    (m.withTopicPrefix text).topicPrefix = bounded shortNameSize text := rfl

theorem topic_message_withTopicPrefix (m : MqttConfig) (text : String) (e : Event) :
    ((m.withTopicPrefix text).message e).topic = bounded shortNameSize text ++ "/" ++ e.name := by
  have hshort : byteSize (m.withTopicPrefix text).topicPrefix ≤ shortNameSize := by
    rw [topicPrefix_withTopicPrefix]
    exact byteSize_bounded_le shortNameSize text
  rw [topic_message hshort, topicPrefix_withTopicPrefix]

/-- The prefix and the name of an event are found again in what is put together of them. -/
theorem prefixed_name_inj {s s' : String} {e e' : Event} :
    s ++ "/" ++ e.name = s' ++ "/" ++ e'.name ↔ s = s' ∧ e.name = e'.name := by
  constructor
  · intro h
    have hlist (s : String) (e : Event) :
        (s ++ "/" ++ e.name).toList = s.toList ++ '/' :: e.name.toList := by
      rw [String.toList_append, String.toList_append, List.append_assoc]
      rfl
    have hlists := congrArg String.toList h
    rw [hlist, hlist] at hlists
    have hcount : e.name.toList.count '/' = e'.name.toList.count '/' := by
      rw [e.count_slash_name, e'.count_slash_name]
    obtain ⟨hfront, hname⟩ := append_cons_inj_of_count hcount hlists
    exact ⟨String.toList_inj.mp hfront, String.toList_inj.mp hname⟩
  · rintro ⟨rfl, hname⟩
    rw [hname]

/-- A text is cut to the longest part that it begins with and that fits.  So the topic of an event
is the cut prefix, a slash and the whole name of the event, in at most 128 bytes, and whatever the
prefixes were, events of one topic have one name. -/
theorem topics_by_name :
    (∀ (capacity : Nat) (s t : String), bounded capacity s = t ↔ IsLongestFit capacity s t) ∧
    ∀ (m : MqttConfig) (text : String) (e : Event),
      ((m.withTopicPrefix text).message e).topic = bounded shortNameSize text ++ "/" ++ e.name ∧
      ((m.withTopicPrefix text).message e).topic.utf8ByteSize ≤ 128 ∧
      ∀ (m' : MqttConfig) (text' : String) (e' : Event),
        ((m.withTopicPrefix text).message e).topic = ((m'.withTopicPrefix text').message e').topic ↔
          bounded shortNameSize text = bounded shortNameSize text' ∧ e.name = e'.name := by
  refine ⟨fun capacity s t => bounded_eq_iff, fun m text e => ⟨?_, ?_, fun m' text' e' => ?_⟩⟩
  · exact topic_message_withTopicPrefix m text e
  · rw [← byteSize_eq]
    exact byteSize_topic_le (m.withTopicPrefix text) e.name
  · rw [topic_message_withTopicPrefix, topic_message_withTopicPrefix]
    exact prefixed_name_inj

/-- The next character has two bytes and there is room for one: the prefix is cut in front of it. -/
example : ((default.withTopicPrefix (String.ofList ('a' :: List.replicate 40 'é'))).message
    (.power true)).topic =
      String.ofList ('a' :: List.replicate 31 'é') ++ "/throttle/trackPowerUpdate" := by
  decide +kernel

end MqttConfig

end Signalbox
