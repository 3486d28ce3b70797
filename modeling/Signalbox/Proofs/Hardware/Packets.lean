import Mathlib.Data.List.TakeWhile
import Signalbox.Hardware.Packet

/-
  Signalbox/Proofs/Hardware/Packets.lean --- packets do not depend on how they arrive.

  What the packets of a stream are is said of the whole stream: noise without an
  opening bracket, a packet up to its first closing one, and so on, until no packet
  is complete.  A stream has its packets in one way only.  The reader finds these
  packets, whatever the pieces in which the stream reaches it: what it keeps stands
  for all that it has read, in front of everything that may still come.
-/

set_option autoImplicit false

namespace Signalbox.PacketStream

/-! ## The packets of a stream -/

/-- No closing bracket stands behind an opening one. -/
def IsIncomplete (stream : List UInt8) : Prop :=
  ∀ noise rest, stream = noise ++ openByte :: rest → closeByte ∉ rest

/-- The packets of a stream, in order, each with its brackets. -/
inductive HasPackets : List UInt8 → List (List UInt8) → Prop
  | rest {stream : List UInt8} : IsIncomplete stream → HasPackets stream []
  | packet {noise body stream : List UInt8} {packets : List (List UInt8)} :
      openByte ∉ noise → closeByte ∉ body → HasPackets stream packets →
      HasPackets (noise ++ openByte :: (body ++ closeByte :: stream))
        ((openByte :: (body ++ [closeByte])) :: packets)

/-- The text of a packet. -/
def packetText (packet : List UInt8) : String := String.ofList (Text.ofUtf8 packet)

variable {noise body stream kept later : List UInt8} {packets : List (List UInt8)}

theorem openByte_ne_closeByte : openByte ≠ closeByte := by decide

theorem isIncomplete_nil : IsIncomplete [] := by
  rintro noise rest h
  simp at h

theorem isIncomplete_of_openByte_not_mem (h : openByte ∉ stream) : IsIncomplete stream := by
  rintro noise rest rfl
  exact absurd (by simp) h

theorem not_isIncomplete_packet :
    ¬ IsIncomplete (noise ++ openByte :: (body ++ closeByte :: stream)) :=
  fun h => h noise _ rfl (by simp)

/-- Either nothing is complete, or the stream begins with noise and a packet. -/
theorem isIncomplete_or_packet (stream : List UInt8) :
    IsIncomplete stream ∨ ∃ noise body rest, openByte ∉ noise ∧ closeByte ∉ body ∧
      stream = noise ++ openByte :: (body ++ closeByte :: rest) := by
  by_cases hopen : openByte ∈ stream
  · obtain ⟨noise, begun, rfl, hnoise⟩ := List.eq_append_cons_of_mem hopen
    by_cases hclose : closeByte ∈ begun
    · obtain ⟨body, rest, rfl, hbody⟩ := List.eq_append_cons_of_mem hclose
      exact .inr ⟨noise, body, rest, hnoise, hbody, rfl⟩
    · refine .inl fun front rest heq => ?_
      -- a later opening bracket has no closing one behind it either
      rcases List.append_eq_append_iff.mp heq with ⟨more, rfl, hrest⟩ | ⟨more, rfl, hrest⟩
      · cases more with
        | nil => simp_all
        | cons b more =>
          obtain ⟨-, rfl⟩ := List.cons.inj hrest
          exact fun h => hclose (by simp [h])
      · cases more with
        | nil => simp_all
        | cons b more =>
          obtain ⟨rfl, -⟩ := List.cons.inj hrest
          exact absurd (by simp) hnoise
  · exact .inl (isIncomplete_of_openByte_not_mem hopen)

/-! ## One packet -/

theorem upToClose_of_not_mem (h : closeByte ∉ body) : upToClose body = none := by
  induction body with
  | nil => rfl
  | cons b body ih =>
    obtain ⟨hb, hbody⟩ := List.ne_and_not_mem_of_not_mem_cons h
    rw [upToClose, if_neg hb.symm, ih hbody, Option.map_none]

theorem upToClose_append (h : closeByte ∉ body) (rest : List UInt8) :
    upToClose (body ++ closeByte :: rest) = some (body ++ [closeByte], rest) := by
  induction body with
  | nil => simp [upToClose]
  | cons b body ih =>
    obtain ⟨hb, hbody⟩ := List.ne_and_not_mem_of_not_mem_cons h
    rw [List.cons_append, upToClose, if_neg hb.symm, ih hbody, Option.map_some]
    rfl

/-- Noise is dropped up to the opening bracket. -/
theorem dropWhile_noise (h : openByte ∉ noise) (rest : List UInt8) :
    (noise ++ openByte :: rest).dropWhile (· != openByte) = openByte :: rest := by
  rw [List.dropWhile_append_of_pos, List.dropWhile_cons_of_neg (by simp)]
  intro b hb
  simpa using fun heq : b = openByte => h (heq ▸ hb)

theorem dropWhile_of_openByte_not_mem (h : openByte ∉ stream) :
    stream.dropWhile (· != openByte) = [] := by
  rw [List.dropWhile_eq_nil_iff]
  intro b hb
  simpa using fun heq : b = openByte => h (heq ▸ hb)

/-- A packet is found behind noise, and what follows it is kept. -/
theorem take_packet (hnoise : openByte ∉ noise) (hbody : closeByte ∉ body) (rest : List UInt8) :
    take (noise ++ openByte :: (body ++ closeByte :: rest)) =
      (some (packetText (openByte :: (body ++ [closeByte]))), rest) := by
  have hclose : closeByte ∉ openByte :: body := by
    simp [hbody, openByte_ne_closeByte.symm]
  have hfirst := upToClose_append hclose rest
  rw [List.cons_append] at hfirst
  simp only [take, dropWhile_noise hnoise, hfirst]
  rfl

/-- Nothing is found where nothing is complete.  An open packet is kept as it is, and
noise may be thrown away. -/
theorem take_of_isIncomplete (h : IsIncomplete kept) :
    take kept = (none, kept) ∨ openByte ∉ kept ∧ take kept = (none, []) := by
  by_cases hopen : openByte ∈ kept
  · obtain ⟨noise, begun, rfl, hnoise⟩ := List.eq_append_cons_of_mem hopen
    have hclose : closeByte ∉ openByte :: begun := by
      simp [h noise begun rfl, openByte_ne_closeByte.symm]
    left
    simp only [take, dropWhile_noise hnoise, upToClose_of_not_mem hclose]
  · right
    exact ⟨hopen, by simp only [take, dropWhile_of_openByte_not_mem hopen]⟩

/-- The noise in front of a stream is no part of its packets. -/
theorem HasPackets.append_noise (h : HasPackets stream packets) (hnoise : openByte ∉ noise) :
    HasPackets (noise ++ stream) packets := by
  cases h with
  | rest hrest =>
    refine .rest fun front rest heq => ?_
    rcases List.append_eq_append_iff.mp heq with ⟨more, rfl, rfl⟩ | ⟨more, rfl, hmore⟩
    · exact hrest more rest rfl
    · cases more with
      | nil => exact hrest [] rest hmore.symm
      | cons b more =>
        obtain ⟨rfl, -⟩ := List.cons.inj hmore
        exact absurd (by simp) hnoise
  | packet hfront hbody hstream =>
    rw [← List.append_assoc]
    exact .packet (by simp [hnoise, hfront]) hbody hstream

/-! ## All packets -/

/-- What is kept stands for what was read: the packets found so far, and those of the
bytes kept with any bytes behind them, are the packets of all these bytes. -/
theorem takeAll_hasPackets {fuel : Nat} (hfuel : kept.length < fuel) :
    ∃ found, (takeAll fuel kept).1 = found.map packetText ∧
      IsIncomplete (takeAll fuel kept).2 ∧
      ∀ later packets, HasPackets ((takeAll fuel kept).2 ++ later) packets →
        HasPackets (kept ++ later) (found ++ packets) := by
  induction fuel generalizing kept with
  | zero => exact absurd hfuel (Nat.not_lt_zero _)
  | succ fuel ih =>
    rcases isIncomplete_or_packet kept with hkept | ⟨noise, body, rest, hnoise, hbody, rfl⟩
    · rcases take_of_isIncomplete hkept with htake | ⟨hopen, htake⟩
      · rw [takeAll, htake]
        exact ⟨[], rfl, hkept, fun later packets h => h⟩
      · rw [takeAll, htake]
        exact ⟨[], rfl, isIncomplete_nil, fun later packets h => h.append_noise hopen⟩
    · have hrest : rest.length < fuel := by
        simp only [List.length_append, List.length_cons] at hfuel
        omega
      obtain ⟨found, hfound, hincomplete, hlater⟩ := ih hrest
      rw [takeAll, take_packet hnoise hbody]
      refine ⟨(openByte :: (body ++ [closeByte])) :: found, by simp [hfound], hincomplete, ?_⟩
      intro later packets h
      simpa using HasPackets.packet hnoise hbody (hlater later packets h)

theorem packetsOf_cons (kept piece : List UInt8) (pieces : List (List UInt8)) :
    packetsOf kept (piece :: pieces) =
      (feed kept piece).1 ++ packetsOf (feed kept piece).2 pieces := rfl

/-- The pieces complete the packets of what is kept and of all that arrives. -/
theorem packetsOf_hasPackets (hkept : IsIncomplete kept) (pieces : List (List UInt8)) :
    ∃ packets, HasPackets (kept ++ pieces.flatten) packets ∧
      packetsOf kept pieces = packets.map packetText := by
  induction pieces generalizing kept with
  | nil => exact ⟨[], .rest (by simpa using hkept), rfl⟩
  | cons piece pieces ih =>
    obtain ⟨found, hfound, hincomplete, hlater⟩ :=
      takeAll_hasPackets (Nat.lt_succ_self (kept ++ piece).length)
    rw [packetsOf_cons, feed]
    obtain ⟨packets, hpackets, htexts⟩ := ih hincomplete
    refine ⟨found ++ packets, ?_, ?_⟩
    · simpa using hlater _ _ hpackets
    · rw [htexts, hfound, List.map_append]

/-! ## One way to read -/

/-- The place of the first packet is fixed by the stream. -/
theorem packet_inj {noise' body' stream' : List UInt8} (hnoise : openByte ∉ noise)
    (hbody : closeByte ∉ body) (hnoise' : openByte ∉ noise') (hbody' : closeByte ∉ body')
    (heq : noise ++ openByte :: (body ++ closeByte :: stream) =
      noise' ++ openByte :: (body' ++ closeByte :: stream')) :
    body = body' ∧ stream = stream' := by
  have hbegun := congrArg (List.dropWhile (· != openByte)) heq
  rw [dropWhile_noise hnoise, dropWhile_noise hnoise'] at hbegun
  have hfirst := congrArg upToClose (List.cons.inj hbegun).2
  rw [upToClose_append hbody, upToClose_append hbody', Option.some.injEq, Prod.mk.injEq] at hfirst
  exact ⟨List.append_cancel_right hfirst.1, hfirst.2⟩

/-- A stream has its packets in one way only. -/
theorem HasPackets.unique {packets' : List (List UInt8)} (h : HasPackets stream packets)
    (h' : HasPackets stream packets') : packets = packets' := by
  induction h generalizing packets' with
  | rest hrest =>
    cases h' with
    | rest _ => rfl
    | packet _ _ _ => exact absurd hrest not_isIncomplete_packet
  | packet hnoise hbody hstream ih =>
    generalize hwhole : _ ++ openByte :: (_ ++ closeByte :: _) = whole at h'
    cases h' with
    | rest hrest => exact absurd (hwhole ▸ hrest) not_isIncomplete_packet
    | packet hnoise' hbody' hstream' =>
      obtain ⟨rfl, rfl⟩ := packet_inj hnoise hbody hnoise' hbody' hwhole
      rw [ih hstream']

/-- The reader finds the packets of the stream and nothing else, so that the pieces in
which the stream arrived leave no trace: in one piece it has the same packets. -/
theorem packetsOf_eq_iff (pieces : List (List UInt8)) (texts : List String) :
    (packetsOf [] pieces = texts ↔
      ∃ packets, HasPackets pieces.flatten packets ∧ texts = packets.map packetText) ∧
    packetsOf [] pieces = packetsOf [] [pieces.flatten] := by
  obtain ⟨packets, hpackets, htexts⟩ := packetsOf_hasPackets isIncomplete_nil pieces
  obtain ⟨whole, hwhole, hone⟩ := packetsOf_hasPackets isIncomplete_nil [pieces.flatten]
  rw [List.nil_append] at hpackets
  rw [List.nil_append, List.flatten_singleton] at hwhole
  refine ⟨⟨?_, ?_⟩, ?_⟩
  · rintro rfl
    exact ⟨packets, hpackets, htexts⟩
  · rintro ⟨others, hothers, rfl⟩
    rw [htexts, hpackets.unique hothers]
  · rw [htexts, hone, hpackets.unique hwhole]

end Signalbox.PacketStream
