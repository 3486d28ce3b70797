import Mathlib.Algebra.GroupWithZero.Nat
import Signalbox.Hardware.Station
import Signalbox.Proofs.Hardware.Packets

/-
  Signalbox/Proofs/Hardware/Greeting.lean --- what a station sends is heard once.

  A station sends chunks of bytes at some moments and hangs up in the end, or never.
  The bytes that were sent by a moment have their packets, wherever the chunks part
  them.  The connection comes about exactly if one of those complete before the time
  is over announces the station; otherwise it is the hang-up or the time that ends it.
  The reader that waited for the announcement is the one that goes on reading, with
  the bytes that came behind it: so the packets noted before, the announcement and
  those noted afterwards are the packets that the station has sent.
-/

set_option autoImplicit false

namespace Signalbox

/-! ## What was read of a stream -/

namespace PacketStream

/-- The texts of the packets of a stream. -/
def HasTexts (stream : List UInt8) (texts : List String) : Prop :=
  ∃ packets, HasPackets stream packets ∧ texts = packets.map packetText

/-- A stream was read: its packets were found, and what is kept of it stands for the rest in
front of all that is to come. -/
structure Reads (stream : List UInt8) (texts : List String) (kept : List UInt8) : Prop where
  incomplete : IsIncomplete kept
  stands : ∀ later more, HasTexts (kept ++ later) more → HasTexts (stream ++ later) (texts ++ more)

variable {stream kept : List UInt8} {texts : List String}

theorem reads_nil : Reads [] [] [] := ⟨isIncomplete_nil, fun _ _ h => h⟩

theorem Reads.hasTexts (h : Reads stream texts kept) : HasTexts stream texts := by
  have hrest : HasTexts (kept ++ []) [] := ⟨[], .rest (by simpa using h.incomplete), rfl⟩
  simpa using h.stands [] [] hrest

/-- A piece more was read. -/
theorem Reads.feed (h : Reads stream texts kept) (piece : List UInt8) :
    Reads (stream ++ piece) (texts ++ (feed kept piece).1) (feed kept piece).2 := by
  obtain ⟨found, hfound, hincomplete, hlater⟩ :=
    takeAll_hasPackets (Nat.lt_succ_self (kept ++ piece).length)
  refine ⟨hincomplete, ?_⟩
  rintro later more ⟨packets, hpackets, rfl⟩
  have hwhole : HasTexts (kept ++ (piece ++ later)) ((found ++ packets).map packetText) :=
    ⟨_, by simpa using hlater later packets hpackets, rfl⟩
  have hstream := h.stands _ _ hwhole
  rw [PacketStream.feed, hfound]
  simpa using hstream

/-- A stream has its texts in one way only, and they stay when more bytes come. -/
theorem Reads.exists_hasTexts (h : Reads stream texts kept) (later : List UInt8) :
    ∃ more, HasTexts (stream ++ later) (texts ++ more) := by
  have hall := (h.feed later).hasTexts
  exact ⟨_, hall⟩

theorem HasTexts.unique {texts' : List String} (h : HasTexts stream texts)
    (h' : HasTexts stream texts') : texts = texts' := by
  obtain ⟨packets, hpackets, rfl⟩ := h
  obtain ⟨packets', hpackets', rfl⟩ := h'
  rw [hpackets.unique hpackets']

end PacketStream

/-! ## What a station does -/

open PacketStream

/-- What a station does once it was asked for its status: it sends chunks of bytes, each some
time after the one before, and hangs up some time after the last one, or never. -/
structure StationCourse where
  chunks : List (Nat × List UInt8)
  hangsUp : Option Nat
  deriving DecidableEq, Repr

/-- What an event sends. -/
def StationEvent.bytes (e : StationEvent) : List UInt8 :=
  match e.deed with
  | .send bytes => bytes
  | .hangUp => []

namespace StationCourse

/-- The deeds of the station with their moments. -/
def events (c : StationCourse) : List StationEvent :=
  StationEvent.after 0 (c.chunks.map (fun chunk => (chunk.1, .send chunk.2)) ++
    c.hangsUp.toList.map fun wait => (wait, .hangUp))

/-- The bytes that were sent by a moment. -/
def sentBy (c : StationCourse) (moment : Nat) : List UInt8 :=
  (c.events.filter (·.moment ≤ moment)).flatMap StationEvent.bytes

/-- The bytes that were sent before a moment. -/
def sentBefore (c : StationCourse) (moment : Nat) : List UInt8 :=
  (c.events.filter (·.moment < moment)).flatMap StationEvent.bytes

/-- The station hangs up before a moment. -/
def HangsUpBefore (c : StationCourse) (moment : Nat) : Prop :=
  ∃ m < moment, ⟨m, .hangUp⟩ ∈ c.events

end StationCourse

/-- Nothing is done earlier than what stands before it, and nothing after a hang-up. -/
def IsOrderly (events : List StationEvent) : Prop :=
  events.Pairwise fun e later => e.moment ≤ later.moment ∧ e.deed ≠ .hangUp

theorem le_of_mem_after {moment : Nat} {deeds : List (Nat × StationDeed)} {e : StationEvent}
    (h : e ∈ StationEvent.after moment deeds) : moment ≤ e.moment := by
  induction deeds generalizing moment with
  | nil => simp [StationEvent.after] at h
  | cons d deeds ih =>
    rcases List.mem_cons.mp h with rfl | h
    · exact Nat.le_add_right _ _
    · exact Nat.le_trans (Nat.le_add_right _ _) (ih h)

theorem isOrderly_after {deeds : List (Nat × StationDeed)} (moment : Nat)
    (h : deeds.Pairwise fun d _ => d.2 ≠ .hangUp) :
    IsOrderly (StationEvent.after moment deeds) := by
  induction deeds generalizing moment with
  | nil => exact List.Pairwise.nil
  | cons d deeds ih =>
    obtain ⟨hdeed, hdeeds⟩ := List.pairwise_cons.mp h
    refine List.pairwise_cons.mpr ⟨fun e he => ⟨le_of_mem_after he, ?_⟩, ih _ hdeeds⟩
    cases deeds with
    | nil => simp [StationEvent.after] at he
    | cons d' deeds => exact hdeed d' List.mem_cons_self

theorem IsOrderly.le_of_cons {e : StationEvent} {ahead : List StationEvent}
    (h : IsOrderly (e :: ahead)) : ∀ d ∈ e :: ahead, e.moment ≤ d.moment :=
  List.forall_mem_cons.mpr ⟨Nat.le_refl _, fun _ hd => (List.rel_of_pairwise_cons h hd).1⟩

theorem IsOrderly.eq_nil_of_hangUp {e : StationEvent} {ahead : List StationEvent}
    (h : IsOrderly (e :: ahead)) (hdeed : e.deed = .hangUp) : ahead = [] :=
  List.eq_nil_iff_forall_not_mem.mpr fun _ hd => (List.rel_of_pairwise_cons h hd).2 hdeed

theorem StationCourse.isOrderly (c : StationCourse) : IsOrderly c.events := by
  have hchunk : ∀ d ∈ c.chunks.map (fun chunk => (chunk.1, StationDeed.send chunk.2)),
      d.2 ≠ .hangUp := by
    intro d hd
    obtain ⟨chunk, -, rfl⟩ := List.mem_map.mp hd
    exact StationDeed.noConfusion
  refine isOrderly_after 0 (List.pairwise_append.mpr ⟨?_, ?_, fun d hd _ _ => hchunk d hd⟩)
  · exact List.Pairwise.imp_of_mem (fun hd _ _ => hchunk _ hd) (List.pairwise_of_forall fun _ _ =>
      trivial)
  · cases c.hangsUp <;> simp

/-! ## The announcement -/

/-- A packet with which a station announces itself. -/
def Announces (packet : String) : Prop := ['<', 'i'] <+: packet.toList

theorem isBanner_iff {packet : String} : isBanner packet = true ↔ Announces packet := by
  unfold isBanner Announces
  constructor
  · intro h
    split at h
    · rename_i rest hchars
      exact ⟨rest, hchars.symm⟩
    · simp at h
  · rintro ⟨rest, hchars⟩
    rw [← hchars]
    rfl

/-- The first announcement is found, with all packets in their places. -/
theorem splitBanner_cases (packets : List String) :
    (splitBanner packets = (packets, none) ∧ ∀ p ∈ packets, ¬ Announces p) ∨
      ∃ before banner extra, splitBanner packets = (before, some (banner, extra)) ∧
        packets = before ++ banner :: extra ∧ (∀ p ∈ before, ¬ Announces p) ∧ Announces banner := by
  induction packets with
  | nil => exact .inl ⟨rfl, fun _ h => absurd h List.not_mem_nil⟩
  | cons packet packets ih =>
    rw [splitBanner]
    split
    · rename_i hbanner
      exact .inr ⟨[], packet, packets, rfl, rfl, fun _ h => absurd h List.not_mem_nil,
        isBanner_iff.mp hbanner⟩
    · rename_i hbanner
      rw [isBanner_iff] at hbanner
      rcases ih with ⟨hsplit, hnone⟩ | ⟨before, banner, extra, hsplit, rfl, hnone, hsome⟩
      · left
        rw [hsplit]
        exact ⟨rfl, List.forall_mem_cons.mpr ⟨hbanner, hnone⟩⟩
      · right
        rw [hsplit]
        exact ⟨packet :: before, banner, extra, rfl, rfl,
          List.forall_mem_cons.mpr ⟨hbanner, hnone⟩, hsome⟩

/-- How waiting for the announcement ends, when the stream has been read before: with the
announcement, with the hang-up, or when the time is over.  The deeds up to then are in front of
those still ahead. -/
inductive Greeted (timeout : Nat) (stream : List UInt8) (events : List StationEvent) :
    Greeting → Prop
  | announced (front : List StationEvent) {e : StationEvent} {link : StationLink}
      {noted extra : List String} (split : events = front ++ e :: link.ahead)
      (early : ∀ d ∈ front ++ [e], d.moment < timeout)
      (reads : Reads (stream ++ (front ++ [e]).flatMap StationEvent.bytes)
        (noted ++ link.banner :: extra) link.kept)
      (quiet : ∀ p ∈ noted, ¬ Announces p) (announces : Announces link.banner)
      (reading : link.reading = true) :
      Greeted timeout stream events ⟨.ok link, e.moment, noted, extra⟩
  | hungUp (front : List StationEvent) {moment : Nat} {noted : List String}
      (split : events = front ++ [⟨moment, .hangUp⟩])
      (early : ∀ d ∈ front, d.moment < timeout) (before : moment < timeout)
      (texts : HasTexts (stream ++ front.flatMap StationEvent.bytes) noted)
      (quiet : ∀ p ∈ noted, ¬ Announces p) :
      Greeted timeout stream events ⟨.error .closed, moment, noted, []⟩
  | late (front : List StationEvent) {ahead : List StationEvent} {noted : List String}
      (split : events = front ++ ahead) (early : ∀ d ∈ front, d.moment < timeout)
      (sends : ∀ d ∈ front, d.deed ≠ .hangUp) (after : ∀ d ∈ ahead, timeout ≤ d.moment)
      (texts : HasTexts (stream ++ front.flatMap StationEvent.bytes) noted)
      (quiet : ∀ p ∈ noted, ¬ Announces p) :
      Greeted timeout stream events ⟨.error (.noResponse timeout), timeout, noted, []⟩

variable {timeout : Nat} {stream kept : List UInt8} {events : List StationEvent}
  {noted : List String}

/-- A chunk more in front. -/
theorem Greeted.cons {moment : Nat} {bytes : List UInt8} {g : Greeting} (hearly : moment < timeout)
    (h : Greeted timeout (stream ++ bytes) events g) :
    Greeted timeout stream (⟨moment, .send bytes⟩ :: events) g := by
  cases h with
  | announced front split early reads quiet announces reading =>
    refine .announced (⟨moment, .send bytes⟩ :: front) (by rw [split]; rfl)
      (List.forall_mem_cons.mpr ⟨hearly, early⟩) ?_ quiet announces reading
    simpa [StationEvent.bytes] using reads
  | hungUp front split early before texts quiet =>
    refine .hungUp (⟨moment, .send bytes⟩ :: front) (by rw [split]; rfl)
      (List.forall_mem_cons.mpr ⟨hearly, early⟩) before ?_ quiet
    simpa [StationEvent.bytes] using texts
  | late front split early sends after texts quiet =>
    refine .late (⟨moment, .send bytes⟩ :: front) (by rw [split]; rfl)
      (List.forall_mem_cons.mpr ⟨hearly, early⟩)
      (List.forall_mem_cons.mpr ⟨StationDeed.noConfusion, sends⟩) after ?_ quiet
    simpa [StationEvent.bytes] using texts

theorem greeted (horder : IsOrderly events) (hreads : Reads stream noted kept)
    (hquiet : ∀ p ∈ noted, ¬ Announces p) :
    Greeted timeout stream events (greet timeout noted kept events) := by
  induction events generalizing stream noted kept with
  | nil =>
    refine .late [] rfl (by simp) (by simp) (by simp) ?_ hquiet
    simpa using hreads.hasTexts
  | cons e ahead ih =>
    obtain ⟨moment, deed⟩ := e
    rw [greet]
    split
    · rename_i hlate
      have hlater : ∀ d ∈ StationEvent.mk moment deed :: ahead, timeout ≤ d.moment :=
        fun d hd => Nat.le_trans hlate (horder.le_of_cons d hd)
      refine .late [] rfl (by simp) (by simp) hlater ?_ hquiet
      simpa using hreads.hasTexts
    · rename_i hnotLate
      have hearly : moment < timeout := Nat.lt_of_not_le hnotLate
      cases deed with
      | hangUp =>
        have hlast : ahead = [] := horder.eq_nil_of_hangUp rfl
        refine .hungUp [] (by rw [hlast]; rfl) (by simp) hearly ?_ hquiet
        simpa using hreads.hasTexts
      | send bytes =>
        have hfed := hreads.feed bytes
        simp only
        rcases splitBanner_cases (feed kept bytes).1 with
          ⟨hsplit, hnone⟩ | ⟨before, banner, extra, hsplit, hall, hnone, hsome⟩
        · simp only [hsplit]
          have hquiet' : ∀ p ∈ noted ++ (feed kept bytes).1, ¬ Announces p :=
            List.forall_mem_append.mpr ⟨hquiet, hnone⟩
          exact .cons hearly (ih (List.Pairwise.of_cons horder) hfed hquiet')
        · simp only [hsplit]
          rw [hall, ← List.append_assoc] at hfed
          refine .announced [] (e := ⟨moment, .send bytes⟩) rfl (by simpa using hearly) ?_
            (List.forall_mem_append.mpr ⟨hquiet, hnone⟩) hsome rfl
          simpa [StationEvent.bytes] using hfed

/-! ## The open connection -/

/-- What is done with an open connection: some time goes by, or a request is made. -/
inductive StationUse where
  | wait (milliseconds : Nat)
  | request (r : Request)
  deriving DecidableEq, Repr

/-- The time that goes by. -/
def StationUse.time : StationUse → Nat
  | wait milliseconds => milliseconds
  | request _ => 0

/-- The packet that an entry says was received. -/
def StationLog.received? : StationLog → Option String
  | received packet => some packet
  | _ => none

@[simp] theorem StationLog.received?_sent (packet : String) : (sent packet).received? = none := rfl

@[simp] theorem StationLog.received?_hungUp : hungUp.received? = none := rfl

/-- The log of an open connection from a moment on, over what is done with it. -/
def StationLink.logOf (now : Nat) (l : StationLink) : List StationUse → List StationLog
  | [] => (l.catchUp now).1
  | .wait milliseconds :: uses =>
    let (log, l) := l.catchUp now
    log ++ l.logOf (now + milliseconds) uses
  | .request r :: uses =>
    let (log, l) := l.catchUp now
    let (_, entries, l) := l.call (.request r)
    log ++ (entries ++ l.logOf now uses)

/-- The connection has followed the events up to those still ahead, none of them later than now,
and these are the packets; it goes on reading as long as anything is ahead. -/
structure StationLink.Follows (l : StationLink) (events : List StationEvent) (now : Nat)
    (texts : List String) : Prop where
  seen : ∃ front, events = front ++ l.ahead ∧ (∀ e ∈ front, e.moment ≤ now) ∧
    Reads (front.flatMap StationEvent.bytes) texts l.kept
  reading : l.reading = true ∨ l.ahead = []

variable {l : StationLink} {texts : List String} {now : Nat}

theorem StationLink.Follows.later (h : l.Follows events now texts) {moment : Nat}
    (hle : now ≤ moment) : l.Follows events moment texts := by
  obtain ⟨⟨front, hsplit, hnow, hreads⟩, hreading⟩ := h
  exact ⟨⟨front, hsplit, fun e he => Nat.le_trans (hnow e he) hle, hreads⟩, hreading⟩

theorem filterMap_received_map (packets : List String) :
    (packets.map StationLog.received).filterMap StationLog.received? = packets := by
  rw [List.filterMap_map]
  exact List.filterMap_some

/-- An event is followed: what it sends was read, and only a hang-up ends the reading. -/
theorem StationLink.observe_reads {e : StationEvent} (hopen : l.reading = true)
    (hreads : Reads stream texts l.kept) :
    Reads (stream ++ e.bytes)
        (texts ++ (l.observe e.deed).1.filterMap StationLog.received?) (l.observe e.deed).2.kept ∧
      ((l.observe e.deed).2.reading = true ∨ e.deed = .hangUp) := by
  obtain ⟨moment, deed⟩ := e
  cases deed with
  | send bytes =>
    have hfed := hreads.feed bytes
    simp only [StationLink.observe, hopen, if_true, filterMap_received_map]
    exact ⟨hfed, .inl trivial⟩
  | hangUp =>
    refine ⟨?_, .inr rfl⟩
    simpa [StationLink.observe, hopen, StationEvent.bytes, List.filterMap_cons] using hreads

/-- The events up to a moment are followed one by one. -/
theorem follows_observeUntil {front ahead : List StationEvent} {moment : Nat}
    (horder : IsOrderly (front ++ ahead)) (hfront : ∀ e ∈ front, e.moment ≤ moment)
    (hreads : Reads (front.flatMap StationEvent.bytes) texts l.kept)
    (hreading : l.reading = true ∨ ahead = []) :
    (StationLink.observeUntil moment ahead l).2.Follows (front ++ ahead) moment
        (texts ++ (StationLink.observeUntil moment ahead l).1.filterMap StationLog.received?) ∧
      ∀ e ∈ (StationLink.observeUntil moment ahead l).2.ahead, moment < e.moment := by
  induction ahead generalizing front l texts with
  | nil =>
    refine ⟨⟨⟨front, rfl, hfront, ?_⟩, .inr rfl⟩, fun _ h => absurd h List.not_mem_nil⟩
    simpa [StationLink.observeUntil] using hreads
  | cons e ahead ih =>
    have hopen : l.reading = true := hreading.resolve_right (List.cons_ne_nil _ _)
    have hnext : IsOrderly (e :: ahead) := (List.pairwise_append.mp horder).2.1
    rw [StationLink.observeUntil]
    split
    · rename_i hlater
      refine ⟨⟨⟨front, rfl, hfront, by simpa using hreads⟩, .inl hopen⟩, ?_⟩
      exact fun d hd => Nat.lt_of_lt_of_le hlater (hnext.le_of_cons d hd)
    · rename_i hnotLater
      have hfront' : ∀ d ∈ front ++ [e], d.moment ≤ moment := by
        refine List.forall_mem_append.mpr ⟨hfront, ?_⟩
        simpa using Nat.le_of_not_lt hnotLater
      obtain ⟨hread, hstill⟩ := l.observe_reads (e := e) hopen hreads
      have hreading' : (l.observe e.deed).2.reading = true ∨ ahead = [] :=
        hstill.imp_right hnext.eq_nil_of_hangUp
      have horder' : IsOrderly ((front ++ [e]) ++ ahead) := by simpa using horder
      have hrest := ih horder' hfront' (by simpa using hread) hreading'
      simpa using hrest

/-- The events that are due are what stands in front of those that are not. -/
theorem filter_front {front ahead : List StationEvent} {p : StationEvent → Bool}
    (hfront : ∀ e ∈ front, p e) (hahead : ∀ e ∈ ahead, ¬ p e) :
    (front ++ ahead).filter p = front := by
  rw [List.filter_append, List.filter_eq_self.mpr hfront, List.filter_eq_nil_iff.mpr hahead,
    List.append_nil]

/-- When nothing of what is ahead is due yet, the packets are those sent up to now. -/
theorem StationLink.Follows.hasTexts (h : l.Follows events now texts)
    (hahead : ∀ e ∈ l.ahead, now < e.moment) :
    HasTexts ((events.filter (·.moment ≤ now)).flatMap StationEvent.bytes) texts := by
  obtain ⟨⟨front, rfl, hfront, hreads⟩, -⟩ := h
  rw [filter_front (by simpa using hfront) (by simpa using hahead)]
  exact hreads.hasTexts

/-- Catching up follows the events up to now. -/
theorem StationLink.Follows.catchUp (h : l.Follows events now texts) (horder : IsOrderly events) :
    (l.catchUp now).2.Follows events now
        (texts ++ (l.catchUp now).1.filterMap StationLog.received?) ∧
      ∀ e ∈ (l.catchUp now).2.ahead, now < e.moment := by
  obtain ⟨⟨front, rfl, hfront, hreads⟩, hreading⟩ := h
  exact follows_observeUntil horder hfront hreads hreading

/-- Whatever is done with the connection, the packets found before and those noted since are the
packets that were sent up to then. -/
theorem StationLink.Follows.logOf (h : l.Follows events now texts) (horder : IsOrderly events)
    (uses : List StationUse) :
    HasTexts ((events.filter (·.moment ≤ now + (uses.map StationUse.time).sum)).flatMap
      StationEvent.bytes) (texts ++ (l.logOf now uses).filterMap StationLog.received?) := by
  induction uses generalizing l now texts with
  | nil =>
    obtain ⟨hfollows, hahead⟩ := h.catchUp horder
    simpa [StationLink.logOf] using hfollows.hasTexts hahead
  | cons use uses ih =>
    obtain ⟨hfollows, -⟩ := h.catchUp horder
    cases use with
    | wait milliseconds =>
      have hrest := ih (hfollows.later (Nat.le_add_right now milliseconds))
      simpa [StationLink.logOf, StationUse.time, Nat.add_assoc] using hrest
    | request r =>
      have hrest := ih hfollows
      simpa [StationLink.logOf, StationLink.call, StationUse.time, List.filterMap_cons] using hrest

/-! ## The whole course -/

namespace StationCourse

variable {c : StationCourse} {g : Greeting} {link : StationLink}

/-- What was heard before the time was over says how the wait ended: with a connection if the
station announced itself, and otherwise with its hang-up or with the time. -/
theorem exists_heard (h : Greeted timeout [] c.events g) :
    ∃ heard, HasTexts (c.sentBefore timeout) heard ∧
      ((∃ link, g.result = .ok link) ↔ ∃ p ∈ heard, Announces p) ∧
      (g.result = .error .closed ↔ (∀ p ∈ heard, ¬ Announces p) ∧ c.HangsUpBefore timeout) ∧
      (g.result = .error (.noResponse timeout) ↔
        (∀ p ∈ heard, ¬ Announces p) ∧ ¬ c.HangsUpBefore timeout) := by
  unfold sentBefore HangsUpBefore
  cases h with
  | @announced front e link noted extra split early reads quiet announces reading =>
    have hfilter : c.events.filter (·.moment < timeout) =
        (front ++ [e]) ++ link.ahead.filter (·.moment < timeout) := by
      rw [split, List.append_cons, List.filter_append,
        List.filter_eq_self.mpr (by simpa using early)]
    rw [hfilter, List.flatMap_append]
    obtain ⟨more, hmore⟩ := reads.exists_hasTexts
      ((link.ahead.filter (·.moment < timeout)).flatMap StationEvent.bytes)
    have hbanner : link.banner ∈ noted ++ link.banner :: extra ++ more := by simp
    refine ⟨_, hmore, ⟨fun _ => ⟨_, hbanner, announces⟩, fun _ => ⟨link, rfl⟩⟩, ⟨nofun, ?_⟩,
      ⟨nofun, ?_⟩⟩
    · exact fun hnone => absurd announces (hnone.1 _ hbanner)
    · exact fun hnone => absurd announces (hnone.1 _ hbanner)
  | @hungUp front moment noted split early before texts quiet =>
    have hsent : (c.events.filter (·.moment < timeout)).flatMap StationEvent.bytes =
        front.flatMap StationEvent.bytes := by
      have hall : ∀ d ∈ front ++ [⟨moment, .hangUp⟩], d.moment < timeout :=
        List.forall_mem_append.mpr ⟨early, by simpa using before⟩
      rw [split, List.filter_eq_self.mpr (by simpa using hall)]
      simp [StationEvent.bytes]
    have hhangsUp : ∃ m < timeout, ⟨m, .hangUp⟩ ∈ c.events := ⟨moment, before, by simp [split]⟩
    rw [hsent]
    exact ⟨noted, texts, ⟨nofun, fun ⟨p, hp, hsome⟩ => absurd hsome (quiet p hp)⟩,
      ⟨fun _ => ⟨quiet, hhangsUp⟩, fun _ => rfl⟩, ⟨nofun, fun hnever => absurd hhangsUp hnever.2⟩⟩
  | @late front ahead noted split early sends after texts quiet =>
    have hstays : ¬ ∃ m < timeout, ⟨m, .hangUp⟩ ∈ c.events := by
      rintro ⟨m, hm, hmem⟩
      rw [split] at hmem
      rcases List.mem_append.mp hmem with hmem | hmem
      · exact sends _ hmem rfl
      · exact Nat.not_le_of_lt hm (after _ hmem)
    rw [split, filter_front (by simpa using early) (by simpa using after), ← split]
    exact ⟨noted, texts, ⟨nofun, fun ⟨p, hp, hsome⟩ => absurd hsome (quiet p hp)⟩,
      ⟨nofun, fun hclosed => absurd hclosed.2 hstays⟩, ⟨fun _ => ⟨quiet, hstays⟩, fun _ => rfl⟩⟩

/-- When the connection came about, it has followed the station so far, and the first
announcement is its own. -/
theorem follows_of_greeted (h : Greeted timeout [] c.events g) (hlink : g.result = .ok link) :
    link.Follows c.events g.moment (g.noted ++ link.banner :: g.extra) ∧
      Announces link.banner ∧ ∀ p ∈ g.noted, ¬ Announces p := by
  cases h with
  | @announced front e link' noted extra split early reads quiet announces reading =>
    cases hlink
    have horder := c.isOrderly
    rw [split, IsOrderly, List.pairwise_append] at horder
    have hpast : ∀ d ∈ front ++ [e], d.moment ≤ e.moment := by
      refine List.forall_mem_append.mpr ⟨fun d hd => ?_, by simp⟩
      exact (horder.2.2 d hd e List.mem_cons_self).1
    exact ⟨⟨⟨front ++ [e], by simpa using split, hpast, reads⟩, .inl reading⟩, announces, quiet⟩
  | hungUp => cases hlink
  | late => cases hlink

/-- A connection comes about exactly if an announcement is complete in time; otherwise the hang-up
or the time ends the wait.  The packets noted before the first announcement, the announcement and
the packets noted after it are at all times those that the station has sent. -/
theorem heard_once (c : StationCourse) (timeout : Nat) :
    let g := greet timeout [] [] c.events
    (∃ heard, HasTexts (c.sentBefore timeout) heard ∧
      ((∃ link, g.result = .ok link) ↔ ∃ p ∈ heard, Announces p) ∧
      (g.result = .error .closed ↔ (∀ p ∈ heard, ¬ Announces p) ∧ c.HangsUpBefore timeout) ∧
      (g.result = .error (.noResponse timeout) ↔
        (∀ p ∈ heard, ¬ Announces p) ∧ ¬ c.HangsUpBefore timeout)) ∧
    ∀ link, g.result = .ok link →
      Announces link.banner ∧ (∀ p ∈ g.noted, ¬ Announces p) ∧
      ∀ uses, HasTexts (c.sentBy (g.moment + (uses.map StationUse.time).sum))
        (g.noted ++ link.banner :: (g.extra ++
          (link.logOf g.moment uses).filterMap StationLog.received?)) := by
  have hgreeted : Greeted timeout [] c.events (greet timeout [] [] c.events) :=
    greeted c.isOrderly reads_nil (by simp)
  refine ⟨exists_heard hgreeted, fun link hlink => ?_⟩
  obtain ⟨hfollows, hannounces, hquiet⟩ := follows_of_greeted hgreeted hlink
  refine ⟨hannounces, hquiet, fun uses => ?_⟩
  simpa [sentBy] using hfollows.logOf c.isOrderly uses

end StationCourse

end Signalbox
