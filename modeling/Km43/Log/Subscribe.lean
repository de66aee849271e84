import Km43.Cbor.Complete
import Km43.Library.Paging
import Km43.Link.FrameLaws
import Km43.Log.CatchUp
import Km43.Log.Mark
import Km43.Log.Page
import Km43.Log.Live

namespace Km43.Log

open Library Cbor CborReader CborWriter Link

inductive SubscribeKey
  | fromSeq
  deriving DecidableEq

namespace SubscribeKey

def all : List SubscribeKey := [fromSeq]

theorem keyList : KeyList all := ⟨by decide, fun k => by cases k; decide, by decide⟩

instance : Listed SubscribeKey := ⟨all, keyList⟩

end SubscribeKey

inductive AckKey
  | acceptedFromSeq
  | oldestSeq
  | currentSeq
  | gap
  deriving DecidableEq

namespace AckKey

def all : List AckKey := [acceptedFromSeq, oldestSeq, currentSeq, gap]

theorem keyList : KeyList all := ⟨by decide, fun k => by cases k <;> decide, by decide⟩

instance : Listed AckKey := ⟨all, keyList⟩

end AckKey

inductive SubscribeBodyKey
  | request (key : SubscribeKey)
  | ack (key : AckKey)
  deriving DecidableEq

inductive SubscriptionError
  | missing (key : SubscribeBodyKey)
  | duplicate (key : SubscribeBodyKey)
  | positions (why : SubscribeError)
  | cbor (why : CborError)
  deriving DecidableEq

instance : FromCbor SubscriptionError := ⟨.cbor⟩

namespace Replay

def wire : Replay → UInt64
  | liveOnly => 0
  | «from» at' => at'

def of (raw : UInt64) : Replay := if raw = 0 then liveOnly else «from» raw

theorem of_wire {replay : Replay} : of replay.wire = replay ↔ replay ≠ .from 0 := by
  unfold of
  cases replay with
  | liveOnly => simp [wire]
  | «from» at' => by_cases h : at' = 0 <;> simp [wire, h]

theorem wire_of (raw : UInt64) : (of raw).wire = raw := by
  unfold of
  split_ifs with h
  · exact h.symm
  · rfl

end Replay

namespace Subscribe

def Value : SubscribeKey → Type
  | .fromSeq => UInt64

def codec : ∀ k, Codec SubscriptionError (Value k)
  | .fromSeq => .word

def table : Table SubscriptionError SubscribeKey := .ofCodecs codec fun k => .duplicate (.request k)

def complete (s : table.Slots) : Except SubscriptionError Subscribe := do
  let raw ← slotRequired (.missing (.request .fromSeq)) (s .fromSeq)
  .ok ⟨.of raw⟩

def decode : Bytes → Except SubscriptionError Subscribe := table.decode complete

def encodeInto (asked : Subscribe) : Encoder SubscriptionError Unit := do
  tell (CborWriter.map 1)
  tell (CborWriter.key 1)
  tell (CborWriter.u64 asked.replay.wire.toNat)

def encode (asked : Subscribe) (dst : ℕ) : Except SubscriptionError Bytes := encodeBody asked.encodeInto dst

def slots (asked : Subscribe) : ∀ k, Option (Value k)
  | .fromSeq => some asked.replay.wire

variable {asked : Subscribe}

theorem maySend : MaySend codec asked.slots := by
  intro k v _
  cases k
  trivial

theorem encodeInto_tells (asked : Subscribe) :
    Tells asked.encodeInto (.map 1 :: entryCalls (cellCalls codec asked.slots)) := by
  refine .cons (c := .map 1) ?_
  exact .entry SubscribeKey.fromSeq (.u64 asked.replay.wire)

theorem complete_ok {s : table.Slots} : complete s = .ok asked ↔ s = asked.slots ∧ asked.replay ≠ .from 0 := by
  simp only [complete, bind_ok, slotRequired_ok]
  constructor
  · rintro ⟨raw, hraw, ⟨⟩⟩
    have hwire : (Replay.of raw).wire = raw := Replay.wire_of raw
    refine ⟨?_, Replay.of_wire.mp (congrArg Replay.of hwire)⟩
    funext k
    cases k
    exact hraw.trans (congrArg some hwire.symm)
  · rintro ⟨rfl, hpositive⟩
    exact ⟨_, rfl, congrArg (Except.ok ∘ mk) (Replay.of_wire.mpr hpositive)⟩

def width : SubscribeKey → ℕ
  | .fromSeq => 10

/-- A request is read as it was said, unless it names position 0, which says that none is asked for. -/
theorem laws : PlainLaws codec slots (fun asked => asked.replay ≠ .from 0) (1 + (SubscribeKey.all.map width).sum)
    encode decode := by
  refine plainLaws encodeInto_tells (fun _ => rfl) (fun _ => maySend) (fun _ _ => complete_ok) ?_
  intro asked k v _
  cases k
  exact Nat.add_le_add_left (headBytes_le .unsigned).1 1

end Subscribe

def reportedExtent (oldest current : LogSeq) : Except SubscribeError LogExtent :=
  if oldest = 0 ∧ current = 0 then .ok .empty else LogExtent.holding oldest current

theorem LogExtent.holding_ok {oldest newest : LogSeq} (holdest : oldest ≠ 0) (hnewest : newest ≠ 0)
    (hle : oldest ≤ newest) : holding oldest newest = .ok ⟨oldest, newest, .inr ⟨holdest, hnewest, hle⟩⟩ := by
  have hzero : ¬(oldest = 0 ∨ newest = 0) := fun h => h.elim holdest hnewest
  rw [holding, dif_neg hzero, dif_neg (UInt64.not_lt.mpr hle)]

theorem reportedExtent_ok {oldest current : LogSeq} {extent : LogExtent} :
    reportedExtent oldest current = .ok extent ↔ oldest = extent.oldest ∧ current = extent.newest := by
  obtain ⟨low, high, hordered⟩ := extent
  unfold reportedExtent
  constructor
  · unfold LogExtent.holding LogExtent.empty
    intro h
    split_ifs at h with hzero hone hpast
    · cases h
      exact hzero
    · cases h
      exact ⟨rfl, rfl⟩
  · rintro ⟨rfl, rfl⟩
    rcases hordered with ⟨rfl, rfl⟩ | ⟨hlow, hhigh, hle⟩
    · rfl
    · have hnot : ¬(oldest = 0 ∧ current = 0) := fun h => hlow h.1
      rw [if_neg hnot, LogExtent.holding_ok hlow hhigh hle]

namespace SubscribeAck

def Value : AckKey → Type
  | .acceptedFromSeq | .oldestSeq | .currentSeq => UInt64
  | .gap => Bool

def codec : ∀ k, Codec SubscriptionError (Value k)
  | .acceptedFromSeq | .oldestSeq | .currentSeq => .word
  | .gap => .bool

def table : Table SubscriptionError AckKey := .ofCodecs codec fun k => .duplicate (.ack k)

def complete (s : table.Slots) : Except SubscriptionError SubscribeAck := do
  let accepted ← slotRequired (.missing (.ack .acceptedFromSeq)) (s .acceptedFromSeq)
  let oldest ← slotRequired (.missing (.ack .oldestSeq)) (s .oldestSeq)
  let current ← slotRequired (.missing (.ack .currentSeq)) (s .currentSeq)
  let gap ← slotRequired (.missing (.ack .gap)) (s .gap)
  let extent ← (reportedExtent oldest current).mapError .positions
  .ok ⟨accepted, extent, gap⟩

def decode : Bytes → Except SubscriptionError SubscribeAck := table.decode complete

def encodeInto (ack : SubscribeAck) : Encoder SubscriptionError Unit := do
  tell (CborWriter.map 4)
  tell (CborWriter.key 1)
  tell (CborWriter.u64 ack.acceptedFromSeq.toNat)
  tell (CborWriter.key 2)
  tell (CborWriter.u64 ack.extent.oldest.toNat)
  tell (CborWriter.key 3)
  tell (CborWriter.u64 ack.extent.newest.toNat)
  tell (CborWriter.key 4)
  tell (CborWriter.bool ack.gap)

def encode (ack : SubscribeAck) (dst : ℕ) : Except SubscriptionError Bytes := encodeBody ack.encodeInto dst

def slots (ack : SubscribeAck) : ∀ k, Option (Value k)
  | .acceptedFromSeq => some ack.acceptedFromSeq
  | .oldestSeq => some ack.extent.oldest
  | .currentSeq => some ack.extent.newest
  | .gap => some ack.gap

variable {ack : SubscribeAck}

theorem complete_ok {s : table.Slots} : complete s = .ok ack ↔ s = ack.slots := by
  simp only [complete, bind_ok, slotRequired_ok, mapError_ok]
  constructor
  · rintro ⟨accepted, h₁, oldest, h₂, current, h₃, gap, h₄, extent, hextent, ⟨⟩⟩
    obtain ⟨rfl, rfl⟩ := reportedExtent_ok.mp hextent
    funext k
    cases k <;> assumption
  · rintro rfl
    exact ⟨_, rfl, _, rfl, _, rfl, _, rfl, _, reportedExtent_ok.mpr ⟨rfl, rfl⟩, rfl⟩

theorem maySend : MaySend codec ack.slots := by
  intro k v _
  cases k <;> trivial

theorem encodeInto_tells (ack : SubscribeAck) :
    Tells ack.encodeInto (.map 4 :: entryCalls (cellCalls codec ack.slots)) := by
  refine .cons (c := .map 4) ?_
  refine .entryCons AckKey.acceptedFromSeq (.u64 ack.acceptedFromSeq) ?_
  refine .entryCons AckKey.oldestSeq (.u64 ack.extent.oldest) ?_
  refine .entryCons AckKey.currentSeq (.u64 ack.extent.newest) ?_
  exact .entry AckKey.gap (.bool ack.gap)

def width : AckKey → ℕ
  | .acceptedFromSeq | .oldestSeq | .currentSeq => 10
  | .gap => 2

theorem laws : PlainLaws codec slots (fun _ => True) (1 + (AckKey.all.map width).sum) encode decode := by
  refine plainLaws encodeInto_tells (fun _ => rfl) (fun _ => maySend)
    (fun _ _ => complete_ok.trans (and_iff_left trivial).symm) ?_
  intro ack k v _
  cases k with
  | acceptedFromSeq | oldestSeq | currentSeq => exact Nat.add_le_add_left (headBytes_le .unsigned).1 1
  | gap => exact Nat.le_refl 2

end SubscribeAck

namespace ReadLogKey

def all : List ReadLogKey := [fromSeq, maxEntries]

theorem keyList : KeyList all := ⟨by decide, fun k => by cases k <;> decide, by decide⟩

instance : Listed ReadLogKey := ⟨all, keyList⟩

end ReadLogKey

namespace ReadLog

def Value : ReadLogKey → Type
  | .fromSeq => UInt64
  | .maxEntries => UInt16

def codec : ∀ k, Codec ReadLogError (Value k)
  | .fromSeq => .word
  | .maxEntries => .u16

def table : Table ReadLogError ReadLogKey := .ofCodecs codec fun k => .duplicate (.request k)

def complete (s : table.Slots) : Except ReadLogError ReadLog := do
  let fromSeq ← slotRequired (.missing (.request .fromSeq)) (s .fromSeq)
  let maxEntries ← slotRequired (.missing (.request .maxEntries)) (s .maxEntries)
  .ok ⟨fromSeq, maxEntries⟩

def decode : Bytes → Except ReadLogError ReadLog := table.decode complete

def encodeInto (asked : ReadLog) : Encoder ReadLogError Unit := do
  tell (CborWriter.map 2)
  tell (CborWriter.key 1)
  tell (CborWriter.u64 asked.fromSeq.toNat)
  tell (CborWriter.key 2)
  tell (CborWriter.u64 asked.maxEntries.toNat)

def encode (asked : ReadLog) (dst : ℕ) : Except ReadLogError Bytes := encodeBody asked.encodeInto dst

def slots (asked : ReadLog) : ∀ k, Option (Value k)
  | .fromSeq => some asked.fromSeq
  | .maxEntries => some asked.maxEntries

variable {asked : ReadLog}

theorem complete_ok {s : table.Slots} : complete s = .ok asked ↔ s = asked.slots := by
  simp only [complete, bind_ok, slotRequired_ok]
  constructor
  · rintro ⟨fromSeq, h₁, maxEntries, h₂, ⟨⟩⟩
    funext k
    cases k <;> assumption
  · rintro rfl
    exact ⟨_, rfl, _, rfl, rfl⟩

theorem maySend : MaySend codec asked.slots := by
  intro k v _
  cases k <;> trivial

theorem encodeInto_tells (asked : ReadLog) :
    Tells asked.encodeInto (.map 2 :: entryCalls (cellCalls codec asked.slots)) := by
  refine .cons (c := .map 2) ?_
  refine .entryCons ReadLogKey.fromSeq (.u64 asked.fromSeq) ?_
  exact .entry ReadLogKey.maxEntries (.u64 asked.maxEntries.toUInt64)

def width : ReadLogKey → ℕ
  | .fromSeq => 10
  | .maxEntries => 4

theorem laws : PlainLaws codec slots (fun _ => True) (1 + (ReadLogKey.all.map width).sum) encode decode := by
  refine plainLaws encodeInto_tells (fun _ => rfl) (fun _ => maySend)
    (fun _ _ => complete_ok.trans (and_iff_left trivial).symm) ?_
  intro asked k v _
  cases k with
  | fromSeq => exact Nat.add_le_add_left (headBytes_le .unsigned).1 1
  | maxEntries => exact Nat.add_le_add_left (ofNat_length_u16 v) 1

end ReadLog

def Event.payload (e : Event) : Bytes := (e.encode (maxPayload - eventFramingBytes)).toOption.getD []

theorem Event.payload_decode {e : Event} {bytes : Bytes} (h : e.encode (maxPayload - eventFramingBytes) = .ok bytes) :
    decode e.payload = .ok e := by
  have hpayload : e.payload = bytes := by
    unfold payload
    rw [h]
    rfl
  rw [hpayload]
  exact decode_encode (by decide) h

/-- All that a log records, of now and of later: each record at a position of its own, and short enough to be sent. -/
structure History where
  events : List Event
  rising : events.Pairwise fun a b => a.seq < b.seq
  positions : ∀ e ∈ events, e.seq ≠ 0 ∧ e.seq ≠ ceiling
  sent : ∀ e ∈ events, ∃ bytes, e.encode (maxPayload - eventFramingBytes) = .ok bytes

/-- A connection: how much of the log had been dropped and how much recorded when it began, and how much of the stream
arrived before it ended. -/
structure Connection where
  dropped : ℕ
  recorded : ℕ
  arrived : ℕ

def extentOf : List Event → Except SubscribeError LogExtent
  | [] => .ok .empty
  | first :: rest => LogExtent.holding first.seq (rest.getLastD first).seq

/-- A subscription as the client had it: what it asked, what it heard, what became of each payload, and the position
that it then goes on from. -/
structure Joined where
  asked : Replay
  ack : SubscribeAck
  outcomes : List (Except EventError Event)
  floor : LogSeq

namespace Joined

def taken (j : Joined) : List Event := j.outcomes.filterMap Except.toOption

def begins (j : Joined) : LogSeq :=
  match j.asked with
  | .liveOnly => j.ack.acceptedFromSeq
  | .from at' => at'

def Told (j : Joined) (seq : LogSeq) : Prop := j.ack.gap = true ∧ j.begins ≤ seq ∧ seq < j.ack.extent.oldest

end Joined

namespace History

def held (h : History) (c : Connection) : List Event := (h.events.take c.recorded).drop c.dropped

def Proper (h : History) (c : Connection) : Prop := c.dropped = 0 ∨ h.held c ≠ []

/-- What the controller sends: what it holds and what it records later, from the position it accepted. -/
def stream (h : History) (c : Connection) (start : LogSeq) : List Event :=
  (h.events.drop c.dropped).filter fun e => decide (start ≤ e.seq)

def connect (h : History) (asked : Replay) (c : Connection) : Except SubscriptionError Joined := do
  let payload ← (Subscribe.mk asked).encode innerBodyBytes
  let request ← Subscribe.decode payload
  let extent ← (extentOf (h.held c)).mapError .positions
  let ack ← (SubscribeAck.answer request extent).mapError .positions
  let answer ← ack.encode innerBodyBytes
  let heard ← SubscribeAck.decode answer
  let arrivals := ((h.stream c ack.acceptedFromSeq).take c.arrived).map Event.payload
  let mark := EventMark.acceptingFrom heard.acceptedFromSeq
  .ok ⟨asked, heard, EventMark.offer.outputs mark arrivals, (mark.after arrivals).floor⟩

def run (h : History) : Replay → List Connection → Except SubscriptionError (List Joined)
  | _, [] => .ok []
  | asked, c :: later => do
    let joined ← h.connect asked c
    let rest ← h.run (.from joined.floor) later
    .ok (joined :: rest)

variable {h : History} {c : Connection}

theorem held_first (hheld : h.held c ≠ []) : ∃ first rest more, h.held c = first :: rest ∧
    h.events.drop c.dropped = first :: more ∧ rest ⊆ more := by
  have hsplit : h.held c = (h.events.drop c.dropped).take (c.recorded - c.dropped) := List.drop_take ..
  cases hdrop : h.events.drop c.dropped with
  | nil =>
    rw [hdrop, List.take_nil] at hsplit
    exact absurd hsplit hheld
  | cons first more =>
    rw [hdrop] at hsplit
    cases hcount : c.recorded - c.dropped with
    | zero =>
      rw [hcount, List.take_zero] at hsplit
      exact absurd hsplit hheld
    | succ n =>
      rw [hcount, List.take_succ_cons] at hsplit
      exact ⟨first, more.take n, more, hsplit, rfl, List.take_subset n more⟩

theorem extent_ok (hproper : h.Proper c) : ∃ extent, extentOf (h.held c) = .ok extent ∧ extent.newest ≠ ceiling ∧
    h.events.drop c.dropped = h.events.filter fun e => decide (extent.oldest ≤ e.seq) := by
  by_cases hheld : h.held c = []
  · have hnone : c.dropped = 0 := hproper.elim id fun hne => absurd hheld hne
    refine ⟨.empty, by rw [hheld]; rfl, by decide, ?_⟩
    rw [hnone, List.drop_zero]
    refine (List.filter_eq_self.mpr fun e _ => decide_eq_true ?_).symm
    exact UInt64.le_iff_toNat_le.mpr (Nat.zero_le _)
  · obtain ⟨first, rest, more, hfirst, hdrop, hrest⟩ := held_first hheld
    have hevents : ∀ e ∈ first :: more, e ∈ h.events := fun e he => List.mem_of_mem_drop (hdrop ▸ he)
    have hrising := h.rising
    have hsplit : h.events = h.events.take c.dropped ++ first :: more := by rw [← hdrop, List.take_append_drop]
    rw [hsplit, List.pairwise_append, List.pairwise_cons] at hrising
    obtain ⟨-, ⟨hmore, -⟩, hbelow⟩ := hrising
    have hfrom : ∀ e ∈ first :: more, first.seq ≤ e.seq :=
      List.forall_mem_cons.mpr ⟨UInt64.le_rfl, fun e he => UInt64.le_of_lt (hmore e he)⟩
    have hlast : rest.getLastD first ∈ first :: more := List.cons_subset_cons first hrest List.getLastD_mem_cons
    obtain ⟨hzero, -⟩ := h.positions first (hevents _ List.mem_cons_self)
    obtain ⟨hzero', hceiling⟩ := h.positions _ (hevents _ hlast)
    refine ⟨⟨first.seq, (rest.getLastD first).seq, .inr ⟨hzero, hzero', hfrom _ hlast⟩⟩, ?_, hceiling, ?_⟩
    · rw [hfirst]
      exact LogExtent.holding_ok hzero hzero' (hfrom _ hlast)
    · have hlost : (h.events.take c.dropped).filter (fun e => decide (first.seq ≤ e.seq)) = [] := by
        rw [List.filter_eq_nil_iff]
        intro e he
        simpa using hbelow e he first List.mem_cons_self
      have hkept : (first :: more).filter (fun e => decide (first.seq ≤ e.seq)) = first :: more :=
        List.filter_eq_self.mpr fun e he => decide_eq_true (hfrom e he)
      change _ = h.events.filter fun e => decide (first.seq ≤ e.seq)
      rw [hdrop, hsplit, List.filter_append, hlost, hkept, List.nil_append]

theorem mem_stream {start : LogSeq} {e : Event} (he : e ∈ h.stream c start) : e ∈ h.events ∧ start ≤ e.seq := by
  obtain ⟨hdrop, hstart⟩ := List.mem_filter.mp he
  exact ⟨List.mem_of_mem_drop hdrop, of_decide_eq_true hstart⟩

theorem stream_rising (start : LogSeq) : (h.stream c start).Pairwise fun a b => a.seq < b.seq :=
  (h.rising.sublist (List.drop_sublist _ _)).filter _

theorem offers_taken {events : List Event} (hrising : events.Pairwise fun a b => a.seq < b.seq)
    (hevents : ∀ e ∈ events, e ∈ h.events) {m : EventMark} (hfloor : ∀ e ∈ events, m.floor ≤ e.seq) :
    EventMark.offer.outputs m (events.map Event.payload) = events.map .ok := by
  induction events generalizing m with
  | nil => rfl
  | cons e events ih =>
    obtain ⟨he, hevents⟩ := List.forall_mem_cons.mp hevents
    obtain ⟨hle, -⟩ := List.forall_mem_cons.mp hfloor
    obtain ⟨habove, hrising⟩ := List.pairwise_cons.mp hrising
    obtain ⟨bytes, hsent⟩ := h.sent e he
    have haccept : (m.accept e).1 = .ok () := EventMark.accept_ok.mpr ⟨hle, (h.positions e he).2⟩
    have hoffer : EventMark.offer m e.payload = ((m.accept e).2, .ok e) := by
      rw [EventMark.offer, Event.payload_decode hsent]
      dsimp only
      generalize m.accept e = outcome at haccept ⊢
      obtain ⟨result, next⟩ := outcome
      obtain rfl : result = .ok () := haccept
      rfl
    rw [List.map_cons, Machine.outputs_cons, hoffer, List.map_cons, ih hrising hevents]
    intro later hlater
    rw [UInt64.le_iff_toNat_le, EventMark.accept_floor haccept]
    exact UInt64.lt_iff_toNat_lt.mp (habove later hlater)

/-- Where a mark stands after what it took of a rising stream, and what the stream still has for it. -/
theorem mark_after {events : List Event} (hrising : events.Pairwise fun a b => a.seq < b.seq)
    (hevents : ∀ e ∈ events, e ∈ h.events) {start : LogSeq} (hstart : ∀ e ∈ events, start ≤ e.seq) (n : ℕ) :
    start ≤ ((EventMark.acceptingFrom start).after ((events.take n).map Event.payload)).floor ∧
    events.take n = events.filter fun e =>
      decide (e.seq < ((EventMark.acceptingFrom start).after ((events.take n).map Event.payload)).floor) := by
  have htaken := offers_taken (hrising.sublist (List.take_sublist n events))
    (fun e he => hevents e (List.mem_of_mem_take he)) (m := .acceptingFrom start)
    (fun e he => hstart e (List.mem_of_mem_take he))
  have hfollowed := EventMark.followed start ((events.take n).map Event.payload)
  have haccepted : (EventMark.acceptingFrom start).accepted ((events.take n).map Event.payload) =
      (events.take n).map Event.seq := by
    have hseq : EventMark.taken ∘ Except.ok = some ∘ Event.seq := rfl
    unfold EventMark.accepted
    rw [htaken, List.filterMap_map, hseq, List.filterMap_eq_map]
  rw [haccepted] at hfollowed
  generalize ((EventMark.acceptingFrom start).after ((events.take n).map Event.payload)) = mark at hfollowed
  obtain ⟨hle, hbelow⟩ := (hfollowed.floor mark.floor).mp UInt64.le_rfl
  refine ⟨hle, ?_⟩
  have hfirst : ∀ e ∈ events.take n, e.seq < mark.floor := fun e he => hbelow _ (List.mem_map_of_mem he)
  have hlater : ∀ e ∈ events.drop n, mark.floor ≤ e.seq := by
    intro e he
    refine (hfollowed.floor e.seq).mpr ⟨hstart e (List.mem_of_mem_drop he), ?_⟩
    intro seq hseq
    obtain ⟨before, hbefore, rfl⟩ := List.mem_map.mp hseq
    rw [← List.take_append_drop n events, List.pairwise_append] at hrising
    exact hrising.2.2 before hbefore e he
  have hkept : (events.take n).filter (fun e => decide (e.seq < mark.floor)) = events.take n :=
    List.filter_eq_self.mpr fun e he => decide_eq_true (hfirst e he)
  have hleft : (events.drop n).filter (fun e => decide (e.seq < mark.floor)) = [] := by
    rw [List.filter_eq_nil_iff]
    intro e he
    simpa using hlater e he
  conv_rhs => rw [← List.take_append_drop n events, List.filter_append, hkept, hleft, List.append_nil]

structure Joins (h : History) (c : Connection) (asked : Replay) (j : Joined) : Prop where
  request : j.asked = asked
  answered : ∃ extent, extentOf (h.held c) = .ok extent ∧ SubscribeAck.answer ⟨asked⟩ extent = .ok j.ack
  start : j.begins ≠ 0
  accepted : j.ack.acceptedFromSeq.toNat = max j.begins.toNat j.ack.extent.oldest.toNat
  gap : j.ack.gap = true ↔ j.begins < j.ack.extent.oldest
  clean : j.outcomes = j.taken.map .ok
  forward : j.ack.acceptedFromSeq ≤ j.floor
  page : j.taken = ((h.events.filter fun e => decide (j.ack.extent.oldest ≤ e.seq)).filter fun e =>
    decide (j.ack.acceptedFromSeq ≤ e.seq)).filter fun e => decide (e.seq < j.floor)

theorem answer_begins {asked : Replay} (hasked : asked ≠ .from 0) {extent : LogExtent} (hceiling : extent.newest ≠ ceiling) :
    ∃ ack, SubscribeAck.answer ⟨asked⟩ extent = .ok ack ∧ ack.extent = extent ∧
      ∀ outcomes floor, (Joined.mk asked ack outcomes floor).begins ≠ 0 ∧
        ack.acceptedFromSeq.toNat = max (Joined.mk asked ack outcomes floor).begins.toNat extent.oldest.toNat ∧
        (ack.gap = true ↔ (Joined.mk asked ack outcomes floor).begins < extent.oldest) := by
  cases asked with
  | liveOnly =>
    obtain ⟨next, hnext⟩ : ∃ next, extent.newest.next = some next := by
      unfold LogSeq.next
      rw [if_neg hceiling]
      exact ⟨_, rfl⟩
    have hanswer : SubscribeAck.answer ⟨.liveOnly⟩ extent = .ok ⟨next, extent, false⟩ := by
      simp only [SubscribeAck.answer, hnext]
    have hpast : next.toNat = extent.newest.toNat + 1 := (LogSeq.next_some.mp hnext).2
    have hle : extent.oldest.toNat ≤ extent.newest.toNat := by
      rcases extent.ordered with ⟨hlow, hhigh⟩ | ⟨-, -, hle⟩
      · rw [hlow, hhigh]
      · exact UInt64.le_iff_toNat_le.mp hle
    refine ⟨_, hanswer, rfl, fun outcomes floor => ⟨?_, ?_, ?_⟩⟩
    · intro hzero
      have hnone : next.toNat = 0 := congrArg UInt64.toNat hzero
      omega
    · change next.toNat = max next.toNat extent.oldest.toNat
      omega
    · refine iff_of_false Bool.false_ne_true ?_
      change ¬next < extent.oldest
      rw [UInt64.lt_iff_toNat_lt]
      omega
  | «from» at' =>
    refine ⟨_, rfl, rfl, fun outcomes floor => ⟨fun hzero => hasked (congrArg Replay.from hzero), ?_, decide_eq_true_iff⟩⟩
    exact startAt_toNat ⟨at', 0⟩ extent.oldest

theorem connect_ok (hproper : h.Proper c) {asked : Replay} (hasked : asked ≠ .from 0) :
    ∃ j, h.connect asked c = .ok j ∧ Joins h c asked j := by
  obtain ⟨payload, hpayload, hrequest⟩ := Subscribe.laws.trip ⟨asked⟩ innerBodyBytes hasked (by decide)
  obtain ⟨extent, hextent, hceiling, hkept⟩ := extent_ok hproper
  obtain ⟨ack, hanswer, rfl, hbegins⟩ := answer_begins hasked hceiling
  obtain ⟨answer, hencode, hheard⟩ := SubscribeAck.laws.trip ack innerBodyBytes trivial (by decide)
  have hstream : ∀ e ∈ h.stream c ack.acceptedFromSeq, e ∈ h.events := fun e he => (mem_stream he).1
  have hstart : ∀ e ∈ h.stream c ack.acceptedFromSeq, ack.acceptedFromSeq ≤ e.seq := fun e he => (mem_stream he).2
  obtain ⟨hforward, htaken⟩ := mark_after (stream_rising ack.acceptedFromSeq) hstream hstart c.arrived
  have houtcomes : EventMark.offer.outputs (.acceptingFrom ack.acceptedFromSeq)
      (((h.stream c ack.acceptedFromSeq).take c.arrived).map Event.payload) =
        ((h.stream c ack.acceptedFromSeq).take c.arrived).map .ok :=
    offers_taken ((stream_rising ack.acceptedFromSeq).sublist (List.take_sublist c.arrived _))
      (fun e he => hstream e (List.mem_of_mem_take he)) fun e he => hstart e (List.mem_of_mem_take he)
  have hall : (((h.stream c ack.acceptedFromSeq).take c.arrived).map Except.ok).filterMap
      (Except.toOption : Except EventError Event → Option Event) = (h.stream c ack.acceptedFromSeq).take c.arrived := by
    rw [List.filterMap_map]
    exact List.filterMap_some
  refine ⟨_, bind_ok.mpr ⟨payload, hpayload, bind_ok.mpr ⟨_, hrequest, bind_ok.mpr ⟨_, mapError_ok.mpr hextent,
    bind_ok.mpr ⟨_, mapError_ok.mpr hanswer, bind_ok.mpr ⟨_, hencode, bind_ok.mpr ⟨_, hheard, rfl⟩⟩⟩⟩⟩⟩, ?_⟩
  rw [houtcomes]
  obtain ⟨hne, haccepted, hgap⟩ := hbegins (((h.stream c ack.acceptedFromSeq).take c.arrived).map Except.ok)
    ((EventMark.acceptingFrom ack.acceptedFromSeq).after
      (((h.stream c ack.acceptedFromSeq).take c.arrived).map Event.payload)).floor
  refine ⟨rfl, ⟨_, hextent, hanswer⟩, hne, haccepted, hgap, ?_, hforward, ?_⟩
  · unfold Joined.taken
    rw [hall]
  · unfold Joined.taken
    rw [hall]
    refine htaken.trans ?_
    rw [stream, hkept]

def position (e : Event) : ℕ := e.seq.toNat

def turn (h : History) (j : Joined) : Turn Event ℕ :=
  ⟨j.begins.toNat, h.events.filter fun e => decide (j.ack.extent.oldest ≤ e.seq), j.taken, some j.floor.toNat⟩

variable {asked : Replay} {j : Joined}

theorem Joins.fair (hj : Joins h c asked j) : (h.turn j).Fair position := by
  have hforward := UInt64.le_iff_toNat_le.mp hj.forward
  have haccepted := hj.accepted
  refine ⟨?_, ?_, ?_⟩
  · exact (h.rising.filter _).imp fun hab => UInt64.lt_iff_toNat_lt.mp hab
  · have hpage := hj.page
    rw [List.filter_filter] at hpage
    refine hpage.trans (List.filter_congr fun e he => ?_)
    have hold := UInt64.le_iff_toNat_le.mp (of_decide_eq_true (List.mem_filter.mp he).2)
    rw [← Bool.decide_and, decide_eq_decide, Turn.covers, UInt64.lt_iff_toNat_lt, UInt64.le_iff_toNat_le]
    change _ ↔ j.begins.toNat ≤ e.seq.toNat ∧ ∀ n ∈ some j.floor.toNat, e.seq.toNat < n
    simp only [Option.mem_some_iff, forall_eq']
    omega
  · intro n hn
    obtain rfl := Option.mem_some_iff.mp hn
    change j.begins.toNat ≤ j.floor.toNat
    omega

theorem Joins.told (hj : Joins h c asked j) {e : Event} (he : e ∈ h.events) :
    j.Told e.seq ↔ (h.turn j).covers (position e) ∧ e ∉ (h.turn j).held := by
  have hforward := UInt64.le_iff_toNat_le.mp hj.forward
  have haccepted := hj.accepted
  have hheld : e ∉ (h.turn j).held ↔ e.seq.toNat < j.ack.extent.oldest.toNat := by
    rw [turn, List.mem_filter, and_iff_right he, decide_eq_true_iff, UInt64.le_iff_toNat_le, not_le]
  have hcovers : (h.turn j).covers (position e) ↔ j.begins.toNat ≤ e.seq.toNat ∧ e.seq.toNat < j.floor.toNat := by
    unfold Turn.covers turn position
    simp only [Option.mem_some_iff, forall_eq']
  rw [hcovers, hheld, Joined.Told, hj.gap, UInt64.lt_iff_toNat_lt, UInt64.le_iff_toNat_le, UInt64.lt_iff_toNat_lt]
  omega

theorem run_ok {connections : List Connection} (hproper : ∀ c ∈ connections, h.Proper c) (hasked : asked ≠ .from 0) :
    ∃ joins, h.run asked connections = .ok joins ∧
      List.Forall₂ (fun c j => Joins h c j.asked j) connections joins ∧ (∀ j ∈ joins.head?, j.asked = asked) ∧
      ∀ k, (∀ j ∈ joins.head?, k = j.begins.toNat) → Walk position k (joins.map h.turn) := by
  induction connections generalizing asked with
  | nil => exact ⟨[], rfl, .nil, by simp, fun k _ => .nil k⟩
  | cons c connections ih =>
    obtain ⟨hc, hlater⟩ := List.forall_mem_cons.mp hproper
    obtain ⟨j, hconnect, hj⟩ := connect_ok hc hasked
    have hfloor : Replay.from j.floor ≠ .from 0 := by
      intro hzero
      have hle := UInt64.le_iff_toNat_le.mp hj.forward
      have hbegins : j.begins.toNat ≠ 0 := fun h => hj.start (UInt64.toNat_inj.mp h)
      have hnone : j.floor.toNat = 0 := congrArg UInt64.toNat (Replay.from.inj hzero)
      have haccepted := hj.accepted
      omega
    obtain ⟨joins, hrun, hjoins, hhead, hwalk⟩ := ih hlater hfloor
    have hown : Joins h c j.asked j := by
      rw [hj.request]
      exact hj
    refine ⟨j :: joins, bind_ok.mpr ⟨j, hconnect, bind_ok.mpr ⟨joins, hrun, rfl⟩⟩, .cons hown hjoins, ?_, ?_⟩
    · intro first hfirst
      obtain rfl := Option.mem_some_iff.mp hfirst
      exact hj.request
    · intro k hk
      refine .more hj.fair (hk j rfl).symm rfl (hwalk j.floor.toNat fun next hnext => ?_)
      rw [Joined.begins, hhead next hnext]

def reached (first : Joined) (rest : List Joined) : LogSeq := (rest.getLastD first).floor

theorem stands_reached (k : ℕ) (first : Joined) (rest : List Joined) :
    stands k ((first :: rest).map h.turn) = (reached first rest).toNat := by
  induction rest generalizing k first with
  | nil => rfl
  | cons next rest ih =>
    rw [List.map_cons, stands, ih]
    unfold reached
    rw [List.getLastD_cons]

end History

/-- Over any connections, each lost at any point, a client that asks on from where it stands has each record once and in
order, and misses among those up to where it stands the ones that an answer told it of, and no other. -/
theorem subscriptions_resume (h : History) (asked : Replay) (hasked : asked ≠ .from 0) (connections : List Connection)
    (hproper : ∀ c ∈ connections, h.Proper c) :
    ∃ joins, h.run asked connections = .ok joins ∧
      List.Forall₂ (fun c j => ∃ extent, extentOf (h.held c) = .ok extent ∧
        SubscribeAck.answer ⟨j.asked⟩ extent = .ok j.ack) connections joins ∧
      (∀ j ∈ joins, j.outcomes = j.taken.map .ok) ∧
      (joins.flatMap Joined.taken).Pairwise (fun a b => a.seq < b.seq) ∧
      ∀ first rest, joins = first :: rest → first.asked = asked ∧ ∀ e, e ∈ joins.flatMap Joined.taken ↔
        e ∈ h.events ∧ first.begins ≤ e.seq ∧ e.seq < History.reached first rest ∧ ∀ j ∈ joins, ¬j.Told e.seq := by
  obtain ⟨joins, hrun, hjoins, hhead, hwalk⟩ := History.run_ok hproper hasked
  have hall : ∀ j ∈ joins, ∃ c, h.Joins c j.asked j := by
    intro j hj
    obtain ⟨i, hi, rfl⟩ := List.mem_iff_getElem.mp hj
    exact ⟨_, hjoins.get (hjoins.length_eq ▸ hi) hi⟩
  have hdelivered : joins.flatMap Joined.taken = delivered (joins.map h.turn) := by
    rw [delivered, List.flatMap_map]
    rfl
  refine ⟨joins, hrun, hjoins.imp fun c j hj => hj.answered, ?_, ?_, ?_⟩
  · intro j hj
    obtain ⟨c, hj⟩ := hall j hj
    exact hj.clean
  · rw [hdelivered]
    cases joins with
    | nil => exact .nil
    | cons first rest =>
      have hrising := (hwalk first.begins.toNat fun j hj => by rw [Option.mem_some_iff.mp hj]).delivered_rising
      exact hrising.imp fun hab => UInt64.lt_iff_toNat_lt.mpr hab
  · rintro first rest rfl
    refine ⟨hhead first rfl, fun e => ?_⟩
    have hfirst := hwalk first.begins.toNat fun j hj => by rw [Option.mem_some_iff.mp hj]
    have hopen : ∀ t ∈ (first :: rest).map h.turn, t.next.isSome := by
      intro t ht
      obtain ⟨j, -, rfl⟩ := List.mem_map.mp ht
      rfl
    have hmem := hfirst.mem_delivered_iff hopen (a := e)
    rw [History.stands_reached, List.forall_mem_map] at hmem
    rw [hdelivered, hmem, UInt64.le_iff_toNat_le, UInt64.lt_iff_toNat_lt]
    constructor
    · rintro ⟨hle, hlt, hheld⟩
      have hevent : e ∈ h.events := by
        obtain ⟨t, ht, hin, -⟩ := hfirst.mem_delivered.mp (hmem.mpr ⟨hle, hlt, hheld⟩)
        obtain ⟨j, -, rfl⟩ := List.mem_map.mp ht
        exact (List.mem_filter.mp hin).1
      refine ⟨hevent, hle, hlt, fun j hj htold => ?_⟩
      obtain ⟨c, hjoin⟩ := hall j hj
      obtain ⟨hcovers, hlost⟩ := (hjoin.told hevent).mp htold
      exact hlost (hheld j hj hcovers)
    · rintro ⟨hevent, hle, hlt, hnone⟩
      refine ⟨hle, hlt, fun j hj hcovers => ?_⟩
      obtain ⟨c, hjoin⟩ := hall j hj
      by_contra hlost
      exact hnone j hj ((hjoin.told hevent).mpr ⟨hcovers, hlost⟩)

def threeEvents : List Event := [(noted 1).event, (noted 4).event, (noted 6).event]

theorem three_rising : threeEvents.Pairwise fun a b => a.seq < b.seq := by decide

theorem three_positions : ∀ e ∈ threeEvents, e.seq ≠ 0 ∧ e.seq ≠ ceiling := by decide

theorem three_sent : ∀ e ∈ threeEvents, ∃ bytes, e.encode (maxPayload - eventFramingBytes) = .ok bytes := by
  have hsome : ∀ e ∈ threeEvents, (e.encode (maxPayload - eventFramingBytes)).toOption.isSome := by decide +kernel
  intro e he
  obtain ⟨bytes, hbytes⟩ := Option.isSome_iff_exists.mp (hsome e he)
  exact ⟨bytes, toOption_some.mp hbytes⟩

def threeRecords : History := ⟨threeEvents, three_rising, three_positions, three_sent⟩

def interrupted : List Connection := [⟨0, 1, 1⟩, ⟨2, 3, 5⟩]

theorem interrupted_takes : (threeRecords.run (.from 1) interrupted).toOption.map
    (fun joins => (joins.flatMap Joined.taken).map Event.seq) = some [1, 6] := by decide +kernel

theorem subscriptions_resume_interrupted : ∃ joins, threeRecords.run (.from 1) interrupted = .ok joins ∧
    (joins.flatMap Joined.taken).map Event.seq = [1, 6] ∧ ∀ j ∈ joins, j.outcomes = j.taken.map .ok := by
  have hproper : ∀ c ∈ interrupted, threeRecords.Proper c := by
    intro c hc
    rcases List.mem_pair.mp hc with rfl | rfl
    · exact .inl rfl
    · exact .inr (by decide)
  obtain ⟨joins, hrun, -, hclean, -⟩ := subscriptions_resume threeRecords (.from 1) (by decide) interrupted hproper
  have htakes := interrupted_takes
  rw [hrun] at htakes
  exact ⟨joins, hrun, Option.some.inj htakes, hclean⟩

end Km43.Log
