import Km43.Cbor.Typed
import Km43.Cbor.Writer
import Km43.Cbor.Takes

namespace Km43.Log

open Library Cbor CborWriter CborReader

abbrev LogSeq := UInt64

inductive EventKey
  | seq
  | time
  | kind
  | body
  deriving DecidableEq

def EventKey.number : EventKey → ℤ
  | seq => 1
  | time => 2
  | kind => 3
  | body => 4

def EventKey.of (number : ℤ) : Option EventKey :=
  if number = 1 then some seq
  else if number = 2 then some .time
  else if number = 3 then some kind
  else if number = 4 then some body
  else none

inductive EventError
  | missing (key : EventKey)
  | duplicate (key : EventKey)
  | bodyTooLong (length : ℕ)
  | replayed (floor seq : LogSeq)
  | seqAtTheCeiling
  | cbor (why : CborError)
  deriving DecidableEq

instance : FromCbor EventError := ⟨.cbor⟩

def walkPairs : Read EventError Unit := do
  let pairs ← ask map
  pairLoop (fun _ => passOver) pairs ()

def shaped (body : Bytes) : Except EventError Unit :=
  if body.length > maxEventBody then .error (.bodyTooLong body.length)
  else do
    let (_, cbor) ← walkPairs (CborReader.new body)
    cbor.finish.mapError FromCbor.cbor

structure Event where
  seq : LogSeq
  time : Option UInt64
  kind : UInt16
  body : Bytes
  shapely : shaped body = .ok ()

namespace Event

def new (seq : LogSeq) (time : Option UInt64) (kind : UInt16) (body : Bytes) : Except EventError Event :=
  match h : shaped body with
  | .ok () => .ok ⟨seq, time, kind, body, h⟩
  | .error why => .error why

structure Slots where
  seq : Option UInt64
  time : Option UInt64
  kind : Option UInt16
  body : Option Bytes

namespace Slots

def empty : Slots := ⟨none, none, none, none⟩

def step (number : ℤ) (s : Slots) : Read EventError Slots :=
  match EventKey.of number with
  | some .seq => slotField (UInt64.ofNat <$> ask u64) (.duplicate .seq) s.seq fun slot =>
      { s with seq := slot }
  | some .time => slotField (UInt64.ofNat <$> ask u64) (.duplicate .time) s.time fun slot =>
      { s with time := slot }
  | some .kind => slotField (ask u16) (.duplicate .kind) s.kind fun slot => { s with kind := slot }
  | some .body => slotField (ask raw) (.duplicate .body) s.body fun slot => { s with body := slot }
  | none => passOver s

def event (s : Slots) : Except EventError Event := do
  let body ← slotRequired (.missing .body) s.body
  shaped body
  let seq ← slotRequired (.missing .seq) s.seq
  let kind ← slotRequired (.missing .kind) s.kind
  new seq s.time kind body

end Slots

def decodeFrom : Read EventError Event := do
  let pairs ← ask map
  let slots ← pairLoop Slots.step pairs .empty
  let event ← slots.event
  pure event

def decode (payload : Bytes) : Except EventError Event := do
  let (event, body) ← decodeFrom (CborReader.new payload)
  body.finish.mapError FromCbor.cbor
  .ok event

theorem ext {e e' : Event} (hseq : e.seq = e'.seq) (htime : e.time = e'.time) (hkind : e.kind = e'.kind)
    (hbody : e.body = e'.body) : e = e' := by
  cases e
  cases e'
  simp_all

theorem new_ok {seq : LogSeq} {time : Option UInt64} {kind : UInt16} {body : Bytes} {e : Event} :
    new seq time kind body = .ok e ↔ e.seq = seq ∧ e.time = time ∧ e.kind = kind ∧ e.body = body := by
  unfold new
  split
  · rename_i h
    constructor
    · rintro ⟨⟩
      exact ⟨rfl, rfl, rfl, rfl⟩
    · rintro ⟨hseq, htime, hkind, hbody⟩
      rw [Except.ok.injEq]
      exact ext hseq.symm htime.symm hkind.symm hbody.symm
  · rename_i why h
    constructor
    · intro he
      cases he
    · rintro ⟨-, -, -, rfl⟩
      rw [e.shapely] at h
      cases h

def encodeInto (e : Event) : Encoder EventError Unit := do
  tell (CborWriter.map (4 - e.time.isNone.toNat))
  tell (CborWriter.key EventKey.seq.number)
  tell (CborWriter.u64 e.seq.toNat)
  match e.time with
  | some time => do
    tell (CborWriter.key EventKey.time.number)
    tell (CborWriter.u64 time.toNat)
  | none => pure ()
  tell (CborWriter.key EventKey.kind.number)
  tell (CborWriter.u64 e.kind.toNat)
  tell (CborWriter.key EventKey.body.number)
  tell (CborWriter.raw e.body)

def calls (e : Event) : List Call :=
  [.map (if e.time.isNone then 3 else 4), .key 1, .u64 e.seq] ++
    (e.time.toList.flatMap fun time => [.key 2, .u64 time]) ++
    [.key 3, .u64 e.kind.toUInt64, .key 4, .raw e.body]

theorem encodeInto_tells (e : Event) : Tells e.encodeInto e.calls := by
  obtain ⟨seq, time, kind, body, shapely⟩ := e
  have hrest : Tells (do
      tell (CborWriter.key EventKey.kind.number)
      tell (CborWriter.u64 kind.toNat)
      tell (CborWriter.key EventKey.body.number)
      tell (CborWriter.raw body) : Encoder EventError Unit)
      [.key 3, .u64 kind.toUInt64, .key 4, .raw body] :=
    .cons (c := .key 3) <| .cons (c := .u64 kind.toUInt64) <| .cons (c := .key 4) <| .call (.raw body)
  cases time with
  | none =>
    exact .cons (c := .map 3) <| .cons (c := .key 1) <| .cons (c := .u64 seq) <| Tells.none.append hrest
  | some time =>
    exact .cons (c := .map 4) <| .cons (c := .key 1) <| .cons (c := .u64 seq) <| .cons (c := .key 2) <|
      .cons (c := .u64 time) hrest

theorem slots_event {s : Slots} {e : Event} (hseq : s.seq = some e.seq) (htime : s.time = e.time)
    (hkind : s.kind = some e.kind) (hbody : s.body = some e.body) : s.event = .ok e := by
  have hnew : new e.seq e.time e.kind e.body = .ok e := new_ok.mpr ⟨rfl, rfl, rfl, rfl⟩
  simp only [Slots.event, hseq, htime, hkind, hbody, slotRequired_some]
  exact bind_ok.mpr ⟨e.body, rfl, bind_ok.mpr ⟨(), e.shapely,
    bind_ok.mpr ⟨e.seq, rfl, bind_ok.mpr ⟨e.kind, rfl, hnew⟩⟩⟩⟩

theorem decodeFrom_takes (e : Event) : Takes decodeFrom e.calls e := by
  have hkind : ∀ s : Slots, s.kind = none → Takes (Slots.step (3 : Int64).toInt s) [.u64 e.kind.toUInt64]
      { s with kind := some e.kind } := by
    rintro ⟨seq, time, kind, body⟩ rfl
    exact .slotField (.u16 e.kind)
  have hbody : ∀ s : Slots, s.body = none → Takes (Slots.step (4 : Int64).toInt s) [.raw e.body]
      { s with body := some e.body } := by
    rintro ⟨seq, time, kind, body⟩ rfl
    exact .slotField (.raw e.body)
  have hseq : Takes (Slots.step (1 : Int64).toInt .empty) [.u64 e.seq] ⟨some e.seq, none, none, none⟩ :=
    .slotField (.word e.seq)
  obtain ⟨seq, time, kind, body, shapely⟩ := e
  cases time with
  | none =>
    have hpairs := Takes.pairs hseq (.pairs (hkind _ rfl) (.pairs (hbody _ rfl) .pairsDone))
    exact (Takes.map 3).bind (hpairs.bind (.check (slots_event rfl rfl rfl rfl)))
  | some time =>
    have htime : Takes (Slots.step (2 : Int64).toInt ⟨some seq, none, none, none⟩) [.u64 time]
        ⟨some seq, some time, none, none⟩ := .slotField (.word time)
    have hpairs := Takes.pairs hseq
      (.pairs htime (.pairs (hkind _ rfl) (.pairs (hbody _ rfl) .pairsDone)))
    exact (Takes.map 4).bind (hpairs.bind (.check (slots_event rfl rfl rfl rfl)))

end Event

def ceiling : LogSeq := 0xFFFFFFFFFFFFFFFF

def LogSeq.next (seq : LogSeq) : Option LogSeq := if seq = ceiling then none else some (seq + 1)

inductive Replay
  | liveOnly
  | from (at' : LogSeq)
  deriving DecidableEq

inductive SubscribeError
  | zeroIsNotAPosition
  | oldestPastNewest
  | logAtTheCeiling
  deriving DecidableEq

structure LogExtent where
  oldest : LogSeq
  newest : LogSeq
  ordered : (oldest = 0 ∧ newest = 0) ∨ (oldest ≠ 0 ∧ newest ≠ 0 ∧ oldest ≤ newest)

namespace LogExtent

def empty : LogExtent := ⟨0, 0, .inl ⟨rfl, rfl⟩⟩

def holding (oldest newest : LogSeq) : Except SubscribeError LogExtent :=
  if hzero : oldest = 0 ∨ newest = 0 then .error .zeroIsNotAPosition
  else if hpast : newest < oldest then .error .oldestPastNewest
  else .ok ⟨oldest, newest, .inr ⟨fun h => hzero (.inl h), fun h => hzero (.inr h),
    UInt64.not_lt.mp hpast⟩⟩

end LogExtent

structure Subscribe where
  replay : Replay

structure SubscribeAck where
  acceptedFromSeq : LogSeq
  extent : LogExtent
  gap : Bool

def SubscribeAck.answer (request : Subscribe) (log : LogExtent) : Except SubscribeError SubscribeAck :=
  match request.replay with
  | .liveOnly =>
    match log.newest.next with
    | some next => .ok ⟨next, log, false⟩
    | none => .error .logAtTheCeiling
  | .from at' => .ok ⟨max at' log.oldest, log, at' < log.oldest⟩

structure ReadLog where
  fromSeq : LogSeq
  maxEntries : UInt16

namespace ReadLog

def pageSize (r : ReadLog) : ℕ := min r.maxEntries.toNat maxLogPageEntries

def startAt (r : ReadLog) (oldest : LogSeq) : LogSeq := max r.fromSeq oldest

end ReadLog

theorem LogSeq.next_some {seq past : LogSeq} :
    LogSeq.next seq = some past ↔ seq ≠ ceiling ∧ past.toNat = seq.toNat + 1 := by
  have hlt := seq.toNat_lt
  have hceiling : seq = ceiling ↔ seq.toNat = 2 ^ 64 - 1 := by
    rw [← UInt64.toNat_inj]
    rfl
  unfold LogSeq.next
  split_ifs with h
  · simp [h]
  · have hsum : (seq + 1).toNat = seq.toNat + 1 := by
      rw [UInt64.toNat_add]
      have := hceiling.not.mp h
      simp only [UInt64.reduceToNat]
      omega
    rw [Option.some.injEq, ← UInt64.toNat_inj, hsum]
    simp only [h, ne_eq, not_false_eq_true, true_and]
    exact eq_comm

namespace SubscribeAck

theorem answer_liveOnly {request : Subscribe} {log : LogExtent} {ack : SubscribeAck}
    (h : answer request log = .ok ack) (hr : request.replay = .liveOnly) :
    ack.acceptedFromSeq.toNat = log.newest.toNat + 1 ∧ ack.gap = false := by
  simp only [answer, hr] at h
  cases hn : LogSeq.next log.newest with
  | none =>
    rw [hn] at h
    cases h
  | some next =>
    rw [hn] at h
    cases h
    exact ⟨(LogSeq.next_some.mp hn).2, rfl⟩

theorem answer_from {request : Subscribe} {log : LogExtent} {ack : SubscribeAck} {at' : LogSeq}
    (h : answer request log = .ok ack) (hr : request.replay = .from at') :
    ack.acceptedFromSeq = max at' log.oldest ∧ ack.gap = decide (at' < log.oldest) := by
  simp only [answer, hr, Except.ok.injEq] at h
  subst h
  exact ⟨rfl, rfl⟩

theorem gap_iff {request : Subscribe} {log : LogExtent} {ack : SubscribeAck}
    (h : answer request log = .ok ack) :
    ack.gap = true ↔ ∃ at', request.replay = .from at' ∧ at' < log.oldest := by
  cases hr : request.replay with
  | liveOnly => simp [(answer_liveOnly h hr).2]
  | «from» at' => simp [(answer_from h hr).2]

end SubscribeAck

end Km43.Log
