import Km43.Cbor.Packed
import Km43.Cbor.Told
import Km43.Readings.SampleTrip
import Km43.Readings.SeriesCheck

namespace Km43.Readings

open Library Cbor CborReader CborWriter

def maxReadingsRows : ℕ := maxSamples + maxSeries

def onlyIf (c : Prop) [Decidable c] (m : Encoder ReadingsError Unit) : Encoder ReadingsError Unit :=
  if c then m else pure ()

structure Slot where
  len : ℕ
  series : Bool

structure ReadingsPage where
  scratch : Bytes
  slots : List Slot
  samples : ℕ
  series : ℕ
  next : UInt16

namespace ReadingsPage

def new : ReadingsPage := ⟨[], [], 0, 0, 0⟩

def keep (page : ReadingsPage) (row : Bytes) (series : Bool) : Option ReadingsPage :=
  if page.scratch.length + row.length > maxReadingsBytes ∨ page.samples + page.series ≥ maxReadingsRows then none
  else some { page with scratch := page.scratch ++ row, slots := page.slots ++ [⟨row.length, series⟩] }

/-- Whether the page took the row; where it is full, the row's signal is where the next page resumes. -/
def pushRow (page : ReadingsPage) (rows most width : ℕ) (write : Encoder ReadingsError Unit) (series : Bool) (sig : Id)
    (counted : ReadingsPage → ReadingsPage) : Except ReadingsError Bool × ReadingsPage :=
  if rows ≥ most then (.ok false, { page with next := sig.raw })
  else
    match encodeBody write width with
    | .error why => (.error why, page)
    | .ok one =>
      match page.keep one series with
      | none => (.ok false, { page with next := sig.raw })
      | some kept => (.ok true, counted kept)

def pushSample (page : ReadingsPage) (sample : Sample) : Except ReadingsError Bool × ReadingsPage :=
  page.pushRow page.samples maxSamples sampleMaxBytes sample.encode false sample.sig
    fun kept => { kept with samples := kept.samples + 1 }

def pushSeries (page : ReadingsPage) (series : Series) : Except ReadingsError Bool × ReadingsPage :=
  page.pushRow page.series maxSeries seriesMaxBytes (series.encode maxSeriesLen) true series.sig
    fun kept => { kept with series := kept.series + 1 }

def isEmpty (page : ReadingsPage) : Bool := page.samples == 0 && page.series == 0

def copyRow (row : Bytes) : Encoder ReadingsError Unit := do
  let (one, _) ← (ask raw : Read ReadingsError Bytes) (.new row)
  tell (CborWriter.raw one)

def copyRows (series : Bool) : List Slot → Bytes → Encoder ReadingsError Unit
  | [], _ => pure ()
  | slot :: rest, scratch =>
    if scratch.length < slot.len then throw (.rowTooLong slot.len)
    else do
      onlyIf (slot.series = series) (copyRow (scratch.take slot.len))
      copyRows series rest (scratch.drop slot.len)

def encodeArray (page : ReadingsPage) (series : Bool) : Encoder ReadingsError Unit := do
  tell (CborWriter.array (if series then page.series else page.samples))
  copyRows series page.slots page.scratch

end ReadingsPage

structure ReadingsBody where
  seq : UInt64
  rev : UInt32
  time : Option UInt64
  outcome : ReadingsOutcome
  total : UInt16
  page : Option ReadingsPage

namespace ReadingsBody

def answered (body : ReadingsBody) : Bool := body.outcome = .ok

def shown (body : ReadingsBody) : ReadingsPage :=
  match body.page with
  | some page => if body.answered then page else .new
  | none => .new

def pairs (body : ReadingsBody) : ℕ :=
  5 + body.time.toList.length + (if body.shown.samples > 0 then 1 else 0) + (if body.shown.series > 0 then 1 else 0)

def write (body : ReadingsBody) : Encoder ReadingsError Unit := do
  tell (CborWriter.map body.pairs)
  tell (CborWriter.key 1)
  tell (CborWriter.u64 body.seq.toNat)
  tell (CborWriter.key 2)
  tell (CborWriter.u64 body.rev.toNat)
  keyed 3 body.time fun time => tell (CborWriter.u64 time.toNat)
  onlyIf (body.shown.samples > 0) do
    tell (CborWriter.key 4)
    body.shown.encodeArray false
  onlyIf (body.shown.series > 0) do
    tell (CborWriter.key 5)
    body.shown.encodeArray true
  tell (CborWriter.key 6)
  tell (CborWriter.u64 body.shown.next.toNat)
  tell (CborWriter.key 7)
  tell (CborWriter.u64 body.total.toNat)
  tell (CborWriter.key 8)
  tell (CborWriter.u64 body.outcome.number.toNat)

/-- Nothing is encoded of an outcome that answered nothing beside a page that holds a row. -/
def encode (body : ReadingsBody) (dst : ℕ) : Except ReadingsError Bytes :=
  let held := match body.page with
    | some page => !page.isEmpty
    | none => false
  if !body.answered && held then .error (.answeredNothing body.outcome)
  else encodeBody body.write dst

end ReadingsBody

inductive ReadingsKey
  | seq
  | rev
  | time
  | samples
  | series
  | next
  | total
  | outcome
  deriving DecidableEq

namespace ReadingsKey

def of (number : ℤ) : Option ReadingsKey :=
  if number = 1 then some seq else if number = 2 then some rev else if number = 3 then some time
  else if number = 4 then some samples else if number = 5 then some series else if number = 6 then some next
  else if number = 7 then some total else if number = 8 then some outcome else none

def number : ReadingsKey → ℕ
  | seq => 1
  | rev => 2
  | time => 3
  | samples => 4
  | series => 5
  | next => 6
  | total => 7
  | outcome => 8

theorem of_iff (n : ℤ) (k : ReadingsKey) : of n = some k ↔ n = k.number := by
  constructor
  · intro h
    unfold of at h
    split_ifs at h <;> cases h <;> assumption
  · rintro rfl
    cases k <;> rfl

theorem narrow (k : ReadingsKey) : k.number < 24 := by cases k <;> decide

theorem small (k : ReadingsKey) : k.number < 256 := k.narrow.trans (by decide)

end ReadingsKey

instance : BodyKey ReadingsKey := ⟨ReadingsKey.of, ReadingsKey.number, ReadingsKey.of_iff, ReadingsKey.small⟩

structure ReadingsHeader where
  seq : UInt64
  rev : UInt32
  time : Option UInt64
  outcome : ReadingsOutcome
  next : UInt16
  total : UInt16
  samples : ℕ
  series : ℕ
  deriving DecidableEq

namespace ReadingsHeader

structure Slots where
  seq : Option UInt64
  rev : Option UInt32
  time : Option UInt64
  samples : Option ℕ
  series : Option ℕ
  next : Option UInt16
  total : Option UInt16
  outcome : Option UInt8

def count : Read ReadingsError ℕ := do
  let n ← ask array
  itemLoop (fun _ => ask skip) n ()
  pure n

def word : Read ReadingsError UInt64 := UInt64.ofNat <$> ask u64

def step : ℤ → Slots → Read ReadingsError Slots
  | 1, s => slotField word (.duplicate 1) s.seq fun slot => { s with seq := slot }
  | 2, s => slotField (ask u32) (.duplicate 2) s.rev fun slot => { s with rev := slot }
  | 3, s => slotField word (.duplicate 3) s.time fun slot => { s with time := slot }
  | 4, s => slotField count (.duplicate 4) s.samples fun slot => { s with samples := slot }
  | 5, s => slotField count (.duplicate 5) s.series fun slot => { s with series := slot }
  | 6, s => slotField (ask u16) (.duplicate 6) s.next fun slot => { s with next := slot }
  | 7, s => slotField (ask u16) (.duplicate 7) s.total fun slot => { s with total := slot }
  | 8, s => slotField (ask u8) (.duplicate 8) s.outcome fun slot => { s with outcome := slot }
  | _, s => passOver s

def Slots.empty : Slots := ⟨none, none, none, none, none, none, none, none⟩

def Slots.header (s : Slots) : Except ReadingsError ReadingsHeader := do
  let samples := s.samples.getD 0
  let series := s.series.getD 0
  let number ← slotRequired (.missingResponse 8) s.outcome
  let outcome ← slotRequired (.unknownOutcome number) (ReadingsOutcome.of number)
  let next ← slotRequired (.missingResponse 6) s.next
  if outcome ≠ .ok ∧ (next ≠ 0 ∨ samples > 0 ∨ series > 0) then .error (.answeredNothing outcome)
  else do
    let seq ← slotRequired (.missingResponse 1) s.seq
    let rev ← slotRequired (.missingResponse 2) s.rev
    let total ← slotRequired (.missingResponse 7) s.total
    .ok ⟨seq, rev, s.time, outcome, next, total, samples, series⟩

def decode (payload : Bytes) : Except ReadingsError ReadingsHeader := do
  let slots ← decodeBody (do
    let pairs ← ask CborReader.map
    pairLoop step pairs Slots.empty) payload
  slots.header

def samplesStep (key : ℤ) (slot : Option Bytes) : Read ReadingsError (Option Bytes) :=
  if key = 4 then slotField (ask raw) (.duplicate 4) slot id else passOver slot

/-- Each sample handed over as it is read, and what was made of those before one that is refused. -/
def deliver {σ : Type} (each : σ → Sample → σ) : ℕ → CborReader → σ → Except ReadingsError Unit × σ
  | 0, _, s => (.ok (), s)
  | n + 1, r, s =>
    match Sample.decode r with
    | .error why => (.error why, s)
    | .ok (sample, r) => deliver each n r (each s sample)

def forEachSample {σ : Type} (payload : Bytes) (each : σ → Sample → σ) (s : σ) : Except ReadingsError ℕ × σ :=
  match decodeBody (do
    let pairs ← ask CborReader.map
    pairLoop samplesStep pairs none) payload with
  | .error why => (.error why, s)
  | .ok none => (.ok 0, s)
  | .ok (some samples) =>
    match (ask array : Read ReadingsError ℕ) (.new samples) with
    | .error why => (.error why, s)
    | .ok (rows, r) =>
      let (done, s) := deliver each rows r s
      (done.map fun _ => rows, s)

end ReadingsHeader

end Km43.Readings
