import Km43.Cbor.Whole
import Km43.Readings.Quality

namespace Km43.Readings

open Library Cbor CborReader

def sampleMaxBytes : ℕ := 20
def seriesMaxBytes : ℕ := 111

/-- A scalar reading: one signal, a value exactly when its quality carries one, an age exactly when it is stale. -/
structure Sample where
  sig : Id
  value : Option Int32
  q : SignalQuality
  age : Option UInt32
  carries : value.isSome = q.carriesValue
  aged : age.isSome = q.isStale

def keyed {α : Type} (key : ℤ) (slot : Option α) (m : α → Encoder ReadingsError Unit) : Encoder ReadingsError Unit :=
  whenSome slot fun value => do
    tell (CborWriter.key key)
    m value

namespace Sample

def new (sig : Id) (q : SignalQuality) (value : Option Int32) (age : Option UInt32) : Except QualityError Sample :=
  if hvalue : value.isSome = q.carriesValue then
    if hage : age.isSome = q.isStale then .ok ⟨sig, value, q, age, hvalue, hage⟩
    else if q.isStale then .error .staleWithoutAge
    else .error (.ageWithoutStaleness q.validityOf)
  else if q.carriesValue then .error (.valueOmitted q.validityOf)
  else .error (.noValueToCarry q.validityOf)

def pairs (s : Sample) : ℕ := 2 + s.value.toList.length + s.age.toList.length

def encode (s : Sample) : Encoder ReadingsError Unit := do
  tell (CborWriter.map s.pairs)
  tell (CborWriter.key 1)
  tell (CborWriter.u64 s.sig.raw.toNat)
  keyed 2 s.value fun value => tell (CborWriter.i32 value)
  tell (CborWriter.key 3)
  tell (CborWriter.u64 s.q.byte.toNat)
  keyed 4 s.age fun age => tell (CborWriter.u64 age.toNat)

structure Slots where
  sig : Option Id
  value : Option Int32
  q : Option UInt8
  age : Option UInt32

def Slots.empty : Slots := ⟨none, none, none, none⟩

def readId : Read ReadingsError Id := do
  let raw ← ask u16
  Id.new raw

def step : ℤ → Slots → Read ReadingsError Slots
  | 1, s => slotField readId (.duplicate 1) s.sig fun slot => { s with sig := slot }
  | 2, s => slotField (ask i32) (.duplicate 2) s.value fun slot => { s with value := slot }
  | 3, s => slotField (ask u8) (.duplicate 3) s.q fun slot => { s with q := slot }
  | 4, s => slotField (ask u32) (.duplicate 4) s.age fun slot => { s with age := slot }
  | _, s => passOver s

def Slots.sample (s : Slots) : Except ReadingsError Sample := do
  let sig ← slotRequired (.missingResponse 1) s.sig
  let byte ← slotRequired (.missingResponse 3) s.q
  let q ← (SignalQuality.fromByte byte).mapError .quality
  (new sig q s.value s.age).mapError .quality

def decode : Read ReadingsError Sample := do
  let pairs ← ask CborReader.map
  let slots ← pairLoop step pairs .empty
  slots.sample

end Sample

def carrying (q : List SignalQuality) : ℕ := (q.filter SignalQuality.carriesValue).length

def anyStale (q : List SignalQuality) : Bool := q.any SignalQuality.isStale

/-- A series reading: a quality for each element, and integers for exactly the ones that have a number. -/
structure Series where
  sig : Id
  q : List SignalQuality
  values : List Int32
  age : Option UInt32
  long : 2 ≤ q.length
  short : q.length ≤ maxSeriesLen
  counted : values.length = carrying q
  aged : age.isSome = anyStale q

namespace Series

def new (sig : Id) (q : List SignalQuality) (values : List Int32) (age : Option UInt32) :
    Except QualityError Series :=
  if hlen : 2 ≤ q.length ∧ q.length ≤ maxSeriesLen then
    if hcount : values.length = carrying q then
      if hage : age.isSome = anyStale q then .ok ⟨sig, q, values, age, hlen.1, hlen.2, hcount, hage⟩
      else if anyStale q then .error .staleWithoutAge
      else .error (.ageWithoutStaleness .ok)
    else .error (.valueCount (carrying q) values.length)
  else .error (.seriesLength q.length)

/-- The values go out beside the qualities' bytes, copied to a scratch of their own first. -/
def encode (s : Series) (scratch : ℕ) : Encoder ReadingsError Unit := do
  if scratch < s.q.length then throw (.cbor .destinationTooSmall)
  tell (CborWriter.map (3 + s.age.toList.length))
  tell (CborWriter.key 1)
  tell (CborWriter.u64 s.sig.raw.toNat)
  tell (CborWriter.key 2)
  tell (CborWriter.bytes (s.q.map SignalQuality.byte))
  tell (CborWriter.key 3)
  tell (CborWriter.array s.values.length)
  s.values.forM fun value => tell (CborWriter.i32 value)
  keyed 4 s.age fun age => tell (CborWriter.u64 age.toNat)

structure Slots where
  sig : Option Id
  carrying : Option ℕ
  elements : Option ℕ
  integers : Option ℕ
  age : Option UInt32
  stale : Bool

def Slots.empty : Slots := ⟨none, none, none, none, none, false⟩

def countQualities : Bytes → ℕ → Bool → Except ReadingsError (ℕ × Bool)
  | [], n, stale => .ok (n, stale)
  | raw :: rest, n, stale => do
    let q ← (SignalQuality.fromByte raw).mapError ReadingsError.quality
    countQualities rest (if q.carriesValue then n + 1 else n) (stale || q.isStale)

def readElements (s : Slots) : Read ReadingsError Slots := do
  let bytes ← ask bytesValue
  let (withValue, stale) ← countQualities bytes 0 s.stale
  let elements ← slotOnce (ReadingsError.duplicate 2) s.elements bytes.length
  pure { s with elements := elements, carrying := some withValue, stale := stale }

def readIntegers : Read ReadingsError ℕ := do
  let n ← ask array
  itemLoop (fun _ => do
    let _ ← ask i32
    pure ()) n ()
  pure n

def step : ℤ → Slots → Read ReadingsError Slots
  | 1, s => slotField Sample.readId (.duplicate 1) s.sig fun slot => { s with sig := slot }
  | 2, s => readElements s
  | 3, s => slotField readIntegers (.duplicate 3) s.integers fun slot => { s with integers := slot }
  | 4, s => slotField (ask u32) (.duplicate 4) s.age fun slot => { s with age := slot }
  | _, s => passOver s

def Slots.verdict (s : Slots) : Except ReadingsError (UInt16 × ℕ) := do
  let elements ← slotRequired (.missingResponse 2) s.elements
  let want ← slotRequired (.missingResponse 2) s.carrying
  let got ← slotRequired (.missingResponse 3) s.integers
  if want ≠ got then .error (.quality (.valueCount want got))
  else if elements < 2 ∨ maxSeriesLen < elements then .error (.quality (.seriesLength elements))
  else if s.stale ∧ s.age.isNone then .error (.quality .staleWithoutAge)
  else if ¬s.stale ∧ s.age.isSome then .error (.quality (.ageWithoutStaleness .ok))
  else do
    let sig ← slotRequired (.missingResponse 1) s.sig
    .ok (sig.raw, elements)

/-- One encoded series against itself: which signal it is, and how many elements it has. -/
def check (payload : Bytes) : Except ReadingsError (UInt16 × ℕ) := do
  let slots ← decodeBody (do
    let pairs ← ask CborReader.map
    pairLoop step pairs Slots.empty) payload
  slots.verdict

end Series

end Km43.Readings
