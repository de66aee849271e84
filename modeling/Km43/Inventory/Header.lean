import Km43.Cbor.Typed
import Km43.Inventory.Row

namespace Km43.Inventory

open Library Cbor CborReader

instance : FromCbor InventoryError := ⟨.cbor⟩

def maxRowKeys : ℕ := 18

def readCmds (len : ℕ) : Read InventoryError (List UInt16) :=
  itemLoop (fun items => do
    let one ← ask u16
    pure (items ++ [one])) len []

def narrow (v : Int32) : Except InventoryError Int8 :=
  if -128 ≤ v.toInt ∧ v.toInt ≤ 127 then .ok v.toInt8 else .error (.cbor .integerOutOfRange)

def FieldType.read : FieldType → Read InventoryError Value
  | u8 => Value.u8 <$> ask CborReader.u8
  | u16 => Value.u16 <$> ask CborReader.u16
  | u32 => Value.u32 <$> ask CborReader.u32
  | i8 => do
    let v ← ask CborReader.i32
    let v ← narrow v
    pure (.i8 v)
  | i32 => Value.i32 <$> ask CborReader.i32
  | text => do
    -- `text` hands over nothing else, so the last branch is never taken.
    let raw ← ask CborReader.text
    if h : isUtf8 raw = true then pure (.text ⟨raw, h⟩) else throw (.cbor .invalidUtf8)
  | bytes => Value.bytes <$> ask CborReader.bytesValue
  | u16List => do
    let len ← ask CborReader.array
    if len > maxComponentCmds then throw (.tooManyCmds len)
    let items ← readCmds len
    let list ← CmdList.new items
    pure (.u16List list)

def RowKind.column (kind : RowKind) (number : ℤ) : Option ℕ :=
  if 0 ≤ number ∧ number < 256 then
    kind.fields.findIdx? fun field => field.key = UInt8.ofNat number.toNat
  else none

namespace RowSlots

def step (kind : RowKind) (number : ℤ) (values : List Value) : Read InventoryError (List Value) :=
  match kind.column number with
  | none => passOver values
  | some place =>
    match kind.fields[place]?, values[place]? with
    | none, _ => throw (.rowShape kind kind.fields.length place)
    | some _, none => throw (.rowShape kind maxRowKeys place)
    | some field, some slot =>
      if slot.isAbsent then do
        let value ← field.ty.read
        pure (values.set place value)
      else throw (.duplicateRowKey kind field.key)

def slots (kind : RowKind) : Read InventoryError (List Value) := do
  let pairs ← ask CborReader.map
  pairLoop (step kind) pairs (List.replicate maxRowKeys .absent)

def decode (kind : RowKind) (bytes : Bytes) : Except InventoryError Row := do
  let (values, body) ← slots kind (CborReader.new bytes)
  body.finish.mapError FromCbor.cbor
  if values.length < kind.fields.length then .error (.rowShape kind kind.fields.length maxRowKeys)
  else Row.new kind (values.take kind.fields.length)

end RowSlots

structure Digest where
  raw : Bytes
  width : raw.length = 8

structure InventoryHeader where
  rev : UInt32
  what : UInt8
  outcome : InventoryOutcome
  next : UInt16
  total : UInt16
  rows : ℕ
  digest : Option Digest

namespace InventoryHeader

structure Slots where
  rev : Option UInt32
  what : Option UInt8
  rows : Option (ℕ × Bytes)
  next : Option UInt16
  total : Option UInt16
  outcome : Option UInt8
  digest : Option Digest

def Slots.empty : Slots := ⟨none, none, none, none, none, none, none⟩

def count (rows : Bytes) : Except InventoryError ℕ :=
  ((CborReader.array (CborReader.new rows)).map Prod.fst).mapError FromCbor.cbor

def rowsFrom : Read InventoryError (ℕ × Bytes) := do
  let rows ← ask CborReader.raw
  let n ← count rows
  pure (n, rows)

def digestFrom : Read InventoryError Digest := do
  let raw ← ask bytesValue
  if h : raw.length = 8 then pure ⟨raw, h⟩ else throw (.digestWidth raw.length)

def Slots.step (number : ℤ) (s : Slots) : Read InventoryError Slots :=
  match InventoryKey.of number with
  | some .rev => slotField (ask CborReader.u32) (.duplicateResponse .rev) s.rev fun slot =>
      { s with rev := slot }
  | some .what => slotField (ask CborReader.u8) (.duplicateResponse .what) s.what fun slot =>
      { s with what := slot }
  | some .rows => slotField rowsFrom (.duplicateResponse .rows) s.rows fun slot => { s with rows := slot }
  | some .next => slotField (ask CborReader.u16) (.duplicateResponse .next) s.next fun slot =>
      { s with next := slot }
  | some .total => slotField (ask CborReader.u16) (.duplicateResponse .total) s.total fun slot =>
      { s with total := slot }
  | some .outcome => slotField (ask CborReader.u8) (.duplicateResponse .outcome) s.outcome fun slot =>
      { s with outcome := slot }
  | some .digest => slotField digestFrom (.duplicateResponse .digest) s.digest fun slot =>
      { s with digest := slot }
  | none => passOver s

def slots : Read InventoryError Slots := do
  let pairs ← ask CborReader.map
  pairLoop Slots.step pairs .empty

def Slots.header (s : Slots) : Except InventoryError (InventoryHeader × Bytes) := do
  let number ← slotRequired (.missingResponse .outcome) s.outcome
  let outcome ← slotRequired (.unknownOutcome number) (InventoryOutcome.of number)
  let next ← slotRequired (.missingResponse .next) s.next
  let (rows, array) ← slotRequired (.missingResponse .rows) s.rows
  if outcome ≠ .ok ∧ (rows ≠ 0 ∨ s.digest.isSome) then throw (.answeredNothing outcome)
  if s.digest.isSome ∧ next ≠ 0 then throw .digestMidWalk
  let rev ← slotRequired (.missingResponse .rev) s.rev
  let what ← slotRequired (.missingResponse .what) s.what
  let total ← slotRequired (.missingResponse .total) s.total
  pure (⟨rev, what, outcome, next, total, rows, s.digest⟩, array)

def decodeWithRows (payload : Bytes) : Except InventoryError (InventoryHeader × Bytes) := do
  let (slots, body) ← slots (CborReader.new payload)
  body.finish.mapError FromCbor.cbor
  slots.header

def decode (payload : Bytes) : Except InventoryError InventoryHeader :=
  Prod.fst <$> decodeWithRows payload

end InventoryHeader

end Km43.Inventory
