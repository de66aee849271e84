import Km43.Cbor.Calls
import Km43.Devices.Entries
import Km43.Limits

namespace Km43.Inventory

open Cbor

inductive FieldType
  | u8
  | u16
  | u32
  | i8
  | i32
  | text
  | bytes
  | u16List
  deriving DecidableEq

structure Field where
  key : UInt8
  ty : FieldType
  optional : Bool
  deriving DecidableEq

def req (key : UInt8) (ty : FieldType) : Field := ⟨key, ty, false⟩

def opt (key : UInt8) (ty : FieldType) : Field := ⟨key, ty, true⟩

def busFields : List Field := [req 1 .u8, req 2 .u8, opt 3 .text, opt 4 .u32]

def deviceFields : List Field :=
  [req 1 .u16, req 2 .u8, opt 3 .bytes, req 4 .u16, req 5 .u16, req 6 .u16, opt 7 .u16, opt 8 .text,
    opt 9 .text, opt 10 .text, opt 11 .text, req 12 .u32, opt 13 .u16List]

def componentFields : List Field :=
  [req 1 .u16, req 2 .u16, opt 3 .u16, req 4 .u16, opt 5 .u16, opt 6 .u16, opt 7 .text, opt 8 .u16List,
    req 9 .u32]

def signalFields : List Field :=
  [req 1 .u16, req 2 .u16, req 3 .u16, req 4 .u16, req 5 .u8, req 6 .u8, req 7 .u8, opt 8 .u16, opt 9 .u8,
    opt 10 .u8, opt 11 .u16, opt 12 .u16, opt 13 .u16, opt 14 .u8, opt 15 .i8, opt 16 .u16, opt 17 .u8,
    opt 18 .text]

def paramFields : List Field :=
  [req 1 .u16, req 2 .u16, req 3 .u16, req 4 .u16, opt 5 .i32, req 6 .u8, req 7 .u8, opt 8 .u16, opt 9 .u8,
    opt 10 .u16, opt 11 .i32, opt 12 .i32, opt 13 .u16, opt 14 .u8, opt 15 .i8, opt 16 .u16, opt 17 .text]

inductive Shape
  | scalar
  | series
  deriving DecidableEq

def Shape.tryFrom (v : UInt8) : Option Shape :=
  if v = 1 then some scalar else if v = 2 then some series else none

inductive Vtype
  | gauge
  | counter
  | enum
  | flags
  deriving DecidableEq

def Vtype.tryFrom (v : UInt8) : Option Vtype :=
  if v = 1 then some gauge else if v = 2 then some counter else if v = 3 then some enum
  else if v = 4 then some flags else none

inductive SignalDomain
  | live
  | lifetime
  | sinceReset
  | today
  | yesterday
  | limitUpper
  | limitLower
  | max
  | min
  deriving DecidableEq

def SignalDomain.tryFrom (v : UInt8) : Option SignalDomain :=
  if v = 1 then some live else if v = 2 then some lifetime else if v = 3 then some sinceReset
  else if v = 4 then some today else if v = 5 then some yesterday else if v = 6 then some limitUpper
  else if v = 7 then some limitLower else if v = 8 then some max else if v = 9 then some min
  else none

inductive Bucket
  | day
  | hour
  | quarterHour
  deriving DecidableEq

def Bucket.tryFrom (v : UInt8) : Option Bucket :=
  if v = 1 then some day else if v = 2 then some hour else if v = 3 then some quarterHour else none

def Transport.tryFrom (v : UInt8) : Option Devices.Transport :=
  if v = 1 then some .rs485 else if v = 2 then some .can else if v = 3 then some .veDirect
  else if v = 4 then some .localIo else if v = 5 then some .ip else if v = 6 then some .onewire
  else if v = 7 then some .internal else none

inductive Closed
  | transport
  | shape
  | valueType
  | domain
  | direction
  | bucket
  deriving DecidableEq

def Closed.holds (value : UInt8) : Closed → Bool
  | transport => (Transport.tryFrom value).isSome
  | shape => (Shape.tryFrom value).isSome
  | valueType => (Vtype.tryFrom value).isSome
  | domain => (SignalDomain.tryFrom value).isSome
  | direction => (Devices.Direction.tryFrom value).isSome
  | bucket => (Bucket.tryFrom value).isSome

inductive When
  | kindIsAVendorsOwn
  | shapeIsASeries
  | valueComesFromASpace
  deriving DecidableEq

def kindKey : UInt8 := 4
def shapeKey : UInt8 := 5
def vtypeKey : UInt8 := 6
def dirKey : UInt8 := 9
def nKey : UInt8 := 10
def ebaseKey : UInt8 := 12

def busMembers : List (UInt8 × Closed) := [(2, .transport)]

def signalMembers : List (UInt8 × Closed) :=
  [(shapeKey, .shape), (vtypeKey, .valueType), (7, .domain), (9, .direction), (17, .bucket)]

def paramMembers : List (UInt8 × Closed) := [(vtypeKey, .valueType), (7, .domain), (9, .direction)]

def signalConditions : List (UInt8 × When) :=
  [(10, .shapeIsASeries), (13, .valueComesFromASpace), (14, .kindIsAVendorsOwn), (15, .kindIsAVendorsOwn),
    (16, .kindIsAVendorsOwn)]

def paramConditions : List (UInt8 × When) :=
  [(10, .valueComesFromASpace), (14, .kindIsAVendorsOwn), (15, .kindIsAVendorsOwn), (16, .kindIsAVendorsOwn)]

inductive RowKind
  | bus
  | device
  | component
  | signal
  | param
  deriving DecidableEq

namespace RowKind

def number : RowKind → UInt8
  | bus => 1
  | device => 2
  | component => 3
  | signal => 4
  | param => 5

def fromNumber (what : UInt8) : Option RowKind :=
  if what = 1 then some bus else if what = 2 then some device else if what = 3 then some component
  else if what = 4 then some signal else if what = 5 then some param else none

def fields : RowKind → List Field
  | bus => busFields
  | device => deviceFields
  | component => componentFields
  | signal => signalFields
  | param => paramFields

def conditional : RowKind → List (UInt8 × When)
  | bus | device | component => []
  | signal => signalConditions
  | param => paramConditions

def closed : RowKind → List (UInt8 × Closed)
  | bus => busMembers
  | device | component => []
  | signal => signalMembers
  | param => paramMembers

@[simp] theorem fromNumber_number (kind : RowKind) : fromNumber kind.number = some kind := by
  cases kind <;> rfl

end RowKind

inductive InventoryKey
  | rev
  | what
  | rows
  | next
  | total
  | outcome
  | digest
  deriving DecidableEq

namespace InventoryKey

def of (number : ℤ) : Option InventoryKey :=
  if number = 1 then some rev else if number = 2 then some what else if number = 3 then some rows
  else if number = 4 then some next else if number = 5 then some total else if number = 6 then some outcome
  else if number = 7 then some digest else none

def number : InventoryKey → ℤ
  | rev => 1
  | what => 2
  | rows => 3
  | next => 4
  | total => 5
  | outcome => 6
  | digest => 7

end InventoryKey

inductive InventoryOutcome
  | ok
  | superseded
  | unknownKind
  | outOfRange
  deriving DecidableEq

namespace InventoryOutcome

def number : InventoryOutcome → UInt8
  | ok => 1
  | superseded => 2
  | unknownKind => 3
  | outOfRange => 4

def of (number : UInt8) : Option InventoryOutcome :=
  if number = 1 then some ok else if number = 2 then some superseded else if number = 3 then some unknownKind
  else if number = 4 then some outOfRange else none

@[simp] theorem of_number (outcome : InventoryOutcome) : of outcome.number = some outcome := by
  cases outcome <;> rfl

end InventoryOutcome

inductive InventoryError
  | rowShape (kind : RowKind) (want got : ℕ)
  | missingRequired (kind : RowKind) (key : UInt8)
  | wrongType (kind : RowKind) (key : UInt8)
  | emptyCmds
  | tooManyCmds (len : ℕ)
  | duplicateRowKey (kind : RowKind) (key : UInt8)
  | reservedZero (kind : RowKind) (key : UInt8)
  | notAMember (kind : RowKind) (key : UInt8) (space : Closed) (value : UInt8)
  | seriesTooShort (elements : UInt8)
  | seriesTooLong (elements : UInt8)
  | labelPastRange (base : UInt16) (position : UInt8)
  | positionPastSeries (position elements : UInt8)
  | counterNotOneWay (kind : RowKind) (metric : UInt16)
  | missingConditional (kind : RowKind) (key : UInt8) (condition : When)
  | unexpectedConditional (kind : RowKind) (key : UInt8) (condition : When)
  | wrongKind (page row : RowKind)
  | rowTooLong (len : ℕ)
  | missingResponse (key : InventoryKey)
  | answeredNothing (outcome : InventoryOutcome)
  | digestMidWalk
  | digestWidth (len : ℕ)
  | unknownOutcome (number : UInt8)
  | rowsOutOfOrder (after got : RowKind)
  | duplicateResponse (key : InventoryKey)
  | addrMissing (dev : UInt16) (bus : UInt8)
  | addrTwice (bus : UInt8) (dev other : UInt16)
  | addrTooLong (len : ℕ)
  | tooManyDevices (capacity : ℕ)
  | cbor (why : CborError)
  deriving DecidableEq

structure CmdList where
  items : List UInt16
  nonempty : items ≠ []
  fits : items.length ≤ maxComponentCmds

def CmdList.new (items : List UInt16) : Except InventoryError CmdList :=
  if h : items = [] then .error .emptyCmds
  else if hlen : items.length ≤ maxComponentCmds then .ok ⟨items, h, hlen⟩
  else .error (.tooManyCmds items.length)

inductive Value
  | u8 (v : UInt8)
  | u16 (v : UInt16)
  | u32 (v : UInt32)
  | i8 (v : Int8)
  | i32 (v : Int32)
  | text (v : Str)
  | bytes (v : Bytes)
  | u16List (v : CmdList)
  | absent

namespace Value

def isAbsent : Value → Bool
  | absent => true
  | u8 _ | u16 _ | u32 _ | i8 _ | i32 _ | text _ | bytes _ | u16List _ => false

def fits : Value → FieldType → Bool
  | u8 _, .u8 | u16 _, .u16 | u32 _, .u32 | i8 _, .i8 | i32 _, .i32 | text _, .text | bytes _, .bytes
  | u16List _, .u16List => true
  | _, _ => false

end Value

end Km43.Inventory
