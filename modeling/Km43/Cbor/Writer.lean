import Km43.Cbor.Walk

namespace Km43.Cbor

structure CborWriter where
  capacity : ℕ
  out : Bytes
  nest : Nest
  deriving DecidableEq

namespace CborWriter

def new (capacity : ℕ) : CborWriter := ⟨capacity, [], .new⟩

abbrev Write (α : Type) := StateT CborWriter (Except CborError) α

def emit (data : Bytes) : Write Unit := fun w =>
  if w.out.length + data.length > w.capacity then .error .destinationTooSmall
  else .ok ((), { w with out := w.out ++ data })

def head (major : Major) (argument payload : ℕ) : Write Unit := fun w =>
  let bytes := headBytes major (Width.of argument) argument
  if w.out.length + (bytes.length + payload) > w.capacity then .error .destinationTooSmall
  else emit bytes w

def openItem : Write Unit := fun w =>
  let w := { w with nest := w.nest.settle }
  if w.nest.atKey then .error .misplacedKey
  else if w.nest.depth = 0 ∧ w.out.length ≠ 0 then .error .trailingItem
  else .ok ((), w)

def countItem : Write Unit := fun w => .ok ((), { w with nest := w.nest.countItem })

def push (kind : Nesting) (items : ℕ) : Write Unit := fun w => do
  let nest ← w.nest.push kind items 0
  .ok ((), { w with nest := nest })

def room : Write Unit := fun w => if w.nest.hasRoom then .ok ((), w) else .error .depthExceeded

def array (len : ℕ) : Write Unit := do
  openItem
  room
  head .array len 0
  countItem
  push .array len

-- `checked_mul` refuses only a count that no destination holds: `finish` refuses it here
def map (pairs : ℕ) : Write Unit := do
  openItem
  room
  head .map pairs 0
  countItem
  push .map (pairs * 2)

def takeKey (key : ℕ) : Write Unit := fun w =>
  let w := { w with nest := w.nest.settle }
  if w.nest.atKey then do
    let nest ← w.nest.takeKey key
    .ok ((), { w with nest := nest })
  else .error .misplacedKey

def key (key : ℤ) : Write Unit :=
  if key < 0 then throw .integerOutOfRange
  else do
    takeKey key.toNat
    head .unsigned key.toNat 0
    countItem

def u64 (value : ℕ) : Write Unit := do
  openItem
  head .unsigned value 0
  countItem

def i32 (value : Int32) : Write Unit := do
  openItem
  if value.toInt < 0 then head .negative (value.toInt.natAbs - 1) 0
  else head .unsigned value.toInt.natAbs 0
  countItem

def bool (value : Bool) : Write Unit := do
  openItem
  head .simple (if value then 21 else 20) 0
  countItem

def bytes (value : Bytes) : Write Unit := do
  openItem
  head .bytes value.length value.length
  emit value
  countItem

def bytesToFill (len : ℕ) : Write ℕ := do
  openItem
  head .bytes len len
  let start := (← get).out.length
  emit (List.replicate len 0)
  countItem
  pure start

def text (value : Bytes) : Write Unit := do
  openItem
  if value.length > maxString then throw .stringTooLong
  else
    head .text value.length value.length
    emit value
    countItem

def raw (item : Bytes) : Write Unit := do
  openItem
  let (_, walk) ← (CborReader.new item).skip
  let _ ← walk.finish
  if (← get).nest.depth + walk.nest.deepest > maxDepth then throw .depthExceeded
  else
    emit item
    countItem

def finish : Write ℕ := fun w =>
  let w := { w with nest := w.nest.settle }
  if w.nest.depth ≠ 0 then .error .unfinished else .ok (w.out.length, w)

end CborWriter

end Km43.Cbor
