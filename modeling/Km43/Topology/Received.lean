import Mathlib.Logic.Function.Basic
import Km43.Inventory.Header
import Km43.Library.SlotTable

namespace Km43.Topology

open Library Cbor CborReader Inventory

def heldDevices : ℕ := 24 + 1

def busRowBusKey : UInt8 := 1
def busRowTransportKey : UInt8 := 2
def deviceRowDevKey : UInt8 := 1
def deviceRowBusKey : UInt8 := 2
def deviceRowAddrKey : UInt8 := 3

structure HeldAddr where
  raw : Bytes
  fits : raw.length ≤ maxAddr

theorem HeldAddr.ext {a b : HeldAddr} (h : a.raw = b.raw) : a = b := by
  cases a
  cases b
  cases h
  rfl

instance : DecidableEq HeldAddr := fun a b => decidable_of_iff (a.raw = b.raw) ⟨HeldAddr.ext, congrArg _⟩

def HeldAddr.new (addr : Bytes) : Except InventoryError HeldAddr :=
  if h : addr.length ≤ maxAddr then .ok ⟨addr, h⟩ else .error (.addrTooLong addr.length)

structure HeldDevice where
  dev : UInt16
  bus : UInt8
  addr : Option HeldAddr

structure ReceivedTopology (capacity : ℕ) where
  rev : Option UInt32
  buses : UInt8 → Option Devices.Transport
  devices : List (Option HeldDevice)
  room : devices.length = capacity

def u8At (row : Row) (key : UInt8) : Except InventoryError UInt8 :=
  match row.get key with
  | some (.u8 value) => .ok value
  | _ => .error (.wrongType row.kind key)

def transportOf (number : UInt8) : Except InventoryError Devices.Transport :=
  match Transport.tryFrom number with
  | some transport => .ok transport
  | none => .error (.notAMember .bus busRowTransportKey .transport number)

def busOf (row : Row) : Except InventoryError (UInt8 × Devices.Transport) := do
  let bus ← u8At row busRowBusKey
  let number ← u8At row busRowTransportKey
  let transport ← transportOf number
  .ok (bus, transport)

def addrOf (row : Row) : Except InventoryError (Option HeldAddr) :=
  match row.get deviceRowAddrKey with
  | none => .ok none
  | some (.bytes addr) => some <$> HeldAddr.new addr
  | some _ => .error (.wrongType .device deviceRowAddrKey)

def deviceOf (row : Row) : Except InventoryError HeldDevice :=
  match row.get deviceRowDevKey with
  | some (.u16 dev) => do
    let bus ← u8At row deviceRowBusKey
    let addr ← addrOf row
    .ok ⟨dev, bus, addr⟩
  | _ => .error (.wrongType .device deviceRowDevKey)

namespace ReceivedTopology

variable {capacity : ℕ}

def new (capacity : ℕ) : ReceivedTopology capacity :=
  ⟨none, fun _ => none, List.replicate capacity none, List.length_replicate⟩

def restart (capacity : ℕ) (rev : UInt32) : ReceivedTopology capacity := { new capacity with rev := some rev }

def held (t : ReceivedTopology capacity) : List HeldDevice := SlotTable.held t.devices

def holdBus (t : ReceivedTopology capacity) (bus : UInt8) (transport : Devices.Transport) :
    ReceivedTopology capacity :=
  { t with buses := Function.update t.buses bus (some transport) }

def holdDevice (t : ReceivedTopology capacity) (device : HeldDevice) :
    Except InventoryError (ReceivedTopology capacity) :=
  match h : SlotTable.store HeldDevice.dev device t.devices with
  | some devices => .ok { t with devices := devices, room := (SlotTable.store_length h).trans t.room }
  | none => .error (.tooManyDevices capacity)

def hold (t : ReceivedTopology capacity) (row : Row) : Except InventoryError (ReceivedTopology capacity) :=
  match row.kind with
  | .bus => do
    let (bus, transport) ← busOf row
    .ok (t.holdBus bus transport)
  | .device => do
    let device ← deviceOf row
    t.holdDevice device
  | .component | .signal | .param => .ok t

/-- Each device against the buses and against the devices in the slots after its own. -/
def p202From (buses : UInt8 → Option Devices.Transport) : List (Option HeldDevice) → Except InventoryError Unit
  | [] => .ok ()
  | none :: later => p202From buses later
  | some device :: later =>
    match device.addr with
    | none =>
      if (buses device.bus).any Devices.Transport.addressed then .error (.addrMissing device.dev device.bus)
      else p202From buses later
    | some addr =>
      match (SlotTable.held later).find? fun other => other.bus = device.bus ∧ other.addr = some addr with
      | some other => .error (.addrTwice device.bus device.dev other.dev)
      | none => p202From buses later

def p202Holds (t : ReceivedTopology capacity) : Except InventoryError Unit := p202From t.buses t.devices

def holdRow (t : ReceivedTopology capacity) (row : Row) : Except InventoryError (ReceivedTopology capacity) := do
  let next ← t.hold row
  next.p202Holds
  .ok next

def readRow (kind : RowKind) : Read InventoryError Row := do
  let bytes ← ask raw
  RowSlots.decode kind bytes

def holdRows (kind : RowKind) (t : ReceivedTopology capacity) :
    Read InventoryError (ReceivedTopology capacity) := do
  let count ← ask array
  itemLoop (fun next => do
    let row ← readRow kind
    next.holdRow row) count t

def holds (header : InventoryHeader) : RowKind → Bool
  | .bus | .device => header.outcome = .ok
  | .component | .signal | .param => false

def onto (t : ReceivedTopology capacity) (rev : UInt32) : ReceivedTopology capacity :=
  if t.rev = some rev then t else restart capacity rev

def taken (t : ReceivedTopology capacity) (payload : Bytes) :
    Except InventoryError (InventoryHeader × ReceivedTopology capacity) := do
  let (header, rows) ← InventoryHeader.decodeWithRows payload
  match RowKind.fromNumber header.what with
  | none => .ok (header, t)
  | some kind =>
    if holds header kind then do
      let (next, reader) ← holdRows kind (t.onto header.rev) (CborReader.new rows)
      reader.finish.mapError FromCbor.cbor
      .ok (header, next)
    else .ok (header, t)

/-- `next` is a copy, and takes the place of what is held only where the whole page was. -/
def page (t : ReceivedTopology capacity) (payload : Bytes) :
    Except InventoryError InventoryHeader × ReceivedTopology capacity :=
  match t.taken payload with
  | .ok (header, next) => (.ok header, next)
  | .error why => (.error why, t)

end ReceivedTopology

end Km43.Topology
