import Km43.Cbor.Typed
import Km43.Devices.Entries

namespace Km43.Devices

open Cbor CborReader

instance : FromCbor ConfigError := ⟨.cbor⟩

theorem outOfSchema_answer (key : SectionKey) : (ConfigError.outOfSchema key).answer = .invalid := rfl
theorem tooMany_answer (key : SectionKey) : (ConfigError.tooMany key).answer = .invalid := rfl
theorem unknownOption_answer (number : ℤ) : (ConfigError.unknownOption number).answer = .invalid :=
  rfl

structure Invalid where
  first : Option ConfigError
  outcome : ∀ why ∈ first, why.answer = .invalid

namespace Invalid

variable {α : Type}

def none : Invalid := ⟨.none, by simp⟩

def note (i : Invalid) (why : ConfigError) (h : why.answer = .invalid) : Invalid :=
  if i.first.isNone then ⟨some why, by simpa using h⟩ else i

def unlessSome (i : Invalid) (value : Option α) (key : BusesAndDevicesKey) : Option α × Invalid :=
  match value with
  | some v => (some v, i)
  | .none => (.none, i.note (.outOfSchema key.key) (outOfSchema_answer key.key))

def unlessOk (i : Invalid) (value : Except ConfigError α)
    (h : ∀ why, value = .error why → why.answer = .invalid) : Option α × Invalid :=
  match value, h with
  | .ok v, _ => (some v, i)
  | .error why, h => (.none, i.note why (h why rfl))

def result (i : Invalid) : Except ConfigError Unit :=
  match i.first with
  | some why => .error why
  | .none => .ok ()

end Invalid

def once {α : Type} (slot : Option α) (key : BusesAndDevicesKey) (value : α) :
    Except ConfigError (Option α) :=
  if slot.isSome then .error (.duplicate key.key) else .ok (some value)

def required {α : Type} (slot : Option α) (key : BusesAndDevicesKey) : Except ConfigError α :=
  match slot with
  | some value => .ok value
  | none => .error (.missing key.key)

def field {α σ : Type} (read : Read ConfigError α) (slot : Option α) (key : BusesAndDevicesKey)
    (fill : Option α → σ) : Read ConfigError σ := do
  let value ← read
  let slot ← once slot key value
  pure (fill slot)

def allocated {α : Type} (tryFrom : UInt8 → Option α) (key : BusesAndDevicesKey) (raw : UInt8) :
    Except ConfigError α :=
  match tryFrom raw with
  | some value => .ok value
  | none => .error (.unknownValue key.key)

def enumerated {α : Type} (tryFrom : UInt8 → Option α) (key : BusesAndDevicesKey) :
    Read ConfigError α := do
  let raw ← ask u8
  let value ← allocated tryFrom key raw
  pure value

structure BusSlots where
  bus : Option UInt8
  rate : Option UInt32
  dataBits : Option UInt8
  parity : Option Parity
  stopBits : Option UInt8

namespace BusSlots

def empty : BusSlots := ⟨none, none, none, none, none⟩

def step : ℤ → BusSlots → Read ConfigError BusSlots
  | 1, s => field (ask u8) s.bus .bus fun slot => { s with bus := slot }
  | 2, s => field (ask u32) s.rate .rate fun slot => { s with rate := slot }
  | 3, s => field (ask u8) s.dataBits .dataBits fun slot => { s with dataBits := slot }
  | 4, s => field (enumerated Parity.tryFrom .parity) s.parity .parity fun slot =>
      { s with parity := slot }
  | 5, s => field (ask u8) s.stopBits .stopBits fun slot => { s with stopBits := slot }
  | _, s => do
    ask skip
    pure s

def read : Read ConfigError BusSlots := do
  let pairs ← ask map
  pairLoop step pairs empty

def entry (s : BusSlots) (invalid : Invalid) : Except ConfigError (BusEntry × Invalid) := do
  let bus ← required s.bus .bus
  if s.rate.isNone ∧ s.dataBits.isNone ∧ s.parity.isNone ∧ s.stopBits.isNone then
    .error (.nothingSet BusesAndDevicesKey.bus.key)
  else
    let (rate, invalid) := match s.rate with
      | some raw => invalid.unlessSome (Rate.new raw) .rate
      | none => (none, invalid)
    let (dataBits, invalid) := match s.dataBits with
      | some bits => invalid.unlessSome (DataBits.fromWire bits) .dataBits
      | none => (none, invalid)
    let (stopBits, invalid) := match s.stopBits with
      | some bits => invalid.unlessSome (StopBits.fromWire bits) .stopBits
      | none => (none, invalid)
    .ok (⟨bus, rate, dataBits, s.parity, stopBits⟩, invalid)

end BusSlots

def BusEntry.decode (invalid : Invalid) : Read ConfigError (BusEntry × Invalid) := do
  let slots ← BusSlots.read
  let entry ← slots.entry invalid
  pure entry

structure OptionSlots where
  direction : Option Direction
  pylontechVersion : Option PylontechVersion
  veDirect3v3 : Option Bool
  pollPeriodMs : Option UInt32
  invalid : Invalid

namespace OptionSlots

def step (number : ℤ) (s : OptionSlots) : Read ConfigError OptionSlots :=
  match DeviceOption.tryFrom number with
  -- Not passed over like another unknown key: a setting the client sent is never dropped.
  | none => do
    ask skip
    pure { s with invalid := s.invalid.note (.unknownOption number) (unknownOption_answer number) }
  | some .currentDirection =>
    field (enumerated Direction.tryFrom (.option .currentDirection)) s.direction
      (.option .currentDirection) fun slot => { s with direction := slot }
  | some .pylontechVersion =>
    field (enumerated PylontechVersion.tryFrom (.option .pylontechVersion)) s.pylontechVersion
      (.option .pylontechVersion) fun slot => { s with pylontechVersion := slot }
  | some .veDirect3v3 => field (ask bool) s.veDirect3v3 (.option .veDirect3v3) fun slot =>
      { s with veDirect3v3 := slot }
  | some .pollPeriod => field (ask u32) s.pollPeriodMs (.option .pollPeriod) fun slot =>
      { s with pollPeriodMs := slot }

def start (invalid : Invalid) (pairs : ℕ) : Except ConfigError OptionSlots :=
  if pairs = 0 then .error (.nothingSet BusesAndDevicesKey.options.key)
  else .ok ⟨none, none, none, none, invalid⟩

def read (invalid : Invalid) : Read ConfigError OptionSlots := do
  let pairs ← ask map
  let slots ← start invalid pairs
  pairLoop step pairs slots

def options (s : OptionSlots) : DeviceOptions × Invalid :=
  let (direction, invalid) := match s.direction with
    | none => (none, s.invalid)
    | some .positiveIsIn => (some .positiveIsIn, s.invalid)
    | some .positiveIsOut => (some .positiveIsOut, s.invalid)
    | some .magnitudeOnly => (none, s.invalid.note
        (.outOfSchema (BusesAndDevicesKey.option .currentDirection).key)
        (outOfSchema_answer (BusesAndDevicesKey.option .currentDirection).key))
  (⟨direction, s.pylontechVersion, s.veDirect3v3, s.pollPeriodMs⟩, invalid)

end OptionSlots

def DeviceOptions.decode (invalid : Invalid) : Read ConfigError (DeviceOptions × Invalid) := do
  let slots ← OptionSlots.read invalid
  pure slots.options

structure DeviceSlots where
  dev : Option UInt16
  bus : Option UInt8
  addr : Option Bytes
  product : Option UInt16
  dialect : Option UInt16
  role : Option UInt16
  parent : Option UInt16
  options : Option DeviceOptions
  invalid : Invalid

theorem DevId.new_answer {raw : UInt16} {why : ConfigError} (h : DevId.new raw = .error why) :
    why.answer = .invalid := by
  unfold DevId.new at h
  split_ifs at h
  cases h
  rfl

theorem Addr.new_answer {raw : Bytes} {why : ConfigError} (h : Addr.new raw = .error why) :
    why.answer = .invalid := by
  unfold Addr.new at h
  split_ifs at h
  cases h
  rfl

def newParent (raw : UInt16) : Except ConfigError DevId :=
  (DevId.new raw).mapError fun _ => .outOfSchema BusesAndDevicesKey.parent.key

theorem newParent_answer {raw : UInt16} {why : ConfigError} (h : newParent raw = .error why) :
    why.answer = .invalid := by
  unfold newParent at h
  cases hd : DevId.new raw <;> rw [hd] at h <;> cases h
  rfl

namespace DeviceSlots

variable {δ : Type}

def empty (invalid : Invalid) : DeviceSlots :=
  ⟨none, none, none, none, none, none, none, none, invalid⟩

def step : ℤ → DeviceSlots → Read ConfigError DeviceSlots
  | 1, s => field (ask u16) s.dev .dev fun slot => { s with dev := slot }
  | 2, s => field (ask u8) s.bus .deviceBus fun slot => { s with bus := slot }
  | 3, s => field (ask bytesValue) s.addr .addr fun slot => { s with addr := slot }
  | 4, s => field (ask u16) s.product .product fun slot => { s with product := slot }
  | 5, s => field (ask u16) s.dialect .dialect fun slot => { s with dialect := slot }
  | 6, s => field (ask u16) s.role .role fun slot => { s with role := slot }
  | 7, s => field (ask u16) s.parent .parent fun slot => { s with parent := slot }
  | 8, s => do
    let read ← DeviceOptions.decode s.invalid
    let slot ← once s.options .options read.1
    pure { s with options := slot, invalid := read.2 }
  | _, s => do
    ask skip
    pure s

def read (invalid : Invalid) : Read ConfigError DeviceSlots := do
  let pairs ← ask map
  pairLoop step pairs (empty invalid)

def devSlot [DevSlot δ] (dev : Option UInt16) (invalid : Invalid) :
    Except ConfigError (δ × Invalid) :=
  match dev with
  | none => do
    let slot ← DevSlot.fromDecoded none
    .ok (slot, invalid)
  | some raw => do
    let (dev, invalid) := invalid.unlessOk (DevId.new raw) fun _ => DevId.new_answer
    let slot ← DevSlot.fromDecoded (some (dev.getD DevId.placeholder))
    .ok (slot, invalid)

def entry [DevSlot δ] (s : DeviceSlots) : Except ConfigError (DeviceEntry δ × Invalid) := do
  let product ← required s.product .product
  let dialect ← required s.dialect .dialect
  let role ← required s.role .role
  let bus ← required s.bus .deviceBus
  let (dev, invalid) ← devSlot s.dev s.invalid
  let (addr, invalid) := match s.addr with
    | some bytes => invalid.unlessOk (Addr.new bytes) fun _ => Addr.new_answer
    | none => (none, invalid)
  let (parent, invalid) := match s.parent with
    | some raw => invalid.unlessOk (newParent raw) fun _ => newParent_answer
    | none => (none, invalid)
  .ok (⟨dev, bus, addr, product, dialect, role, parent, s.options.getD DeviceOptions.none⟩, invalid)

end DeviceSlots

def DeviceEntry.decode {δ : Type} [DevSlot δ] (invalid : Invalid) :
    Read ConfigError (DeviceEntry δ × Invalid) := do
  let slots ← DeviceSlots.read invalid
  let entry ← slots.entry
  pure entry

structure BodySlots (δ : Type) where
  buses : Option Unit
  devices : Option Unit
  body : BusesAndDevices δ
  invalid : Invalid

namespace BodySlots

variable {δ : Type}

def empty : BodySlots δ := ⟨none, none, .empty, .none⟩

def pushBus (s : BodySlots δ) (entry : BusEntry × Invalid) : BodySlots δ :=
  match s.body.pushBus entry.1 with
  | .ok body => { s with body := body, invalid := entry.2 }
  | .error _ => { s with
      invalid := entry.2.note (.tooMany BusesAndDevicesKey.buses.key) (tooMany_answer _) }

def pushDevice (s : BodySlots δ) (entry : DeviceEntry δ × Invalid) : BodySlots δ :=
  match s.body.pushDevice entry.1 with
  | .ok body => { s with body := body, invalid := entry.2 }
  | .error _ => { s with
      invalid := entry.2.note (.tooMany BusesAndDevicesKey.devices.key) (tooMany_answer _) }

def busItem (s : BodySlots δ) : Read ConfigError (BodySlots δ) := do
  let entry ← BusEntry.decode s.invalid
  pure (s.pushBus entry)

variable [DevSlot δ]

def deviceItem (s : BodySlots δ) : Read ConfigError (BodySlots δ) := do
  let entry ← DeviceEntry.decode s.invalid
  pure (s.pushDevice entry)

def step : ℤ → BodySlots δ → Read ConfigError (BodySlots δ)
  | 1, s => do
    let buses ← once s.buses .buses ()
    let count ← ask array
    itemLoop busItem count { s with buses := buses }
  | 2, s => do
    let devices ← once s.devices .devices ()
    let count ← ask array
    itemLoop deviceItem count { s with devices := devices }
  | _, s => do
    ask skip
    pure s

def read : Read ConfigError (BodySlots δ) := do
  let pairs ← ask map
  pairLoop step pairs empty

end BodySlots

namespace BusesAndDevices

variable {δ : Type} [DevSlot δ]

def rises {α : Type} (rank : α → ℕ) (xs : List α) : Bool :=
  !(xs.zip xs.tail).any fun p => decide (rank p.2 ≤ rank p.1)

def devRank (d : DeviceEntry δ) : ℕ := (DevSlot.dev d.dev).elim 0 DevId.toNat

def ascending (s : BusesAndDevices δ) : Except ConfigError Unit :=
  if ¬DevSlot.answer δ then .ok ()
  else if ¬rises (·.bus.toNat) s.buses then .error (.outOfOrder BusesAndDevicesKey.bus.key)
  else if ¬rises devRank s.devices then .error (.outOfOrder BusesAndDevicesKey.dev.key)
  else .ok ()

end BusesAndDevices

def BodySlots.result {δ : Type} [DevSlot δ] (s : BodySlots δ) :
    Except ConfigError (BusesAndDevices δ) := do
  let _ ← required s.buses .buses
  let _ ← required s.devices .devices
  s.invalid.result
  s.body.ascending
  .ok s.body

def BusesAndDevices.decode {δ : Type} [DevSlot δ] (body : Bytes) :
    Except ConfigError (BusesAndDevices δ) := do
  let (slots, cbor) ← BodySlots.read (CborReader.new body)
  cbor.finish.mapError FromCbor.cbor
  slots.result

end Km43.Devices
