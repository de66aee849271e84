import Km43.Cbor.Reader

namespace Km43.Devices

open Cbor

inductive Parity
  | none
  | even
  | odd
  deriving DecidableEq

def Parity.byte : Parity → UInt8
  | none => 1
  | even => 2
  | odd => 3

def Parity.tryFrom (v : UInt8) : Option Parity :=
  if v = 1 then some none else if v = 2 then some even else if v = 3 then some odd else Option.none

inductive PylontechVersion
  | v12
  | v13
  deriving DecidableEq

def PylontechVersion.byte : PylontechVersion → UInt8
  | v12 => 1
  | v13 => 2

def PylontechVersion.tryFrom (v : UInt8) : Option PylontechVersion :=
  if v = 1 then some v12 else if v = 2 then some v13 else none

inductive Direction
  | positiveIsIn
  | positiveIsOut
  | magnitudeOnly
  deriving DecidableEq

def Direction.byte : Direction → UInt8
  | positiveIsIn => 1
  | positiveIsOut => 2
  | magnitudeOnly => 3

def Direction.tryFrom (v : UInt8) : Option Direction :=
  if v = 1 then some positiveIsIn else if v = 2 then some positiveIsOut
  else if v = 3 then some magnitudeOnly else none

inductive DeviceOption
  | currentDirection
  | pylontechVersion
  | veDirect3v3
  | pollPeriod
  deriving DecidableEq

def DeviceOption.number : DeviceOption → ℕ
  | currentDirection => 1
  | pylontechVersion => 2
  | veDirect3v3 => 3
  | pollPeriod => 4

def DeviceOption.tryFrom (key : ℤ) : Option DeviceOption :=
  if key = 1 then some currentDirection else if key = 2 then some pylontechVersion
  else if key = 3 then some veDirect3v3 else if key = 4 then some pollPeriod else none

inductive Transport
  | rs485
  | can
  | veDirect
  | localIo
  | ip
  | onewire
  | internal
  deriving DecidableEq

def Transport.addressed : Transport → Bool
  | rs485 | can | ip | onewire => true
  | veDirect | localIo | internal => false

def Transport.hasRate : Transport → Bool
  | rs485 | can | veDirect => true
  | localIo | ip | onewire | internal => false

def Transport.isSerialLine : Transport → Bool
  | rs485 | veDirect => true
  | can | localIo | ip | onewire | internal => false

inductive BusesAndDevicesKey
  | buses
  | devices
  | bus
  | rate
  | dataBits
  | parity
  | stopBits
  | dev
  | deviceBus
  | addr
  | product
  | dialect
  | role
  | parent
  | options
  | option (o : DeviceOption)
  deriving DecidableEq

def BusesAndDevicesKey.number : BusesAndDevicesKey → ℕ
  | buses | bus | dev => 1
  | devices | rate | deviceBus => 2
  | dataBits | addr => 3
  | parity | product => 4
  | stopBits | dialect => 5
  | role => 6
  | parent => 7
  | options => 8
  | option o => o.number

def BusesAndDevicesKey.name : BusesAndDevicesKey → String
  | buses => "buses and devices buses"
  | devices => "buses and devices devices"
  | bus => "bus entry bus"
  | rate => "bus entry rate"
  | dataBits => "bus entry data_bits"
  | parity => "bus entry parity"
  | stopBits => "bus entry stop_bits"
  | dev => "device entry dev"
  | deviceBus => "device entry bus"
  | addr => "device entry addr"
  | product => "device entry product"
  | dialect => "device entry dialect"
  | role => "device entry role"
  | parent => "device entry parent"
  | options => "device entry options"
  | option .currentDirection => "device option current_direction"
  | option .pylontechVersion => "device option pylontech_version"
  | option .veDirect3v3 => "device option ve_direct_3v3"
  | option .pollPeriod => "device option poll_period"

inductive SectionKey
  | siteName
  | shadow
  | ssid
  | psk
  | pskSet
  | country
  | hostname
  | busesAndDevices (key : BusesAndDevicesKey)
  deriving DecidableEq

def BusesAndDevicesKey.key (key : BusesAndDevicesKey) : SectionKey := .busesAndDevices key

inductive ConfigError
  | missing (key : SectionKey)
  | duplicate (key : SectionKey)
  | cbor (why : CborError)
  | length (key : SectionKey) (len : ℕ)
  | countryNotCapitals
  | notAHostname
  | passphraseWithoutNetwork
  | configOnly (key : SectionKey)
  | secretInConfig (key : SectionKey)
  | noPassphraseHeld
  | passphraseForAnotherNetwork
  | nothingSet (key : SectionKey)
  | unknownValue (key : SectionKey)
  | outOfOrder (key : SectionKey)
  | outOfSchema (key : SectionKey)
  | tooMany (key : SectionKey)
  | unknownOption (number : ℤ)
  | unknownBus (bus : UInt8)
  | busTwice (bus : UInt8)
  | notOnTransport (bus : UInt8) (key : SectionKey)
  | addrRequired (bus : UInt8)
  | addrNotAddressed (bus : UInt8)
  | addrTwice (bus : UInt8)
  | dialectNotCarried (dialect : UInt16) (bus : UInt8)
  | optionNotInDialect (option : DeviceOption) (dialect : UInt16)
  | pollTooShort (dialect : UInt16) (min : UInt32)
  | unknownDev (dev : UInt16)
  | devTwice (dev : UInt16)
  | deviceChanged (dev : UInt16)
  | devsExhausted
  | parentNotListed (parent : UInt16)
  | parentLoop (dev : UInt16)
  | tooDeep (dev : UInt16)
  | allocatorBehind (next : UInt16)
  deriving DecidableEq

inductive SectionRefusal
  | malformedFrame
  | invalid
  deriving DecidableEq

def ConfigError.answer : ConfigError → SectionRefusal
  | missing _ | duplicate _ | cbor _ | secretInConfig _ | nothingSet _ | unknownValue _
  | outOfOrder _ => .malformedFrame
  | length .. | countryNotCapitals | notAHostname | passphraseWithoutNetwork | configOnly _
  | noPassphraseHeld | passphraseForAnotherNetwork | outOfSchema _ | tooMany _ | unknownOption _
  | unknownBus _ | busTwice _ | notOnTransport .. | addrRequired _ | addrNotAddressed _
  | addrTwice _ | dialectNotCarried .. | optionNotInDialect .. | pollTooShort .. | unknownDev _
  | devTwice _ | deviceChanged _ | devsExhausted | parentNotListed _ | parentLoop _ | tooDeep _
  | allocatorBehind _ => .invalid

@[simp] theorem Parity.tryFrom_byte (p : Parity) : tryFrom p.byte = some p := by cases p <;> rfl

@[simp] theorem PylontechVersion.tryFrom_byte (v : PylontechVersion) :
    tryFrom v.byte = some v := by cases v <;> rfl

@[simp] theorem Direction.tryFrom_byte (d : Direction) : tryFrom d.byte = some d := by
  cases d <;> rfl

@[simp] theorem DeviceOption.tryFrom_number (o : DeviceOption) : tryFrom o.number = some o := by
  cases o <;> rfl

structure DevId where
  raw : UInt16
  nonzero : raw ≠ 0
  deriving DecidableEq

namespace DevId

def new (dev : UInt16) : Except ConfigError DevId :=
  if h : dev = 0 then .error (.outOfSchema BusesAndDevicesKey.dev.key) else .ok ⟨dev, h⟩

def placeholder : DevId := ⟨0xFFFF, by decide⟩

def get (dev : DevId) : UInt16 := dev.raw

def toNat (dev : DevId) : ℕ := dev.raw.toNat

theorem toNat_inj {a b : DevId} : a.toNat = b.toNat ↔ a = b := by
  rw [toNat, toNat, UInt16.toNat_inj, DevId.mk.injEq]

theorem toNat_lt (dev : DevId) : dev.toNat < 2 ^ 16 := dev.raw.toNat_lt

end DevId

structure DevAllocator where
  next : Option DevId
  deriving DecidableEq

namespace DevAllocator

def first : DevAllocator := ⟨some ⟨1, by decide⟩⟩

def allocate (a : DevAllocator) : Except ConfigError (DevId × DevAllocator) :=
  match a.next with
  | none => .error .devsExhausted
  | some given =>
    .ok (given, ⟨if h : given.raw + 1 = 0 then none else some ⟨given.raw + 1, h⟩⟩)

end DevAllocator

inductive DataBits
  | seven
  | eight
  deriving DecidableEq

def DataBits.fromWire (bits : UInt8) : Option DataBits :=
  if bits = 7 then some seven else if bits = 8 then some eight else none

def DataBits.wire : DataBits → UInt8
  | seven => 7
  | eight => 8

inductive StopBits
  | one
  | two
  deriving DecidableEq

def StopBits.fromWire (bits : UInt8) : Option StopBits :=
  if bits = 1 then some one else if bits = 2 then some two else none

def StopBits.wire : StopBits → UInt8
  | one => 1
  | two => 2

@[simp] theorem DataBits.fromWire_wire (b : DataBits) : fromWire b.wire = some b := by
  cases b <;> rfl

@[simp] theorem StopBits.fromWire_wire (b : StopBits) : fromWire b.wire = some b := by
  cases b <;> rfl

structure Rate where
  raw : UInt32
  nonzero : raw ≠ 0
  deriving DecidableEq

def Rate.new (raw : UInt32) : Option Rate := if h : raw = 0 then none else some ⟨raw, h⟩

structure BusEntry where
  bus : UInt8
  rate : Option Rate
  dataBits : Option DataBits
  parity : Option Parity
  stopBits : Option StopBits
  deriving DecidableEq

structure Addr where
  bytes : Bytes
  bounded : bytes ≠ [] ∧ bytes.length ≤ maxAddr
  deriving DecidableEq

def Addr.new (bytes : Bytes) : Except ConfigError Addr :=
  if h : bytes = [] ∨ bytes.length > maxAddr then
    .error (.length BusesAndDevicesKey.addr.key bytes.length)
  else .ok ⟨bytes, by simpa using h⟩

inductive CurrentDirection
  | positiveIsIn
  | positiveIsOut
  deriving DecidableEq

def CurrentDirection.direction : CurrentDirection → Direction
  | positiveIsIn => .positiveIsIn
  | positiveIsOut => .positiveIsOut

structure DeviceOptions where
  currentDirection : Option CurrentDirection
  pylontechVersion : Option PylontechVersion
  veDirect3v3 : Option Bool
  pollPeriodMs : Option UInt32
  deriving DecidableEq

def DeviceOptions.none : DeviceOptions := ⟨.none, .none, .none, .none⟩

def DeviceOptions.set (o : DeviceOptions) : List DeviceOption :=
  (o.currentDirection.map fun _ => DeviceOption.currentDirection).toList ++
    (o.pylontechVersion.map fun _ => DeviceOption.pylontechVersion).toList ++
    (o.veDirect3v3.map fun _ => DeviceOption.veDirect3v3).toList ++
    (o.pollPeriodMs.map fun _ => DeviceOption.pollPeriod).toList

/-- Which id a device entry carries: optional in a write, required in an answer. -/
class DevSlot (δ : Type) where
  answer : Bool
  dev : δ → Option DevId
  fromDecoded : Option DevId → Except ConfigError δ
  fromDecoded_dev (s : δ) : fromDecoded (dev s) = .ok s
  fromDecoded_answer (d : Option DevId) (why : ConfigError) :
    fromDecoded d = .error why → why.answer = .malformedFrame

instance : DevSlot (Option DevId) where
  answer := false
  dev := id
  fromDecoded := .ok
  fromDecoded_dev _ := rfl
  fromDecoded_answer _ _ h := nomatch h

instance : DevSlot DevId where
  answer := true
  dev := some
  fromDecoded
    | some dev => .ok dev
    | none => .error (.missing BusesAndDevicesKey.dev.key)
  fromDecoded_dev _ := rfl
  fromDecoded_answer d why h := by
    cases d <;> cases h
    rfl

structure DeviceEntry (δ : Type) where
  dev : δ
  bus : UInt8
  addr : Option Addr
  product : UInt16
  dialect : UInt16
  role : UInt16
  parent : Option DevId
  options : DeviceOptions
  deriving DecidableEq

def DeviceEntry.withDev {δ ε : Type} (d : DeviceEntry δ) (dev : ε) : DeviceEntry ε :=
  ⟨dev, d.bus, d.addr, d.product, d.dialect, d.role, d.parent, d.options⟩

section

variable {δ ε : Type} (d : DeviceEntry δ) (dev : ε)

@[simp] theorem DeviceEntry.withDev_dev : (d.withDev dev).dev = dev := rfl
@[simp] theorem DeviceEntry.withDev_bus : (d.withDev dev).bus = d.bus := rfl
@[simp] theorem DeviceEntry.withDev_addr : (d.withDev dev).addr = d.addr := rfl
@[simp] theorem DeviceEntry.withDev_product : (d.withDev dev).product = d.product := rfl
@[simp] theorem DeviceEntry.withDev_dialect : (d.withDev dev).dialect = d.dialect := rfl
@[simp] theorem DeviceEntry.withDev_role : (d.withDev dev).role = d.role := rfl
@[simp] theorem DeviceEntry.withDev_parent : (d.withDev dev).parent = d.parent := rfl
@[simp] theorem DeviceEntry.withDev_options : (d.withDev dev).options = d.options := rfl

end

structure BusesAndDevices (δ : Type) where
  buses : List BusEntry
  devices : List (DeviceEntry δ)
  buses_le : buses.length ≤ maxConfigBuses
  devices_le : devices.length ≤ maxConfigDevices
  deriving DecidableEq

abbrev BusesAndDevicesWrite := BusesAndDevices (Option DevId)
abbrev BusesAndDevicesRead := BusesAndDevices DevId

namespace BusesAndDevices

variable {δ : Type}

def empty : BusesAndDevices δ := ⟨[], [], by simp, by simp⟩

def pushBus (s : BusesAndDevices δ) (entry : BusEntry) : Except ConfigError (BusesAndDevices δ) :=
  if h : s.buses.length < maxConfigBuses then
    .ok { s with buses := s.buses ++ [entry], buses_le := by simpa using h }
  else .error (.tooMany BusesAndDevicesKey.buses.key)

def pushDevice (s : BusesAndDevices δ) (entry : DeviceEntry δ) :
    Except ConfigError (BusesAndDevices δ) :=
  if h : s.devices.length < maxConfigDevices then
    .ok { s with devices := s.devices ++ [entry], devices_le := by simpa using h }
  else .error (.tooMany BusesAndDevicesKey.devices.key)

end BusesAndDevices

end Km43.Devices
