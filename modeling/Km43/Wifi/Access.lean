import Km43.Cbor.Calls
import Km43.Cbor.Whole
import Km43.Limits

namespace Km43.Wifi

open Library Cbor CborReader CborWriter

def maxChannel : ℕ := 233

inductive WifiField
  | refresh
  | scan
  | refused
  | ageMs
  | aps
  | unlisted
  | ssid
  | rssi
  | security
  | band
  | channel
  | section
  | version
  | state
  | reason
  | ipv4
  | outcome
  deriving DecidableEq

inductive WifiError
  | missing (field : WifiField)
  | duplicate (field : WifiField)
  | unallocated (field : WifiField) (raw : UInt8)
  | ssidLength (len : ℕ)
  | rssiOutOfRange (dbm : Int32)
  | channelOutOfRange (channel : UInt8)
  | tooManyAccessPoints (count : ℕ)
  | outOfOrder
  | ssidRepeated
  | listIncomplete
  | refusedWhileRunning
  | scanStateDisagrees
  | zeroScan
  | joiningIsNotRecorded
  | reportIncomplete
  | reasonDisagrees
  | addressDisagrees
  | ipv4Length (len : ℕ)
  | cbor (why : CborError)
  deriving DecidableEq

instance : FromCbor WifiError := ⟨.cbor⟩

inductive WifiSecurity
  | opened
  | wpa2Personal
  | wpa3Personal
  | other
  deriving DecidableEq

namespace WifiSecurity

def byte : WifiSecurity → UInt8
  | opened => 1
  | wpa2Personal => 2
  | wpa3Personal => 3
  | other => 4

def tryFrom (v : UInt8) : Option WifiSecurity :=
  if v = 1 then some opened else if v = 2 then some wpa2Personal else if v = 3 then some wpa3Personal
  else if v = 4 then some other else none

@[simp] theorem tryFrom_byte (s : WifiSecurity) : tryFrom s.byte = some s := by
  cases s <;> rfl

end WifiSecurity

inductive WifiBand
  | ghz24
  | ghz5
  | ghz6
  deriving DecidableEq

namespace WifiBand

def byte : WifiBand → UInt8
  | ghz24 => 1
  | ghz5 => 2
  | ghz6 => 3

def tryFrom (v : UInt8) : Option WifiBand :=
  if v = 1 then some ghz24 else if v = 2 then some ghz5 else if v = 3 then some ghz6 else none

@[simp] theorem tryFrom_byte (b : WifiBand) : tryFrom b.byte = some b := by
  cases b <;> rfl

end WifiBand

def closed {α : Type} (field : WifiField) (tryFrom : UInt8 → Option α) (raw : UInt8) : Except WifiError α :=
  match tryFrom raw with
  | some known => .ok known
  | none => .error (.unallocated field raw)

def readClosed {α : Type} (field : WifiField) (tryFrom : UInt8 → Option α) : Read WifiError α := do
  let raw ← ask u8
  closed field tryFrom raw

structure AccessPoint where
  ssid : Str
  rssi : Int8
  security : WifiSecurity
  band : WifiBand
  channel : UInt8
  deriving DecidableEq

structure AccessPoint.Fits (row : AccessPoint) : Prop where
  named : 1 ≤ row.ssid.raw.length
  short : row.ssid.raw.length ≤ maxSsid
  positive : 1 ≤ row.channel.toNat
  allocated : row.channel.toNat ≤ maxChannel

structure AccessSlots where
  ssid : Option Str
  rssi : Option Int8
  security : Option WifiSecurity
  band : Option WifiBand
  channel : Option UInt8

namespace AccessPoint

def check (row : AccessPoint) : Except WifiError Unit :=
  if row.ssid.raw = [] ∨ maxSsid < row.ssid.raw.length then .error (.ssidLength row.ssid.raw.length)
  else if row.channel = 0 ∨ maxChannel < row.channel.toNat then .error (.channelOutOfRange row.channel)
  else .ok ()

def encodeInto (row : AccessPoint) : Encoder WifiError Unit := do
  row.check
  tell (CborWriter.map 5)
  tell (CborWriter.key 1)
  tell (CborWriter.text row.ssid.raw)
  tell (CborWriter.key 2)
  tell (CborWriter.i32 row.rssi.toInt32)
  tell (CborWriter.key 3)
  tell (CborWriter.u64 row.security.byte.toNat)
  tell (CborWriter.key 4)
  tell (CborWriter.u64 row.band.byte.toNat)
  tell (CborWriter.key 5)
  tell (CborWriter.u64 row.channel.toNat)

end AccessPoint

namespace AccessSlots

def empty : AccessSlots := ⟨none, none, none, none, none⟩

def rssiOf (dbm : Int32) : Except WifiError Int8 :=
  if -128 ≤ dbm.toInt ∧ dbm.toInt ≤ 127 then .ok dbm.toInt8 else .error (.rssiOutOfRange dbm)

def readRssi : Read WifiError Int8 := do
  let dbm ← ask i32
  rssiOf dbm

def step : ℤ → AccessSlots → Read WifiError AccessSlots
  | 1, s => slotField textValue (.duplicate .ssid) s.ssid fun slot => { s with ssid := slot }
  | 2, s => slotField readRssi (.duplicate .rssi) s.rssi fun slot => { s with rssi := slot }
  | 3, s => slotField (readClosed .security WifiSecurity.tryFrom) (.duplicate .security) s.security
      fun slot => { s with security := slot }
  | 4, s => slotField (readClosed .band WifiBand.tryFrom) (.duplicate .band) s.band fun slot => { s with band := slot }
  | 5, s => slotField (ask u8) (.duplicate .channel) s.channel fun slot => { s with channel := slot }
  | _, s => passOver s

def read : Read WifiError AccessSlots := do
  let pairs ← ask map
  pairLoop step pairs empty

def row (s : AccessSlots) : Except WifiError AccessPoint := do
  let ssid ← slotRequired (.missing .ssid) s.ssid
  let rssi ← slotRequired (.missing .rssi) s.rssi
  let security ← slotRequired (.missing .security) s.security
  let band ← slotRequired (.missing .band) s.band
  let channel ← slotRequired (.missing .channel) s.channel
  let row : AccessPoint := ⟨ssid, rssi, security, band, channel⟩
  row.check
  .ok row

end AccessSlots

def AccessPoint.decodeFrom : Read WifiError AccessPoint := do
  let slots ← AccessSlots.read
  slots.row

end Km43.Wifi
