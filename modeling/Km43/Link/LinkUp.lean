import Km43.Cbor.Whole
import Km43.Identity.Crypto
import Km43.Library.BigEndian
import Km43.Link.Envelope
import Km43.Wifi.Access

namespace Km43.Link

open Library Cbor CborReader Sealed Identity

abbrev NetOrigin := Vector UInt8 8

inductive LinkField
  | protocolMajor
  | protocolMinor
  | role
  | fw
  | bootId
  | hw
  | netVersion
  | deviceId
  | netOrigin
  | conn
  | uptime
  | conns
  | transport
  | peer
  | reason
  | outcome
  | closed
  | op
  | ssid
  | psk
  | country
  | hostname
  | origin
  | unixMs
  | source
  | accuracyMs
  | server
  | releaseVersion
  | imageLen
  | digest
  | bytesHave
  | pairingRevision
  | remainingMs
  deriving DecidableEq

inductive LinkError
  | missing (key : LinkField)
  | duplicate (key : LinkField)
  | unknownRole (role : UInt8)
  | tooLong (key : LinkField) (len : ℕ)
  | notAVersion (key : LinkField)
  | netVersionFromController
  | deviceIdFromComms
  | netOriginFromController
  | netOriginWithoutVersion
  | originNotEight (len : ℕ)
  | noSuchConnection
  | unknownTransport (raw : UInt8)
  | unknownReason (raw : UInt8)
  | unknownOutcome (raw : UInt8)
  | unknownOp (raw : UInt8)
  | unknownSource (raw : UInt8)
  | passphraseLength (len : ℕ)
  | countryNotTwoBytes (len : ℕ)
  | clearCarriedCredentials
  | zeroNetworkVersion
  | unwrittenClearCarriedMetadata
  | unwrittenClearCarriedOrigin
  | digestNotSha256 (len : ℕ)
  | deviceIdNotSixteen (len : ℕ)
  | wifi (why : Wifi.WifiError)
  | zeroPairingRevision
  | pairingWindowTooLong (remainingMs : UInt32)
  | cbor (why : CborError)
  deriving DecidableEq

instance : FromCbor LinkError := ⟨.cbor⟩

def LinkError.ofWifi : Wifi.WifiError → LinkError
  | .cbor why => .cbor why
  | why => .wifi why

namespace Side

def number : Side → UInt8
  | controller => 1
  | comms => 2

def of (number : UInt8) : Except LinkError Side :=
  if number = 1 then .ok .controller else if number = 2 then .ok .comms else .error (.unknownRole number)

theorem of_number (side : Side) : of side.number = .ok side := by
  cases side <;> rfl

end Side

def bounded (key : LinkField) (text : Bytes) : Except LinkError Unit :=
  if text.length > maxLinkText then .error (.tooLong key text.length) else .ok ()

namespace Firmware

def digit (b : UInt8) : Bool := decide (0x30 ≤ b ∧ b ≤ 0x39)
def alphanumeric (b : UInt8) : Bool := digit b || decide (0x41 ≤ b ∧ b ≤ 0x5A) || decide (0x61 ≤ b ∧ b ≤ 0x7A)

def number (part : Bytes) : Bool := part.length == 1 || part.head? != some 0x30

def component (part : Bytes) : Bool :=
  decide (1 ≤ part.length ∧ part.length ≤ 3) && part.all digit && number part

def identifier (id : Bytes) : Bool :=
  !id.isEmpty && (id.all fun b => alphanumeric b || b == 0x2D) && (!id.all digit || number id)

def preRelease (pre : Bytes) : Bool :=
  decide (1 ≤ pre.length ∧ pre.length ≤ 8) && (pre.splitOn 0x2E).all identifier

def commitSplit : Bytes → Option (Bytes × Bytes)
  | 0x2B :: 0x67 :: rest => some ([], rest)
  | b :: rest => (commitSplit rest).map fun p => (b :: p.1, p.2)
  | [] => none

def hyphenSplit (release : Bytes) : Bytes × Option Bytes :=
  match release.dropWhile (· != 0x2D) with
  | [] => (release, none)
  | _ :: pre => (release.takeWhile (· != 0x2D), some pre)

def commit (text : Bytes) : Bool :=
  text.length == 8 && text.all fun b => digit b || decide (0x61 ≤ b ∧ b ≤ 0x66)

def conforms (text : Bytes) : Bool :=
  match commitSplit text with
  | none => false
  | some (release, id) =>
    let (core, pre) := hyphenSplit release
    let parts := core.splitOn 0x2E
    parts.length == 3 && parts.all component && pre.all preRelease && commit id

end Firmware

def versioned (key : LinkField) (text : Bytes) : Except LinkError Unit :=
  if Firmware.conforms text then .ok () else .error (.notAVersion key)

structure LinkUp where
  version : Version
  role : Side
  fw : Str
  bootId : UInt32
  hw : Str
  netVersion : Option UInt32
  deviceId : Option DeviceId
  netOrigin : Option NetOrigin

def sharedKeys : ℕ := 6

namespace LinkUp

/-- Each side's own keys come from that side, and a token only beside a written version. -/
def sidesAgree (up : LinkUp) : Except LinkError Unit :=
  match up.role with
  | .controller =>
    if up.netVersion.isSome then .error .netVersionFromController
    else if up.netOrigin.isSome then .error .netOriginFromController
    else if up.deviceId.isNone then .error (.missing .deviceId)
    else .ok ()
  | .comms =>
    if up.deviceId.isSome then .error .deviceIdFromComms
    else if up.netOrigin.isSome ∧ (up.netVersion = none ∨ up.netVersion = some 0) then .error .netOriginWithoutVersion
    else .ok ()

def keys (up : LinkUp) : ℕ :=
  sharedKeys + up.netVersion.isSome.toNat + up.deviceId.isSome.toNat + up.netOrigin.isSome.toNat

def checks (up : LinkUp) : Except LinkError Unit := do
  bounded .fw up.fw.raw
  versioned .fw up.fw.raw
  bounded .hw up.hw.raw
  up.sidesAgree

def encodeInto (up : LinkUp) (header : LinkHeader) : Encoder LinkError Unit := do
  up.checks
  mapErr (fun _ => .cbor .destinationTooSmall) (header.write up.keys)
  tell (CborWriter.key 1)
  tell (CborWriter.u64 up.version.major.toNat)
  tell (CborWriter.key 2)
  tell (CborWriter.u64 up.version.minor.toNat)
  tell (CborWriter.key 3)
  tell (CborWriter.u64 up.role.number.toNat)
  tell (CborWriter.key 4)
  tell (CborWriter.text up.fw.raw)
  tell (CborWriter.key 5)
  tell (CborWriter.u64 up.bootId.toNat)
  tell (CborWriter.key 6)
  tell (CborWriter.text up.hw.raw)
  whenSome up.netVersion fun netVersion => do
    tell (CborWriter.key 7)
    tell (CborWriter.u64 netVersion.toNat)
  whenSome up.deviceId fun deviceId => do
    tell (CborWriter.key 8)
    tell (CborWriter.bytes deviceId.toList)
  whenSome up.netOrigin fun origin => do
    tell (CborWriter.key 9)
    tell (CborWriter.bytes origin.toList)

def write (up : LinkUp) (header : LinkHeader) (dst : ℕ) : Except LinkError Bytes :=
  encodeBody (up.encodeInto header) dst

end LinkUp

def deviceIdOf (bytes : Bytes) : Except LinkError DeviceId :=
  if bytes.length = 16 then .ok (fill 16 bytes) else .error (.deviceIdNotSixteen bytes.length)

def NetOrigin.tryFrom (bytes : Bytes) : Except LinkError NetOrigin :=
  if bytes.length = 8 then .ok (fill 8 bytes) else .error (.originNotEight bytes.length)

def required {α : Type} (slot : Option α) (key : LinkField) : Except LinkError α := slotRequired (.missing key) slot

structure LinkUpSlots where
  major : Option UInt8
  minor : Option UInt8
  role : Option Side
  fw : Option Str
  bootId : Option UInt32
  hw : Option Str
  netVersion : Option UInt32
  deviceId : Option DeviceId
  netOrigin : Option NetOrigin

namespace LinkUpSlots

def empty : LinkUpSlots := ⟨none, none, none, none, none, none, none, none, none⟩

def readRole : Read LinkError Side := do
  let raw ← ask u8
  Side.of raw

def readText (key : LinkField) : Read LinkError Str := do
  let text ← textValue
  bounded key text.raw
  pure text

def readDeviceId : Read LinkError DeviceId := do
  let bytes ← ask bytesValue
  deviceIdOf bytes

def readOrigin : Read LinkError NetOrigin := do
  let bytes ← ask bytesValue
  NetOrigin.tryFrom bytes

def step : ℤ → LinkUpSlots → Read LinkError LinkUpSlots
  | 1, s => slotField (ask u8) (.duplicate .protocolMajor) s.major fun slot => { s with major := slot }
  | 2, s => slotField (ask u8) (.duplicate .protocolMinor) s.minor fun slot => { s with minor := slot }
  | 3, s => slotField readRole (.duplicate .role) s.role fun slot => { s with role := slot }
  | 4, s => slotField (readText .fw) (.duplicate .fw) s.fw fun slot => { s with fw := slot }
  | 5, s => slotField (ask u32) (.duplicate .bootId) s.bootId fun slot => { s with bootId := slot }
  | 6, s => slotField (readText .hw) (.duplicate .hw) s.hw fun slot => { s with hw := slot }
  | 7, s => slotField (ask u32) (.duplicate .netVersion) s.netVersion fun slot => { s with netVersion := slot }
  | 8, s => slotField readDeviceId (.duplicate .deviceId) s.deviceId fun slot => { s with deviceId := slot }
  | 9, s => slotField readOrigin (.duplicate .netOrigin) s.netOrigin fun slot => { s with netOrigin := slot }
  | _, s => passOver s

def up (s : LinkUpSlots) : Except LinkError LinkUp := do
  let major ← required s.major .protocolMajor
  let minor ← required s.minor .protocolMinor
  let role ← required s.role .role
  let fw ← required s.fw .fw
  let bootId ← required s.bootId .bootId
  let hw ← required s.hw .hw
  let up : LinkUp := ⟨⟨major, minor⟩, role, fw, bootId, hw, s.netVersion, s.deviceId, s.netOrigin⟩
  up.sidesAgree
  .ok up

end LinkUpSlots

def LinkUp.decode (envelope : LinkEnvelope) : Except LinkError LinkUp := do
  let (slots, body) ← pairLoop LinkUpSlots.step envelope.keys .empty envelope.body
  body.finish.mapError .cbor
  slots.up

inductive NvsWrite
  | durable
  | failed
  deriving DecidableEq

inductive NetConfig
  | stored
  | rejectedInvalid
  | nvsWriteFailed
  deriving DecidableEq

inductive NetChange
  | set (version : UInt32) (ssid psk country hostname : Str) (origin : NetOrigin)
  | clearUnwritten
  | clear (version : UInt32) (country hostname : Str) (origin : NetOrigin)

inductive NetStamp
  | unwritten
  | written (version : NonZeroU32) (origin : NetOrigin)
  deriving DecidableEq

structure NetVerdict where
  outcome : NetConfig
  version : UInt32
  deriving DecidableEq

namespace NetStamp

def ofParts (version : UInt32) (origin : NetOrigin) : Except LinkError NetStamp :=
  match NonZeroU32.new version with
  | some version => .ok (.written version origin)
  | none => .error .zeroNetworkVersion

def of : NetChange → Except LinkError NetStamp
  | .clearUnwritten => .ok .unwritten
  | .set version _ _ _ _ origin | .clear version _ _ origin => ofParts version origin

def netVersion : NetStamp → UInt32
  | unwritten => 0
  | written version _ => version.get

def netOrigin : NetStamp → Option NetOrigin
  | unwritten => none
  | written _ origin => some origin

/-- Whether the controller holding this master pushes after the comms processor's `LinkUp`. -/
def needsPush (master : NetStamp) (cache : LinkUp) : Bool :=
  match master with
  | unwritten => decide (cache.netVersion ≠ some 0)
  | written version origin => decide (cache.netVersion ≠ some version.get) || decide (cache.netOrigin ≠ some origin)

def settle (flash : NetStamp) (change : NetChange) (write : NvsWrite) : Except LinkError (NetStamp × NetVerdict) := do
  let offered ← of change
  let (held, outcome) := match write with
    | .durable => (offered, NetConfig.stored)
    | .failed => (flash, NetConfig.nvsWriteFailed)
  .ok (held, ⟨outcome, held.netVersion⟩)

end NetStamp

end Km43.Link
