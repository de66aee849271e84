import Km43.Cbor.Complete
import Km43.Cbor.Calls
import Km43.Identity.Crypto
import Km43.Log.Event
import Km43.Sealed.Decode

namespace Km43.Handshake

open Library Identity Cbor CborReader CborWriter Sealed Log

abbrev StateSeq := UInt64

inductive DiscoverKey
  | protocolMajor
  | protocolMinor
  | deviceId
  | model
  | provisioned
  | pairingOpen
  | challenge
  | epoch
  deriving DecidableEq

namespace DiscoverKey

def of : ℤ → Option DiscoverKey
  | 1 => some protocolMajor
  | 2 => some protocolMinor
  | 3 => some deviceId
  | 4 => some model
  | 5 => some provisioned
  | 6 => some pairingOpen
  | 7 => some challenge
  | 8 => some epoch
  | _ => none

def number : DiscoverKey → ℕ
  | protocolMajor => 1
  | protocolMinor => 2
  | deviceId => 3
  | model => 4
  | provisioned => 5
  | pairingOpen => 6
  | challenge => 7
  | epoch => 8

def count : ℕ := 8

end DiscoverKey

/-- The thirty keys of a `HelloReport`. Key 11 is retired, and is skipped like any key that is not known. -/
inductive ReportKey
  | protocolMajor
  | protocolMinor
  | sessionId
  | fwController
  | fwComms
  | capabilities
  | logOldestSeq
  | logNewestSeq
  | stateSeq
  | timeKnown
  | maxSessions
  | maxChannels
  | maxClients
  | maxEventQueue
  | maxInflight
  | maxCmdDedup
  | rev
  | topoDigest
  | maxBuses
  | maxDevices
  | maxComponents
  | maxSignals
  | maxSeriesElements
  | maxParams
  | maxConcerns
  | maxSelectors
  | maxHistorySignals
  | maxTopologyDepth
  | clientId
  | generation
  deriving DecidableEq

namespace ReportKey

def of : ℤ → Option ReportKey
  | 1 => some protocolMajor
  | 2 => some protocolMinor
  | 3 => some sessionId
  | 4 => some fwController
  | 5 => some fwComms
  | 6 => some capabilities
  | 7 => some logOldestSeq
  | 8 => some logNewestSeq
  | 9 => some stateSeq
  | 10 => some timeKnown
  | 12 => some maxSessions
  | 13 => some maxChannels
  | 14 => some maxClients
  | 15 => some maxEventQueue
  | 16 => some maxInflight
  | 17 => some maxCmdDedup
  | 18 => some rev
  | 19 => some topoDigest
  | 20 => some maxBuses
  | 21 => some maxDevices
  | 22 => some maxComponents
  | 23 => some maxSignals
  | 24 => some maxSeriesElements
  | 25 => some maxParams
  | 26 => some maxConcerns
  | 27 => some maxSelectors
  | 28 => some maxHistorySignals
  | 29 => some maxTopologyDepth
  | 30 => some clientId
  | 31 => some generation
  | _ => none

def number : ReportKey → ℕ
  | protocolMajor => 1
  | protocolMinor => 2
  | sessionId => 3
  | fwController => 4
  | fwComms => 5
  | capabilities => 6
  | logOldestSeq => 7
  | logNewestSeq => 8
  | stateSeq => 9
  | timeKnown => 10
  | maxSessions => 12
  | maxChannels => 13
  | maxClients => 14
  | maxEventQueue => 15
  | maxInflight => 16
  | maxCmdDedup => 17
  | rev => 18
  | topoDigest => 19
  | maxBuses => 20
  | maxDevices => 21
  | maxComponents => 22
  | maxSignals => 23
  | maxSeriesElements => 24
  | maxParams => 25
  | maxConcerns => 26
  | maxSelectors => 27
  | maxHistorySignals => 28
  | maxTopologyDepth => 29
  | clientId => 30
  | generation => 31

def count : ℕ := 30

end ReportKey

inductive HandshakeKey
  | discover (key : DiscoverKey)
  | report (key : ReportKey)
  deriving DecidableEq

inductive HandshakeError
  | missing (key : HandshakeKey)
  | duplicate (key : HandshakeKey)
  | wrongWidth (key : HandshakeKey) (len : ℕ)
  | wrongMessage (expected found : MessageType)
  | sessionMismatch (envelope body : SessionId)
  | channelsAboveCeiling (channels : UInt8)
  | noSuchSlot
  | zeroGeneration
  | zeroEpoch
  | envelope (why : EnvelopeError)
  | cbor (why : CborError)
  deriving DecidableEq

instance : FromCbor HandshakeError := ⟨.cbor⟩

structure Caps where
  sessions : UInt8
  channels : UInt8
  clients : UInt8
  eventQueue : UInt16
  inflight : UInt8
  cmdDedup : UInt16
  deriving DecidableEq

structure Topology where
  rev : UInt32
  digest : Vector UInt8 8
  buses : UInt8
  devices : UInt16
  components : UInt16
  signals : UInt16
  seriesElements : UInt16
  params : UInt16
  concerns : UInt16
  selectors : UInt8
  historySignals : UInt16
  topologyDepth : UInt8
  deriving DecidableEq

structure HelloReport where
  version : Version
  session : SessionId
  fwController : Str
  fwComms : Str
  capabilities : UInt32
  logOldestSeq : LogSeq
  logNewestSeq : LogSeq
  stateSeq : StateSeq
  timeKnown : Bool
  caps : Caps
  topology : Topology
  clientId : ClientId
  generation : Generation
  deriving DecidableEq

structure Discovery where
  version : Version
  deviceId : DeviceId
  model : Str
  provisioned : Bool
  pairingOpen : Bool
  challenge : Vector UInt8 16
  epoch : Epoch
  deriving DecidableEq

def nonZeroOr (why : HandshakeError) (raw : UInt32) : Except HandshakeError NonZeroU32 :=
  match NonZeroU32.new raw with
  | some value => .ok value
  | none => .error why

theorem nonZeroOr_get (why : HandshakeError) (raw : UInt32) (value : NonZeroU32) (h : nonZeroOr why raw = .ok value) :
    value.get = raw := by
  unfold nonZeroOr NonZeroU32.new at h
  split_ifs at h
  cases h
  rfl

def nonZeroCodec (why : HandshakeError) : Codec HandshakeError NonZeroU32 :=
  Codec.u32.checked (nonZeroOr why) _ (nonZeroOr_get why)

def sessionOf (raw : UInt16) : Except HandshakeError SessionId := .ok (.ofRaw raw)

theorem sessionOf_raw (raw : UInt16) (session : SessionId) (h : sessionOf raw = .ok session) : session.raw = raw := by
  obtain rfl := Except.ok.inj h
  unfold SessionId.ofRaw
  split_ifs with hzero
  · exact hzero.symm
  · rfl

def sessionCodec : Codec HandshakeError SessionId := Codec.u16.checked sessionOf _ sessionOf_raw

namespace DiscoverKey

theorem of_iff (n : ℤ) (k : DiscoverKey) : of n = some k ↔ n = k.number := by
  constructor
  · intro h
    unfold of at h
    split at h <;> cases h <;> rfl
  · rintro rfl
    cases k <;> rfl

theorem small (k : DiscoverKey) : k.number < 256 := by cases k <;> decide

instance : BodyKey DiscoverKey := ⟨of, number, of_iff, small⟩

def Value : DiscoverKey → Type
  | protocolMajor | protocolMinor => UInt8
  | deviceId => DeviceId
  | model => Str
  | provisioned | pairingOpen => Bool
  | challenge => Vector UInt8 16
  | epoch => Epoch

def codec : ∀ k, Codec HandshakeError (Value k)
  | protocolMajor | protocolMinor => .u8
  | deviceId => .fixed 16 (.wrongWidth (.discover deviceId))
  | model => .text
  | provisioned | pairingOpen => .bool
  | challenge => .fixed 16 (.wrongWidth (.discover challenge))
  | epoch => nonZeroCodec .zeroEpoch

end DiscoverKey

namespace ReportKey

theorem of_iff (n : ℤ) (k : ReportKey) : of n = some k ↔ n = k.number := by
  constructor
  · intro h
    unfold of at h
    split at h <;> cases h <;> rfl
  · rintro rfl
    cases k <;> rfl

theorem small (k : ReportKey) : k.number < 256 := by cases k <;> decide

instance : BodyKey ReportKey := ⟨of, number, of_iff, small⟩

def Value : ReportKey → Type
  | protocolMajor => UInt8
  | protocolMinor => UInt8
  | sessionId => SessionId
  | fwController => Str
  | fwComms => Str
  | capabilities => UInt32
  | logOldestSeq => LogSeq
  | logNewestSeq => LogSeq
  | stateSeq => StateSeq
  | timeKnown => Bool
  | maxSessions => UInt8
  | maxChannels => UInt8
  | maxClients => UInt8
  | maxEventQueue => UInt16
  | maxInflight => UInt8
  | maxCmdDedup => UInt16
  | rev => UInt32
  | topoDigest => Vector UInt8 8
  | maxBuses => UInt8
  | maxDevices => UInt16
  | maxComponents => UInt16
  | maxSignals => UInt16
  | maxSeriesElements => UInt16
  | maxParams => UInt16
  | maxConcerns => UInt16
  | maxSelectors => UInt8
  | maxHistorySignals => UInt16
  | maxTopologyDepth => UInt8
  | clientId => ClientId
  | generation => Generation

def codec : ∀ k, Codec HandshakeError (Value k)
  | protocolMajor => .u8
  | protocolMinor => .u8
  | sessionId => sessionCodec
  | fwController => .text
  | fwComms => .text
  | capabilities => .u32
  | logOldestSeq => .word
  | logNewestSeq => .word
  | stateSeq => .word
  | timeKnown => .bool
  | maxSessions => .u8
  | maxChannels => .u8
  | maxClients => .u8
  | maxEventQueue => .u16
  | maxInflight => .u8
  | maxCmdDedup => .u16
  | rev => .u32
  | topoDigest => .fixed 8 (.wrongWidth (.report topoDigest))
  | maxBuses => .u8
  | maxDevices => .u16
  | maxComponents => .u16
  | maxSignals => .u16
  | maxSeriesElements => .u16
  | maxParams => .u16
  | maxConcerns => .u16
  | maxSelectors => .u8
  | maxHistorySignals => .u16
  | maxTopologyDepth => .u8
  | clientId => nonZeroCodec .noSuchSlot
  | generation => nonZeroCodec .zeroGeneration

end ReportKey

def expected (header : Header) (kind : MessageType) : Except HandshakeError Unit :=
  if header.kind = kind then .ok () else .error (.wrongMessage kind header.kind)

namespace Discovery

def table : Table HandshakeError DiscoverKey := .ofCodecs DiscoverKey.codec fun k => .duplicate (.discover k)

def taken {α : Type} (slot : Option α) (key : DiscoverKey) : Except HandshakeError α :=
  slotRequired (.missing (.discover key)) slot

def encodeInto (d : Discovery) (header : Header) : Encoder HandshakeError Unit := do
  mapErr (fun why => .envelope (.cbor why)) (header.write DiscoverKey.count)
  tell (CborWriter.key DiscoverKey.protocolMajor.number)
  tell (CborWriter.u64 d.version.major.toNat)
  tell (CborWriter.key DiscoverKey.protocolMinor.number)
  tell (CborWriter.u64 d.version.minor.toNat)
  tell (CborWriter.key DiscoverKey.deviceId.number)
  tell (CborWriter.bytes d.deviceId.toList)
  tell (CborWriter.key DiscoverKey.model.number)
  tell (CborWriter.text d.model.raw)
  tell (CborWriter.key DiscoverKey.provisioned.number)
  tell (CborWriter.bool d.provisioned)
  tell (CborWriter.key DiscoverKey.pairingOpen.number)
  tell (CborWriter.bool d.pairingOpen)
  tell (CborWriter.key DiscoverKey.challenge.number)
  tell (CborWriter.bytes d.challenge.toList)
  tell (CborWriter.key DiscoverKey.epoch.number)
  tell (CborWriter.u64 d.epoch.get.toNat)

def write (d : Discovery) (header : Header) (dst : ℕ) : Except HandshakeError Bytes := do
  expected header .discoverResponse
  encodeBody (d.encodeInto header) dst

def complete (s : table.Slots) : Except HandshakeError Discovery := do
  let major ← taken (s .protocolMajor) .protocolMajor
  let minor ← taken (s .protocolMinor) .protocolMinor
  let deviceId ← taken (s .deviceId) .deviceId
  let model ← taken (s .model) .model
  let provisioned ← taken (s .provisioned) .provisioned
  let pairingOpen ← taken (s .pairingOpen) .pairingOpen
  let challenge ← taken (s .challenge) .challenge
  let epoch ← taken (s .epoch) .epoch
  .ok ⟨⟨major, minor⟩, deviceId, model, provisioned, pairingOpen, challenge, epoch⟩

def decode (envelope : Envelope) : Except HandshakeError Discovery := do
  expected envelope.header .discoverResponse
  let (s, body) ← table.pairs envelope.keys envelope.body
  body.finish.mapError .cbor
  complete s

end Discovery

namespace Caps

def channelCeiling : UInt8 := 32

def withinCeiling (caps : Caps) : Except HandshakeError Unit :=
  if caps.channels > channelCeiling then .error (.channelsAboveCeiling caps.channels) else .ok ()

def encode (caps : Caps) : Encoder HandshakeError Unit := do
  tell (CborWriter.key ReportKey.maxSessions.number)
  tell (CborWriter.u64 caps.sessions.toNat)
  tell (CborWriter.key ReportKey.maxChannels.number)
  tell (CborWriter.u64 caps.channels.toNat)
  tell (CborWriter.key ReportKey.maxClients.number)
  tell (CborWriter.u64 caps.clients.toNat)
  tell (CborWriter.key ReportKey.maxEventQueue.number)
  tell (CborWriter.u64 caps.eventQueue.toNat)
  tell (CborWriter.key ReportKey.maxInflight.number)
  tell (CborWriter.u64 caps.inflight.toNat)
  tell (CborWriter.key ReportKey.maxCmdDedup.number)
  tell (CborWriter.u64 caps.cmdDedup.toNat)

end Caps

namespace Topology

def caps (t : Topology) : List (ReportKey × ℕ) :=
  [(.maxBuses, t.buses.toNat), (.maxDevices, t.devices.toNat), (.maxComponents, t.components.toNat),
    (.maxSignals, t.signals.toNat), (.maxSeriesElements, t.seriesElements.toNat), (.maxParams, t.params.toNat),
    (.maxConcerns, t.concerns.toNat), (.maxSelectors, t.selectors.toNat), (.maxHistorySignals, t.historySignals.toNat),
    (.maxTopologyDepth, t.topologyDepth.toNat)]

def encodeCap (cap : ReportKey × ℕ) : Encoder HandshakeError Unit := do
  tell (CborWriter.key cap.1.number)
  tell (CborWriter.u64 cap.2)

def encode (t : Topology) : Encoder HandshakeError Unit := do
  tell (CborWriter.key ReportKey.rev.number)
  tell (CborWriter.u64 t.rev.toNat)
  tell (CborWriter.key ReportKey.topoDigest.number)
  tell (CborWriter.bytes t.digest.toList)
  t.caps.forM encodeCap

end Topology

namespace HelloReport

def table : Table HandshakeError ReportKey := .ofCodecs ReportKey.codec fun k => .duplicate (.report k)

def taken {α : Type} (slot : Option α) (key : ReportKey) : Except HandshakeError α :=
  slotRequired (.missing (.report key)) slot

def encodeInto (report : HelloReport) : Encoder HandshakeError Unit := do
  tell (CborWriter.map ReportKey.count)
  tell (CborWriter.key ReportKey.protocolMajor.number)
  tell (CborWriter.u64 report.version.major.toNat)
  tell (CborWriter.key ReportKey.protocolMinor.number)
  tell (CborWriter.u64 report.version.minor.toNat)
  tell (CborWriter.key ReportKey.sessionId.number)
  tell (CborWriter.u64 report.session.raw.toNat)
  tell (CborWriter.key ReportKey.fwController.number)
  tell (CborWriter.text report.fwController.raw)
  tell (CborWriter.key ReportKey.fwComms.number)
  tell (CborWriter.text report.fwComms.raw)
  tell (CborWriter.key ReportKey.capabilities.number)
  tell (CborWriter.u64 report.capabilities.toNat)
  tell (CborWriter.key ReportKey.logOldestSeq.number)
  tell (CborWriter.u64 report.logOldestSeq.toNat)
  tell (CborWriter.key ReportKey.logNewestSeq.number)
  tell (CborWriter.u64 report.logNewestSeq.toNat)
  tell (CborWriter.key ReportKey.stateSeq.number)
  tell (CborWriter.u64 report.stateSeq.toNat)
  tell (CborWriter.key ReportKey.timeKnown.number)
  tell (CborWriter.bool report.timeKnown)
  report.caps.encode
  report.topology.encode
  tell (CborWriter.key ReportKey.clientId.number)
  tell (CborWriter.u64 report.clientId.get.toNat)
  tell (CborWriter.key ReportKey.generation.number)
  tell (CborWriter.u64 report.generation.get.toNat)

def encode (report : HelloReport) (dst : ℕ) : Except HandshakeError Bytes := do
  report.caps.withinCeiling
  encodeBody report.encodeInto dst

def completeCaps (s : table.Slots) : Except HandshakeError Caps := do
  let sessions ← taken (s .maxSessions) .maxSessions
  let channels ← taken (s .maxChannels) .maxChannels
  let clients ← taken (s .maxClients) .maxClients
  let eventQueue ← taken (s .maxEventQueue) .maxEventQueue
  let inflight ← taken (s .maxInflight) .maxInflight
  let cmdDedup ← taken (s .maxCmdDedup) .maxCmdDedup
  .ok ⟨sessions, channels, clients, eventQueue, inflight, cmdDedup⟩

def completeTopology (s : table.Slots) : Except HandshakeError Topology := do
  let rev ← taken (s .rev) .rev
  let digest ← taken (s .topoDigest) .topoDigest
  let buses ← taken (s .maxBuses) .maxBuses
  let devices ← taken (s .maxDevices) .maxDevices
  let components ← taken (s .maxComponents) .maxComponents
  let signals ← taken (s .maxSignals) .maxSignals
  let seriesElements ← taken (s .maxSeriesElements) .maxSeriesElements
  let params ← taken (s .maxParams) .maxParams
  let concerns ← taken (s .maxConcerns) .maxConcerns
  let selectors ← taken (s .maxSelectors) .maxSelectors
  let historySignals ← taken (s .maxHistorySignals) .maxHistorySignals
  let topologyDepth ← taken (s .maxTopologyDepth) .maxTopologyDepth
  .ok ⟨rev, digest, buses, devices, components, signals, seriesElements, params, concerns,
    selectors, historySignals, topologyDepth⟩

def complete (s : table.Slots) : Except HandshakeError HelloReport := do
  let major ← taken (s .protocolMajor) .protocolMajor
  let minor ← taken (s .protocolMinor) .protocolMinor
  let session ← taken (s .sessionId) .sessionId
  let fwController ← taken (s .fwController) .fwController
  let fwComms ← taken (s .fwComms) .fwComms
  let capabilities ← taken (s .capabilities) .capabilities
  let logOldestSeq ← taken (s .logOldestSeq) .logOldestSeq
  let logNewestSeq ← taken (s .logNewestSeq) .logNewestSeq
  let stateSeq ← taken (s .stateSeq) .stateSeq
  let timeKnown ← taken (s .timeKnown) .timeKnown
  let caps ← completeCaps s
  let topology ← completeTopology s
  let clientId ← taken (s .clientId) .clientId
  let generation ← taken (s .generation) .generation
  .ok ⟨⟨major, minor⟩, session, fwController, fwComms, capabilities, logOldestSeq, logNewestSeq, stateSeq,
    timeKnown, caps, topology, clientId, generation⟩

/-- A report names the session that its envelope names, and no more channels than the ceiling. -/
def judge (envelope : SessionId) (s : table.Slots) : Except HandshakeError HelloReport := do
  let report ← complete s
  if report.session ≠ envelope then .error (.sessionMismatch envelope report.session)
  else
    report.caps.withinCeiling
    .ok report

def decode (payload : Bytes) (envelope : SessionId) : Except HandshakeError HelloReport :=
  table.decode (judge envelope) payload

end HelloReport

end Km43.Handshake
