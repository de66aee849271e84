import Km43.Link.BodyKeys
import Km43.Link.FrameLaws
import Km43.Link.Outcomes

namespace Km43.Link

open Library Cbor CborReader

def boundedText (key : LinkField) (text : Str) : Except LinkError Str := do
  bounded key text.raw
  .ok text

theorem boundedText_ok {key : LinkField} {text text' : Str} :
    boundedText key text = .ok text' ↔ bounded key text.raw = .ok () ∧ text' = text := by
  unfold boundedText
  cases bounded key text.raw with
  | error why => simp [bind, Except.bind]
  | ok u =>
    constructor
    · rintro ⟨⟩
      exact ⟨rfl, rfl⟩
    · rintro ⟨-, rfl⟩
      rfl

theorem boundedText_only (key : LinkField) (text text' : Str) (h : boundedText key text = .ok text') :
    id text' = text := (boundedText_ok.mp h).2

def capped (key : LinkField) : Codec LinkError Str := Codec.text.checked (boundedText key) id (boundedText_only key)

structure Heartbeat where
  uptimeS : UInt32
  conns : UInt8
  deriving DecidableEq

namespace Heartbeat

def Value : HeartbeatKey → Type
  | .uptime => UInt32
  | .conns => UInt8

def codec : ∀ k, Codec LinkError (Value k)
  | .uptime => .u32
  | .conns => .u8

def table : Table LinkError HeartbeatKey := .ofCodecs codec fun k => .duplicate k.field

def entries (v : Heartbeat) : List (HeartbeatKey × List Call) :=
  [(.uptime, [.u64 v.uptimeS.toUInt64]), (.conns, [.u64 v.conns.toUInt64])]

def write (v : Heartbeat) (header : LinkHeader) (dst : ℕ) : Except LinkError Bytes :=
  encodeBody (linkBody header 2 v.entries) dst

def ofSlots (s : table.Slots) : Except LinkError Heartbeat := do
  let uptimeS ← required (s .uptime) .uptime
  let conns ← required (s .conns) .conns
  .ok ⟨uptimeS, conns⟩

def decode (envelope : LinkEnvelope) : Except LinkError Heartbeat := do
  let s ← bodySlots table envelope
  ofSlots s

end Heartbeat

structure ClientUp where
  conn : UInt16
  transport : LinkTransport
  peer : Str

namespace ClientUp

def Value : ClientUpKey → Type
  | .conn => UInt16
  | .transport => LinkTransport
  | .peer => Str

def codec : ∀ k, Codec LinkError (Value k)
  | .conn => .u16
  | .transport => (Codec.closed .unknownTransport : Codec LinkError LinkTransport)
  | .peer => .text

def table : Table LinkError ClientUpKey := .ofCodecs codec fun k => .duplicate k.field

def entries (v : ClientUp) : List (ClientUpKey × List Call) :=
  [(.conn, [.u64 v.conn.toUInt64]), (.transport, [.u64 v.transport.byte.toUInt64]), (.peer, [.text v.peer])]

def checks (v : ClientUp) : Except LinkError Unit := if v.conn = 0 then .error .noSuchConnection else .ok ()

def write (v : ClientUp) (header : LinkHeader) (dst : ℕ) : Except LinkError Bytes := do
  v.checks
  encodeBody (linkBody header 3 v.entries) dst

def ofSlots (s : table.Slots) : Except LinkError ClientUp := do
  let conn : UInt16 ← required (s .conn) .conn
  if conn = 0 then .error .noSuchConnection
  else
    let transport ← required (s .transport) .transport
    let peer ← required (s .peer) .peer
    .ok ⟨conn, transport, peer⟩

def decode (envelope : LinkEnvelope) : Except LinkError ClientUp := do
  let s ← bodySlots table envelope
  ofSlots s

end ClientUp

structure ClientDown where
  conn : UInt16
  reason : DisconnectReason
  deriving DecidableEq

namespace ClientDown

def Value : ConnKey → Type
  | .conn => UInt16
  | .reason => DisconnectReason

def codec : ∀ k, Codec LinkError (Value k)
  | .conn => .u16
  | .reason => (Codec.closed .unknownReason : Codec LinkError DisconnectReason)

def table : Table LinkError ConnKey := .ofCodecs codec fun k => .duplicate k.field

def entries (v : ClientDown) : List (ConnKey × List Call) :=
  [(.conn, [.u64 v.conn.toUInt64]), (.reason, [.u64 v.reason.byte.toUInt64])]

def checks (v : ClientDown) : Except LinkError Unit := if v.conn = 0 then .error .noSuchConnection else .ok ()

def write (v : ClientDown) (header : LinkHeader) (dst : ℕ) : Except LinkError Bytes := do
  v.checks
  encodeBody (linkBody header 2 v.entries) dst

def ofSlots (s : table.Slots) : Except LinkError ClientDown := do
  let conn : UInt16 ← required (s .conn) .conn
  if conn = 0 then .error .noSuchConnection
  else
    let reason ← required (s .reason) .reason
    .ok ⟨conn, reason⟩

def decode (envelope : LinkEnvelope) : Except LinkError ClientDown := do
  let s ← bodySlots table envelope
  ofSlots s

end ClientDown

structure CloseConnections where
  conn : UInt16
  reason : CloseReason
  deriving DecidableEq

namespace CloseConnections

def Value : ConnKey → Type
  | .conn => UInt16
  | .reason => CloseReason

def codec : ∀ k, Codec LinkError (Value k)
  | .conn => .u16
  | .reason => (Codec.closed .unknownReason : Codec LinkError CloseReason)

def table : Table LinkError ConnKey := .ofCodecs codec fun k => .duplicate k.field

def entries (v : CloseConnections) : List (ConnKey × List Call) :=
  [(.conn, [.u64 v.conn.toUInt64]), (.reason, [.u64 v.reason.byte.toUInt64])]

def write (v : CloseConnections) (header : LinkHeader) (dst : ℕ) : Except LinkError Bytes :=
  encodeBody (linkBody header 2 v.entries) dst

def ofSlots (s : table.Slots) : Except LinkError CloseConnections := do
  let conn ← required (s .conn) .conn
  let reason ← required (s .reason) .reason
  .ok ⟨conn, reason⟩

def decode (envelope : LinkEnvelope) : Except LinkError CloseConnections := do
  let s ← bodySlots table envelope
  ofSlots s

end CloseConnections

structure CloseReport where
  outcome : CloseConnection
  closed : UInt8
  deriving DecidableEq

namespace CloseReport

def Value : CloseReportKey → Type
  | .outcome => CloseConnection
  | .closed => UInt8

def codec : ∀ k, Codec LinkError (Value k)
  | .outcome => (Codec.closed .unknownOutcome : Codec LinkError CloseConnection)
  | .closed => .u8

def table : Table LinkError CloseReportKey := .ofCodecs codec fun k => .duplicate k.field

def entries (v : CloseReport) : List (CloseReportKey × List Call) :=
  [(.outcome, [.u64 v.outcome.byte.toUInt64]), (.closed, [.u64 v.closed.toUInt64])]

def write (v : CloseReport) (header : LinkHeader) (dst : ℕ) : Except LinkError Bytes :=
  encodeBody (linkBody header 2 v.entries) dst

def ofSlots (s : table.Slots) : Except LinkError CloseReport := do
  let outcome ← required (s .outcome) .outcome
  let closed ← required (s .closed) .closed
  .ok ⟨outcome, closed⟩

def decode (envelope : LinkEnvelope) : Except LinkError CloseReport := do
  let s ← bodySlots table envelope
  ofSlots s

end CloseReport

def ntp : UInt8 := 1

structure ClockOffer where
  unixMs : UInt64
  source : UInt8
  accuracyMs : UInt32
  server : Str

namespace ClockOffer

def Value : ClockOfferKey → Type
  | .unixMs => UInt64
  | .source => UInt8
  | .accuracyMs => UInt32
  | .server => Str

def codec : ∀ k, Codec LinkError (Value k)
  | .unixMs => .word
  | .source => .u8
  | .accuracyMs => .u32
  | .server => capped .server

def table : Table LinkError ClockOfferKey := .ofCodecs codec fun k => .duplicate k.field

def entries (v : ClockOffer) : List (ClockOfferKey × List Call) :=
  [(.unixMs, [.u64 v.unixMs]), (.source, [.u64 v.source.toUInt64]), (.accuracyMs, [.u64 v.accuracyMs.toUInt64]),
    (.server, [.text v.server])]

def checks (v : ClockOffer) : Except LinkError Unit :=
  if v.source ≠ ntp then .error (.unknownSource v.source) else bounded .server v.server.raw

def write (v : ClockOffer) (header : LinkHeader) (dst : ℕ) : Except LinkError Bytes := do
  v.checks
  encodeBody (linkBody header 4 v.entries) dst

def ofSlots (s : table.Slots) : Except LinkError ClockOffer := do
  let unixMs ← required (s .unixMs) .unixMs
  let source : UInt8 ← required (s .source) .source
  if source ≠ ntp then .error (.unknownSource source)
  else
    let accuracyMs ← required (s .accuracyMs) .accuracyMs
    let server ← required (s .server) .server
    .ok ⟨unixMs, source, accuracyMs, server⟩

def decode (envelope : LinkEnvelope) : Except LinkError ClockOffer := do
  let s ← bodySlots table envelope
  ofSlots s

end ClockOffer

namespace NetVerdict

def Value : NetVerdictKey → Type
  | .outcome => NetConfig
  | .version => UInt32

def codec : ∀ k, Codec LinkError (Value k)
  | .outcome => (Codec.closed .unknownOutcome : Codec LinkError NetConfig)
  | .version => .u32

def table : Table LinkError NetVerdictKey := .ofCodecs codec fun k => .duplicate k.field

def entries (v : NetVerdict) : List (NetVerdictKey × List Call) :=
  [(.outcome, [.u64 v.outcome.byte.toUInt64]), (.version, [.u64 v.version.toUInt64])]

def write (v : NetVerdict) (header : LinkHeader) (dst : ℕ) : Except LinkError Bytes :=
  encodeBody (linkBody header 2 v.entries) dst

def ofSlots (s : table.Slots) : Except LinkError NetVerdict := do
  let outcome ← required (s .outcome) .outcome
  let version ← required (s .version) .netVersion
  .ok ⟨outcome, version⟩

def decode (envelope : LinkEnvelope) : Except LinkError NetVerdict := do
  let s ← bodySlots table envelope
  ofSlots s

end NetVerdict

abbrev ReleaseDigest := Vector UInt8 32

structure ReleaseRequest where
  op : CommsReleaseOp
  version : Str
  imageLen : UInt32
  digest : ReleaseDigest

namespace ReleaseRequest

def Value : ReleaseRequestKey → Type
  | .op => CommsReleaseOp
  | .version => Str
  | .imageLen => UInt32
  | .digest => ReleaseDigest

def codec : ∀ k, Codec LinkError (Value k)
  | .op => (Codec.closed .unknownOp : Codec LinkError CommsReleaseOp)
  | .version => capped .releaseVersion
  | .imageLen => .u32
  | .digest => .fixed 32 .digestNotSha256

def table : Table LinkError ReleaseRequestKey := .ofCodecs codec fun k => .duplicate k.field

def entries (v : ReleaseRequest) : List (ReleaseRequestKey × List Call) :=
  [(.op, [.u64 v.op.byte.toUInt64]), (.version, [.text v.version]), (.imageLen, [.u64 v.imageLen.toUInt64]),
    (.digest, [.bytes v.digest.toList])]

def checks (v : ReleaseRequest) : Except LinkError Unit := do
  bounded .releaseVersion v.version.raw
  versioned .releaseVersion v.version.raw

def write (v : ReleaseRequest) (header : LinkHeader) (dst : ℕ) : Except LinkError Bytes := do
  v.checks
  encodeBody (linkBody header 4 v.entries) dst

def ofSlots (s : table.Slots) : Except LinkError ReleaseRequest := do
  let op ← required (s .op) .op
  let version ← required (s .version) .releaseVersion
  let imageLen ← required (s .imageLen) .imageLen
  let digest ← required (s .digest) .digest
  .ok ⟨op, version, imageLen, digest⟩

def decode (envelope : LinkEnvelope) : Except LinkError ReleaseRequest := do
  let s ← bodySlots table envelope
  ofSlots s

end ReleaseRequest

structure ReleaseVerdict where
  outcome : CommsRelease
  version : Str
  bytesHave : UInt32

namespace ReleaseVerdict

def Value : ReleaseVerdictKey → Type
  | .outcome => CommsRelease
  | .version => Str
  | .bytesHave => UInt32

def codec : ∀ k, Codec LinkError (Value k)
  | .outcome => (Codec.closed .unknownOutcome : Codec LinkError CommsRelease)
  | .version => capped .releaseVersion
  | .bytesHave => .u32

def table : Table LinkError ReleaseVerdictKey := .ofCodecs codec fun k => .duplicate k.field

def entries (v : ReleaseVerdict) : List (ReleaseVerdictKey × List Call) :=
  [(.outcome, [.u64 v.outcome.byte.toUInt64]), (.version, [.text v.version]), (.bytesHave, [.u64 v.bytesHave.toUInt64])]

def checks (v : ReleaseVerdict) : Except LinkError Unit := do
  bounded .releaseVersion v.version.raw
  versioned .releaseVersion v.version.raw

def write (v : ReleaseVerdict) (header : LinkHeader) (dst : ℕ) : Except LinkError Bytes := do
  v.checks
  encodeBody (linkBody header 3 v.entries) dst

def ofSlots (s : table.Slots) : Except LinkError ReleaseVerdict := do
  let outcome ← required (s .outcome) .outcome
  let version ← required (s .version) .releaseVersion
  let bytesHave ← required (s .bytesHave) .bytesHave
  .ok ⟨outcome, version, bytesHave⟩

def decode (envelope : LinkEnvelope) : Except LinkError ReleaseVerdict := do
  let s ← bodySlots table envelope
  ofSlots s

end ReleaseVerdict

structure OneBody (α : Type) where
  codec : Codec LinkError α
  twice : LinkError
  missing : LinkError

namespace OneBody

variable {α : Type} (body : OneBody α)

def table : Table LinkError OneKey := .ofCodecs (fun _ => body.codec) fun _ => body.twice

def write (value : α) (header : LinkHeader) (dst : ℕ) : Except LinkError Bytes :=
  encodeBody (linkBody header 1 [(OneKey.only, body.codec.calls value)]) dst

def ofSlots (s : body.table.Slots) : Except LinkError α := slotRequired body.missing (s .only)

def decode (envelope : LinkEnvelope) : Except LinkError α := do
  let s ← bodySlots body.table envelope
  body.ofSlots s

end OneBody

def outcomeOnly (α : Type) [Numbered α] : OneBody α := ⟨.closed .unknownOutcome, .duplicate .outcome, .missing .outcome⟩

structure TimeVerdict where
  outcome : TimeOffer
  deriving DecidableEq

namespace TimeVerdict

def write (v : TimeVerdict) (header : LinkHeader) (dst : ℕ) : Except LinkError Bytes :=
  (outcomeOnly TimeOffer).write v.outcome header dst

def decode (envelope : LinkEnvelope) : Except LinkError TimeVerdict := do
  let outcome ← (outcomeOnly TimeOffer).decode envelope
  .ok ⟨outcome⟩

end TimeVerdict

structure DownloadRequest where
  reason : DownloadReason
  deriving DecidableEq

namespace DownloadRequest

def body : OneBody DownloadReason := ⟨.closed .unknownReason, .duplicate .reason, .missing .reason⟩

def write (v : DownloadRequest) (header : LinkHeader) (dst : ℕ) : Except LinkError Bytes :=
  body.write v.reason header dst

def decode (envelope : LinkEnvelope) : Except LinkError DownloadRequest := do
  let reason ← body.decode envelope
  .ok ⟨reason⟩

end DownloadRequest

structure DownloadVerdict where
  outcome : EnterDownload
  deriving DecidableEq

namespace DownloadVerdict

def write (v : DownloadVerdict) (header : LinkHeader) (dst : ℕ) : Except LinkError Bytes :=
  (outcomeOnly EnterDownload).write v.outcome header dst

def decode (envelope : LinkEnvelope) : Except LinkError DownloadVerdict := do
  let outcome ← (outcomeOnly EnterDownload).decode envelope
  .ok ⟨outcome⟩

end DownloadVerdict

structure ClientUpAck where
  outcome : ClientConnected
  deriving DecidableEq

namespace ClientUpAck

def write (v : ClientUpAck) (header : LinkHeader) (dst : ℕ) : Except LinkError Bytes :=
  (outcomeOnly ClientConnected).write v.outcome header dst

def decode (envelope : LinkEnvelope) : Except LinkError ClientUpAck := do
  let outcome ← (outcomeOnly ClientConnected).decode envelope
  .ok ⟨outcome⟩

end ClientUpAck

structure ClientDownAck where
  outcome : ClientDisconnected
  deriving DecidableEq

namespace ClientDownAck

def write (v : ClientDownAck) (header : LinkHeader) (dst : ℕ) : Except LinkError Bytes :=
  (outcomeOnly ClientDisconnected).write v.outcome header dst

def decode (envelope : LinkEnvelope) : Except LinkError ClientDownAck := do
  let outcome ← (outcomeOnly ClientDisconnected).decode envelope
  .ok ⟨outcome⟩

end ClientDownAck

end Km43.Link
