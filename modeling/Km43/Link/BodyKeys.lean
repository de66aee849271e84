import Km43.Cbor.Codec
import Km43.Link.LinkUp

namespace Km43.Link

open Cbor

inductive HeartbeatKey
  | uptime
  | conns
  deriving DecidableEq

namespace HeartbeatKey

def all : List HeartbeatKey := [uptime, conns]

theorem keyList : KeyList all := ⟨by decide, fun k => by cases k <;> decide, by decide⟩

instance : Listed HeartbeatKey := ⟨all, keyList⟩

def field : HeartbeatKey → LinkField
  | uptime => .uptime
  | conns => .conns

end HeartbeatKey

inductive ClientUpKey
  | conn
  | transport
  | peer
  deriving DecidableEq

namespace ClientUpKey

def all : List ClientUpKey := [conn, transport, peer]

theorem keyList : KeyList all := ⟨by decide, fun k => by cases k <;> decide, by decide⟩

instance : Listed ClientUpKey := ⟨all, keyList⟩

def field : ClientUpKey → LinkField
  | conn => .conn
  | transport => .transport
  | peer => .peer

end ClientUpKey

inductive ConnKey
  | conn
  | reason
  deriving DecidableEq

namespace ConnKey

def all : List ConnKey := [conn, reason]

theorem keyList : KeyList all := ⟨by decide, fun k => by cases k <;> decide, by decide⟩

instance : Listed ConnKey := ⟨all, keyList⟩

def field : ConnKey → LinkField
  | conn => .conn
  | reason => .reason

end ConnKey

inductive CloseReportKey
  | outcome
  | closed
  deriving DecidableEq

namespace CloseReportKey

def all : List CloseReportKey := [outcome, closed]

theorem keyList : KeyList all := ⟨by decide, fun k => by cases k <;> decide, by decide⟩

instance : Listed CloseReportKey := ⟨all, keyList⟩

def field : CloseReportKey → LinkField
  | outcome => .outcome
  | closed => .closed

end CloseReportKey

inductive ClockOfferKey
  | unixMs
  | source
  | accuracyMs
  | server
  deriving DecidableEq

namespace ClockOfferKey

def all : List ClockOfferKey := [unixMs, source, accuracyMs, server]

theorem keyList : KeyList all := ⟨by decide, fun k => by cases k <;> decide, by decide⟩

instance : Listed ClockOfferKey := ⟨all, keyList⟩

def field : ClockOfferKey → LinkField
  | unixMs => .unixMs
  | source => .source
  | accuracyMs => .accuracyMs
  | server => .server

end ClockOfferKey

inductive NetVerdictKey
  | outcome
  | version
  deriving DecidableEq

namespace NetVerdictKey

def all : List NetVerdictKey := [outcome, version]

theorem keyList : KeyList all := ⟨by decide, fun k => by cases k <;> decide, by decide⟩

instance : Listed NetVerdictKey := ⟨all, keyList⟩

def field : NetVerdictKey → LinkField
  | outcome => .outcome
  | version => .netVersion

end NetVerdictKey

inductive ReleaseRequestKey
  | op
  | version
  | imageLen
  | digest
  deriving DecidableEq

namespace ReleaseRequestKey

def all : List ReleaseRequestKey := [op, version, imageLen, digest]

theorem keyList : KeyList all := ⟨by decide, fun k => by cases k <;> decide, by decide⟩

instance : Listed ReleaseRequestKey := ⟨all, keyList⟩

def field : ReleaseRequestKey → LinkField
  | op => .op
  | version => .releaseVersion
  | imageLen => .imageLen
  | digest => .digest

end ReleaseRequestKey

inductive ReleaseVerdictKey
  | outcome
  | version
  | bytesHave
  deriving DecidableEq

namespace ReleaseVerdictKey

def all : List ReleaseVerdictKey := [outcome, version, bytesHave]

theorem keyList : KeyList all := ⟨by decide, fun k => by cases k <;> decide, by decide⟩

instance : Listed ReleaseVerdictKey := ⟨all, keyList⟩

def field : ReleaseVerdictKey → LinkField
  | outcome => .outcome
  | version => .releaseVersion
  | bytesHave => .bytesHave

end ReleaseVerdictKey

inductive OneKey
  | only
  deriving DecidableEq

namespace OneKey

def all : List OneKey := [only]

theorem keyList : KeyList all := ⟨by decide, fun k => by cases k; decide, by decide⟩

instance : Listed OneKey := ⟨all, keyList⟩

end OneKey

end Km43.Link
