import Km43.Cbor.Codec
import Km43.Link.LinkUp

namespace Km43.Link

open Cbor

inductive ClientConnected
  | accepted
  | refusedTableFull
  | refusedHandleInUse
  | refusedLinkNotUp
  deriving DecidableEq

namespace ClientConnected

def byte : ClientConnected → UInt8
  | accepted => 1
  | refusedTableFull => 2
  | refusedHandleInUse => 3
  | refusedLinkNotUp => 4

def all : List ClientConnected := [accepted, refusedTableFull, refusedHandleInUse, refusedLinkNotUp]

theorem found (a : ClientConnected) : (all.find? fun b => b.byte == a.byte) = some a := by cases a <;> rfl

instance : Numbered ClientConnected := ⟨all, byte, found⟩

end ClientConnected

inductive ClientDisconnected
  | released
  | unknownHandle
  deriving DecidableEq

namespace ClientDisconnected

def byte : ClientDisconnected → UInt8
  | released => 1
  | unknownHandle => 2

def all : List ClientDisconnected := [released, unknownHandle]

theorem found (a : ClientDisconnected) : (all.find? fun b => b.byte == a.byte) = some a := by cases a <;> rfl

instance : Numbered ClientDisconnected := ⟨all, byte, found⟩

end ClientDisconnected

inductive CloseConnection
  | closed
  | unknownHandle
  deriving DecidableEq

namespace CloseConnection

def byte : CloseConnection → UInt8
  | closed => 1
  | unknownHandle => 2

def all : List CloseConnection := [closed, unknownHandle]

theorem found (a : CloseConnection) : (all.find? fun b => b.byte == a.byte) = some a := by cases a <;> rfl

instance : Numbered CloseConnection := ⟨all, byte, found⟩

end CloseConnection

inductive CommsRelease
  | authorised
  | installed
  | activated
  | refusedDigestMismatch
  | refusedSignature
  | refusedNoSpace
  | rolledBack
  deriving DecidableEq

namespace CommsRelease

def byte : CommsRelease → UInt8
  | authorised => 1
  | installed => 2
  | activated => 3
  | refusedDigestMismatch => 4
  | refusedSignature => 5
  | refusedNoSpace => 6
  | rolledBack => 7

def all : List CommsRelease :=
  [authorised, installed, activated, refusedDigestMismatch, refusedSignature, refusedNoSpace, rolledBack]

theorem found (a : CommsRelease) : (all.find? fun b => b.byte == a.byte) = some a := by cases a <;> rfl

instance : Numbered CommsRelease := ⟨all, byte, found⟩

end CommsRelease

inductive EnterDownload
  | entering
  | refusedOutsideWindow
  deriving DecidableEq

namespace EnterDownload

def byte : EnterDownload → UInt8
  | entering => 1
  | refusedOutsideWindow => 2

def all : List EnterDownload := [entering, refusedOutsideWindow]

theorem found (a : EnterDownload) : (all.find? fun b => b.byte == a.byte) = some a := by cases a <;> rfl

instance : Numbered EnterDownload := ⟨all, byte, found⟩

end EnterDownload

namespace NetConfig

def byte : NetConfig → UInt8
  | stored => 1
  | rejectedInvalid => 2
  | nvsWriteFailed => 3

def all : List NetConfig := [stored, rejectedInvalid, nvsWriteFailed]

theorem found (a : NetConfig) : (all.find? fun b => b.byte == a.byte) = some a := by cases a <;> rfl

instance : Numbered NetConfig := ⟨all, byte, found⟩

end NetConfig

inductive TimeOffer
  | accepted
  | refusedImplausible
  | refusedStepTooLarge
  | refusedRateLimited
  deriving DecidableEq

namespace TimeOffer

def byte : TimeOffer → UInt8
  | accepted => 1
  | refusedImplausible => 2
  | refusedStepTooLarge => 4
  | refusedRateLimited => 5

def all : List TimeOffer := [accepted, refusedImplausible, refusedStepTooLarge, refusedRateLimited]

theorem found (a : TimeOffer) : (all.find? fun b => b.byte == a.byte) = some a := by cases a <;> rfl

instance : Numbered TimeOffer := ⟨all, byte, found⟩

end TimeOffer

inductive CloseReason
  | sessionExpired
  | shedding
  | authenticationFailures
  | resync
  deriving DecidableEq

namespace CloseReason

def byte : CloseReason → UInt8
  | sessionExpired => 1
  | shedding => 2
  | authenticationFailures => 3
  | resync => 4

def all : List CloseReason := [sessionExpired, shedding, authenticationFailures, resync]

theorem found (a : CloseReason) : (all.find? fun b => b.byte == a.byte) = some a := by cases a <;> rfl

instance : Numbered CloseReason := ⟨all, byte, found⟩

end CloseReason

inductive CommsReleaseOp
  | authorise
  | activate
  | revoke
  | confirmHealthy
  deriving DecidableEq

namespace CommsReleaseOp

def byte : CommsReleaseOp → UInt8
  | authorise => 1
  | activate => 2
  | revoke => 3
  | confirmHealthy => 4

def all : List CommsReleaseOp := [authorise, activate, revoke, confirmHealthy]

theorem found (a : CommsReleaseOp) : (all.find? fun b => b.byte == a.byte) = some a := by cases a <;> rfl

instance : Numbered CommsReleaseOp := ⟨all, byte, found⟩

end CommsReleaseOp

inductive DisconnectReason
  | closedByClient
  | transportError
  | idleTimeout
  | closedByComms
  deriving DecidableEq

namespace DisconnectReason

def byte : DisconnectReason → UInt8
  | closedByClient => 1
  | transportError => 2
  | idleTimeout => 3
  | closedByComms => 4

def all : List DisconnectReason := [closedByClient, transportError, idleTimeout, closedByComms]

theorem found (a : DisconnectReason) : (all.find? fun b => b.byte == a.byte) = some a := by cases a <;> rfl

instance : Numbered DisconnectReason := ⟨all, byte, found⟩

end DisconnectReason

inductive DownloadReason
  | bench
  | recovery
  deriving DecidableEq

namespace DownloadReason

def byte : DownloadReason → UInt8
  | bench => 1
  | recovery => 2

def all : List DownloadReason := [bench, recovery]

theorem found (a : DownloadReason) : (all.find? fun b => b.byte == a.byte) = some a := by cases a <;> rfl

instance : Numbered DownloadReason := ⟨all, byte, found⟩

end DownloadReason

inductive LinkTransport
  | ble
  | wifiLocal
  | cloud
  | usb
  deriving DecidableEq

namespace LinkTransport

def byte : LinkTransport → UInt8
  | ble => 1
  | wifiLocal => 2
  | cloud => 3
  | usb => 4

def all : List LinkTransport := [ble, wifiLocal, cloud, usb]

theorem found (a : LinkTransport) : (all.find? fun b => b.byte == a.byte) = some a := by cases a <;> rfl

instance : Numbered LinkTransport := ⟨all, byte, found⟩

end LinkTransport

inductive NetConfigOp
  | set
  | clear
  deriving DecidableEq

namespace NetConfigOp

def byte : NetConfigOp → UInt8
  | set => 1
  | clear => 2

def all : List NetConfigOp := [set, clear]

theorem found (a : NetConfigOp) : (all.find? fun b => b.byte == a.byte) = some a := by cases a <;> rfl

instance : Numbered NetConfigOp := ⟨all, byte, found⟩

end NetConfigOp

end Km43.Link
