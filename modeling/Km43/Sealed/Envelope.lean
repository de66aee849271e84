import Km43.Cbor.Writer

namespace Km43.Sealed

open Library Cbor

inductive MessageType
  | discover
  | discoverResponse
  | hello
  | helloResponse
  | subscribe
  | subscribeResponse
  | eventResponse
  | readLog
  | readLogResponse
  | getConfig
  | getConfigResponse
  | setConfig
  | setConfigResponse
  | command
  | commandResponse
  | firmware
  | firmwareResponse
  | time
  | timeResponse
  | pair
  | pairResponse
  | goodbye
  | goodbyeResponse
  | inventory
  | inventoryResponse
  | readings
  | readingsResponse
  | concerns
  | concernsResponse
  | history
  | historyResponse
  | wifiScan
  | wifiScanResponse
  | wifiStatus
  | wifiStatusResponse
  | enrol
  | enrolResponse
  | vouch
  | vouchResponse
  | invite
  | inviteResponse
  | approve
  | approveResponse
  | remove
  | removeResponse
  | clients
  | clientsResponse
  | errorResponse
  deriving DecidableEq

def MessageType.byte : MessageType → UInt8
  | discover => 0x00
  | discoverResponse => 0x80
  | hello => 0x01
  | helloResponse => 0x81
  | subscribe => 0x03
  | subscribeResponse => 0x83
  | eventResponse => 0x04
  | readLog => 0x05
  | readLogResponse => 0x85
  | getConfig => 0x06
  | getConfigResponse => 0x86
  | setConfig => 0x07
  | setConfigResponse => 0x87
  | command => 0x08
  | commandResponse => 0x88
  | firmware => 0x09
  | firmwareResponse => 0x89
  | time => 0x0A
  | timeResponse => 0x8A
  | pair => 0x0B
  | pairResponse => 0x8B
  | goodbye => 0x0C
  | goodbyeResponse => 0x8C
  | inventory => 0x0D
  | inventoryResponse => 0x8D
  | readings => 0x0E
  | readingsResponse => 0x8E
  | concerns => 0x0F
  | concernsResponse => 0x8F
  | history => 0x10
  | historyResponse => 0x90
  | wifiScan => 0x11
  | wifiScanResponse => 0x91
  | wifiStatus => 0x12
  | wifiStatusResponse => 0x92
  | enrol => 0x13
  | enrolResponse => 0x93
  | vouch => 0x14
  | vouchResponse => 0x94
  | invite => 0x15
  | inviteResponse => 0x95
  | approve => 0x16
  | approveResponse => 0x96
  | remove => 0x17
  | removeResponse => 0x97
  | clients => 0x18
  | clientsResponse => 0x98
  | errorResponse => 0xFF

inductive SessionId
  | none
  | assigned (raw : UInt16) (nonzero : raw ≠ 0)

def SessionId.ofRaw (raw : UInt16) : SessionId := if h : raw = 0 then .none else .assigned raw h

def SessionId.raw : SessionId → UInt16
  | none => 0
  | assigned raw _ => raw

theorem SessionId.ofRaw_raw (session : SessionId) : ofRaw session.raw = session := by
  cases session with
  | none => rfl
  | assigned raw nonzero => exact dif_neg nonzero

theorem SessionId.raw_inj {a b : SessionId} : a.raw = b.raw ↔ a = b := by
  constructor
  · intro h
    rw [← ofRaw_raw a, h, ofRaw_raw]
  · rintro rfl
    rfl

instance : DecidableEq SessionId := fun _ _ => decidable_of_iff _ SessionId.raw_inj

structure Header where
  kind : MessageType
  session : SessionId
  reqId : UInt32
  deriving DecidableEq

def elements : ℕ := 4

def Header.write (header : Header) (keys : ℕ) : CborWriter.Write Unit := do
  CborWriter.array elements
  CborWriter.u64 header.kind.byte.toNat
  CborWriter.u64 header.session.raw.toNat
  CborWriter.u64 header.reqId.toNat
  CborWriter.map keys

end Km43.Sealed
