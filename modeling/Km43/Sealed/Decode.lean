import Km43.Cbor.Takes
import Km43.Sealed.Window

namespace Km43.Sealed

open Library Cbor CborReader

def MessageType.ofByte (byte : UInt8) : Option MessageType :=
  if byte = 0x00 then some .discover
  else if byte = 0x80 then some .discoverResponse
  else if byte = 0x01 then some .hello
  else if byte = 0x81 then some .helloResponse
  else if byte = 0x03 then some .subscribe
  else if byte = 0x83 then some .subscribeResponse
  else if byte = 0x04 then some .eventResponse
  else if byte = 0x05 then some .readLog
  else if byte = 0x85 then some .readLogResponse
  else if byte = 0x06 then some .getConfig
  else if byte = 0x86 then some .getConfigResponse
  else if byte = 0x07 then some .setConfig
  else if byte = 0x87 then some .setConfigResponse
  else if byte = 0x08 then some .command
  else if byte = 0x88 then some .commandResponse
  else if byte = 0x09 then some .firmware
  else if byte = 0x89 then some .firmwareResponse
  else if byte = 0x0A then some .time
  else if byte = 0x8A then some .timeResponse
  else if byte = 0x0B then some .pair
  else if byte = 0x8B then some .pairResponse
  else if byte = 0x0C then some .goodbye
  else if byte = 0x8C then some .goodbyeResponse
  else if byte = 0x0D then some .inventory
  else if byte = 0x8D then some .inventoryResponse
  else if byte = 0x0E then some .readings
  else if byte = 0x8E then some .readingsResponse
  else if byte = 0x0F then some .concerns
  else if byte = 0x8F then some .concernsResponse
  else if byte = 0x10 then some .history
  else if byte = 0x90 then some .historyResponse
  else if byte = 0x11 then some .wifiScan
  else if byte = 0x91 then some .wifiScanResponse
  else if byte = 0x12 then some .wifiStatus
  else if byte = 0x92 then some .wifiStatusResponse
  else if byte = 0x13 then some .enrol
  else if byte = 0x93 then some .enrolResponse
  else if byte = 0x14 then some .vouch
  else if byte = 0x94 then some .vouchResponse
  else if byte = 0x15 then some .invite
  else if byte = 0x95 then some .inviteResponse
  else if byte = 0x16 then some .approve
  else if byte = 0x96 then some .approveResponse
  else if byte = 0x17 then some .remove
  else if byte = 0x97 then some .removeResponse
  else if byte = 0x18 then some .clients
  else if byte = 0x98 then some .clientsResponse
  else if byte = 0xFF then some .errorResponse
  else none

theorem MessageType.ofByte_byte (kind : MessageType) : ofByte kind.byte = some kind := by
  cases kind <;> decide

theorem MessageType.byte_inj {a b : MessageType} (h : a.byte = b.byte) : a = b := by
  apply Option.some.inj
  rw [← ofByte_byte a, h, ofByte_byte]

inductive EnvelopeError
  | wrongLength
  | unknownType (byte : UInt8)
  | linkLocalType (byte : UInt8)
  | cbor (why : CborError)
  deriving DecidableEq

instance : FromCbor EnvelopeError := ⟨.cbor⟩

def isLinkLocal (opcode : UInt8) : Bool :=
  let request := opcode &&& ~~~0x80
  0x60 ≤ request && request ≤ 0x7E

def clientType (opcode : UInt8) : Except EnvelopeError MessageType :=
  if isLinkLocal opcode then .error (.linkLocalType opcode)
  else
    match MessageType.ofByte opcode with
    | some kind => .ok kind
    | none => .error (.unknownType opcode)

theorem clientType_byte (kind : MessageType) : clientType kind.byte = .ok kind := by
  cases kind <;> decide

structure Envelope where
  header : Header
  keys : ℕ
  body : CborReader

def Envelope.fourElements : Read EnvelopeError Unit := do
  let length ← ask array
  if length ≠ elements then throw .wrongLength
  pure ()

def Envelope.read : Read EnvelopeError (Header × ℕ) := do
  let opcode ← ask u8
  let kind ← clientType opcode
  let session ← ask u16
  let reqId ← ask u32
  let keys ← ask map
  pure (⟨kind, .ofRaw session, reqId⟩, keys)

def Envelope.decode (bytes : Bytes) : Except EnvelopeError Envelope := do
  let (_, cbor) ← fourElements (CborReader.new bytes)
  let ((header, keys), body) ← read cbor
  .ok ⟨header, keys, body⟩

instance : FromCbor SealError := ⟨.cbor⟩

def SealedKey.of (number : ℤ) : Option SealedKey :=
  if number = 1 then some .sealed else if number = 2 then some .nonce else none

namespace SealedFrame

structure Slots where
  nonce : Option UInt64
  ciphertext : Option Bytes

def Slots.empty : Slots := ⟨none, none⟩

/-- Exactly the keys of the direction: one beside the ciphertext would sit outside the tag. -/
def Slots.step (direction : Direction) (number : ℤ) (s : Slots) : Read SealError Slots :=
  match SealedKey.of number with
  | none => throw (.unknownKey number)
  | some .sealed => slotField (ask bytesValue) (.duplicate .sealed) s.ciphertext fun slot =>
      { s with ciphertext := slot }
  | some .nonce =>
    if direction = .request then throw (.unknownKey number)
    else slotField (UInt64.ofNat <$> ask u64) (.duplicate .nonce) s.nonce fun slot =>
      { s with nonce := slot }

def Slots.nonceOf (s : Slots) (header : Header) : Direction → Except SealError UInt64
  | .request => .ok header.reqId.toUInt64
  | .controller => slotRequired (.missing .nonce) s.nonce

def decode (envelope : Envelope) : Except SealError SealedFrame := do
  let direction ← Direction.check envelope.header
  let (slots, body) ← pairLoop (Slots.step direction) envelope.keys .empty envelope.body
  body.finish.mapError FromCbor.cbor
  let nonce ← slots.nonceOf envelope.header direction
  let ciphertext ← slotRequired (.missing .sealed) slots.ciphertext
  .ok ⟨envelope.header, nonce, ciphertext⟩

end SealedFrame

def calls (header : Header) (carried : Option UInt64) (sealed : Bytes) : List Call :=
  [.array 4, .u64 header.kind.byte.toUInt64, .u64 header.session.raw.toUInt64,
    .u64 header.reqId.toUInt64, .map (if carried.isSome then 2 else 1)] ++
    ([.key 1, .fill sealed] ++ carried.toList.flatMap fun nonce => [.key 2, .u64 nonce])

theorem Envelope.read_takes (header : Header) (keys : UInt64) :
    Takes (do fourElements; read)
      [.array 4, .u64 header.kind.byte.toUInt64, .u64 header.session.raw.toUInt64,
        .u64 header.reqId.toUInt64, .map keys] (header, keys.toNat) := by
  have hfour : Takes fourElements [.array 4] () := (Takes.array 4).bind (.pure ())
  have hread : Takes read [.u64 header.kind.byte.toUInt64, .u64 header.session.raw.toUInt64,
      .u64 header.reqId.toUInt64, .map keys] (header, keys.toNat) := by
    have hpure : Takes (pure (⟨header.kind, .ofRaw header.session.raw, header.reqId⟩, keys.toNat) :
        Read EnvelopeError (Header × ℕ)) [] (header, keys.toNat) := by
      rw [SessionId.ofRaw_raw]
      exact .pure _
    exact (Takes.u8 _).bind ((Takes.check (clientType_byte header.kind)).bind ((Takes.u16 _).bind
      ((Takes.u32 _).bind ((Takes.map keys).bind hpure))))
  exact hfour.bind hread

def carries : Direction → UInt64 → Option UInt64
  | .request, _ => none
  | .controller, nonce => some nonce

theorem SealedFrame.slots_takes (direction : Direction) (nonce : UInt64) (sealed : Bytes) :
    Takes (pairLoop (Slots.step direction) (if (carries direction nonce).isSome then 2 else 1) .empty)
      ([.key 1, .fill sealed] ++ (carries direction nonce).toList.flatMap fun n => [.key 2, .u64 n])
      ⟨carries direction nonce, some sealed⟩ := by
  have hsealed : Takes (Slots.step direction (1 : Int64).toInt .empty) [.fill sealed] ⟨none, some sealed⟩ :=
    .slotField (.filled sealed)
  cases direction with
  | request => exact .pairs hsealed .pairsDone
  | controller =>
    have hnonce : Takes (Slots.step .controller (2 : Int64).toInt ⟨none, some sealed⟩) [.u64 nonce]
        ⟨some nonce, some sealed⟩ := .slotField (.word nonce)
    exact .pairs hsealed (.pairs hnonce .pairsDone)

end Km43.Sealed
