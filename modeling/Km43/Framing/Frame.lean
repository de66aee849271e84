import Km43.Framing.Cobs
import Km43.Limits

namespace Km43.Framing

def poly : UInt16 := 0x1021
def init : UInt16 := 0xFFFF

def crcBit (crc : UInt16) : UInt16 :=
  if crc &&& 0x8000 = 0 then crc <<< 1 else (crc <<< 1) ^^^ poly

def crcByte (crc : UInt16) (byte : UInt8) : UInt16 :=
  crcBit^[8] (crc ^^^ (byte.toUInt16 <<< 8))

def crc16 (data : Bytes) : UInt16 := data.foldl crcByte init

example : crc16 [0x31, 0x32, 0x33, 0x34, 0x35, 0x36, 0x37, 0x38, 0x39] = 0x29B1 := by
  decide +kernel

def toLeBytes (v : UInt16) : Bytes := [UInt8.ofNat v.toNat, UInt8.ofNat (v.toNat / 256)]

def fromLeBytes (low high : UInt8) : UInt16 := UInt16.ofNat (low.toNat + high.toNat * 256)

theorem fromLeBytes_toLeBytes (v : UInt16) :
    fromLeBytes (UInt8.ofNat v.toNat) (UInt8.ofNat (v.toNat / 256)) = v := by
  have hlt := v.toNat_lt
  apply UInt16.toNat_inj.mp
  simp only [fromLeBytes, UInt16.toNat_ofNat', UInt8.toNat_ofNat']
  omega

open Library

def delimiter : UInt8 := 0x00
def crcBytes : ℕ := 2
def frameDelimiterBytes : ℕ := 1
def maxFrame : ℕ := 1032
def maxEncoded : ℕ := maxFrame - frameDelimiterBytes
def maxDecoded : ℕ := maxPayload + crcBytes

def maxFrameLen (payload : ℕ) : ℕ := maxEncodedLen (payload + crcBytes) + frameDelimiterBytes

theorem maxFrameLen_le : maxFrameLen maxPayload ≤ maxFrame := by decide

inductive FrameError
  | payloadTooLong
  | destinationTooSmall
  | frameTooLong
  | cobs (why : CobsError)
  | missingCrc
  | badCrc
  deriving DecidableEq

structure FrameWriter where
  body : Buffer UInt8 maxDecoded

namespace FrameWriter

def new : FrameWriter := ⟨.fill maxDecoded 0⟩

def encodeError : CobsError → FrameError
  | .destinationTooSmall => .destinationTooSmall
  | why => .cobs why

/-- The wire length written to the front of `dst`, the writer, and `dst` after the call. -/
def write (w : FrameWriter) (payload dst : Bytes) : Except FrameError ℕ × FrameWriter × Bytes :=
  if dst.length < maxFrameLen payload.length then (.error .destinationTooSmall, w, dst)
  else
    match w.body.set 0 (payload ++ toLeBytes (crc16 payload)) with
    | none => (.error .payloadTooLong, w, dst)
    | some body =>
      match encode (body.held (payload.length + crcBytes)) dst with
      | (.error why, dst) => (.error (encodeError why), ⟨body⟩, dst)
      | (.ok encoded, dst) =>
        match paste dst encoded [delimiter] with
        | none => (.error .destinationTooSmall, ⟨body⟩, dst)
        | some dst => (.ok (encoded + 1), ⟨body⟩, dst)

end FrameWriter

inductive Received
  | nothing
  | frame (envelope : Bytes)
  | dropped (why : FrameError)
  | abandoned
  deriving DecidableEq

structure FrameReader where
  encoded : Buffer UInt8 maxEncoded
  len : ℕ
  overlong : Bool
  decoded : Buffer UInt8 maxDecoded
  waiting : ℕ

def incompleteAfterMs : ℕ := 50
def u32Max : ℕ := 2 ^ 32 - 1

namespace FrameReader

def new : FrameReader := ⟨.fill maxEncoded 0, 0, false, .fill maxDecoded 0, 0⟩

def hold (r : FrameReader) (byte : UInt8) : FrameReader :=
  match r.encoded.set r.len [byte] with
  | some encoded => { r with encoded := encoded, len := r.len + 1 }
  | none => { r with overlong := true }

def takeError : CobsError → FrameError
  | .destinationTooSmall => .payloadTooLong
  | why => .cobs why

def checked (frame : Bytes) : Except FrameError Bytes :=
  let envelopeLen := frame.length - crcBytes
  match frame.drop envelopeLen with
  | [low, high] =>
    if crc16 (frame.take envelopeLen) ≠ fromLeBytes low high then .error .badCrc
    else .ok (frame.take envelopeLen)
  | _ => .error .missingCrc

def decodeInto (r : FrameReader) (body : Bytes) : FrameReader :=
  { r with decoded := ⟨(decode body r.decoded.items).2,
    (decode_length body r.decoded.items).trans r.decoded.size⟩ }

def take (r : FrameReader) (len : ℕ) : Except FrameError Bytes × FrameReader :=
  match r.encoded.get 0 len with
  | none => (.error .frameTooLong, r)
  | some body =>
    match (decode body r.decoded.items).1 with
    | .error why => (.error (takeError why), r.decodeInto body)
    | .ok filled =>
      match (r.decodeInto body).decoded.get 0 filled with
      | none => (.error .missingCrc, r.decodeInto body)
      | some frame => (checked frame, r.decodeInto body)

def push (r : FrameReader) (byte : UInt8) : FrameReader × Received :=
  if byte ≠ delimiter then (r.hold byte, .nothing)
  else
    let ended := { r with waiting := 0, len := 0, overlong := false }
    if r.overlong then (ended, .dropped .frameTooLong)
    else if r.len = 0 then (ended, .nothing)
    else
      match ended.take r.len with
      | (.ok envelope, r) => (r, .frame envelope)
      | (.error why, r) => (r, .dropped why)

def discard (r : FrameReader) : FrameReader := { r with len := 0, overlong := false, waiting := 0 }

def tick (r : FrameReader) (byte : Option UInt8) (sinceMs : ℕ) : FrameReader × Received :=
  match byte with
  | some byte => { r with waiting := 0 }.push byte
  | none =>
    let r := { r with waiting := min (r.waiting + sinceMs) u32Max }
    if r.len > 0 ∧ r.waiting ≥ incompleteAfterMs then (r.discard, .abandoned) else (r, .nothing)

end FrameReader

end Km43.Framing
