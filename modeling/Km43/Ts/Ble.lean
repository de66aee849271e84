import Km43.Ble.Sender
import Mathlib.Tactic

namespace Km43.Ts

inductive Number
  | int (value : ℤ)
  | other
  deriving DecidableEq

namespace Number

def maxSafe : ℤ := 2 ^ 53 - 1

def isSafeInteger : Number → Bool
  | int value => decide (-maxSafe ≤ value ∧ value ≤ maxSafe)
  | other => false

end Number

inductive Thrown
  | rangeError
  | typeError
  deriving DecidableEq

end Km43.Ts

namespace Km43.Ts.Ble

open Library Km43.Ble

inductive BleFailure
  | mtu
  | valueLimit
  | length
  | sequence
  | busy
  | buffer
  | idle
  deriving DecidableEq

inductive BleReceiveResult
  | pending
  | message (bytes : Bytes)
  | rejected (status : BleFailure)
  deriving DecidableEq

def bleValueLength : Number → Option ℕ
  | .int mtu => if (minMtu : ℤ) ≤ mtu ∧ mtu ≤ maxMtu then some (min (mtu.toNat - 3) maxValue) else none
  | .other => none

structure BleValueLimit where
  valueLength : ℕ
  bounded : minMtu - 3 ≤ valueLength ∧ valueLength ≤ maxValue

def BleValueLimit.fromValueLength : Number → Option BleValueLimit
  | .int length =>
    if h : minMtu - 3 ≤ length.toNat ∧ length.toNat ≤ maxValue then some ⟨length.toNat, h⟩ else none
  | .other => none

def BleValueLimit.fromMtu (mtu : Number) (selectedLength : Option Number) : Option BleValueLimit :=
  match bleValueLength mtu with
  | none => none
  | some maximum =>
    match selectedLength.getD (.int maximum) with
    | .other => none
    | .int selected => if selected > maximum then none else fromValueLength (.int selected)

structure Active where
  id : ℕ
  index : ℕ
  startedAt : ℤ
  deriving DecidableEq

structure BleReceiver where
  bytes : Buffer UInt8 maxPayload
  length : ℕ
  active : Option Active
  deriving DecidableEq

namespace BleReceiver

def new : BleReceiver := ⟨.fill maxPayload 0, 0, none⟩

def reset (r : BleReceiver) : BleReceiver := { r with active := none, length := 0 }

def expire (r : BleReceiver) (nowMs : Number) : BleReceiver :=
  match r.active with
  | none => r
  | some a =>
    match nowMs with
    | .other => r.reset
    | .int now =>
      if nowMs.isSafeInteger = false ∨ now < a.startedAt ∨ now - a.startedAt ≥ timeoutMs then r.reset
      else r

def reject (r : BleReceiver) (status : BleFailure) : Except Thrown BleReceiveResult × BleReceiver :=
  (.ok (.rejected status), r.reset)

def forId (r : BleReceiver) (id : ℕ) : BleReceiver :=
  match r.active with
  | some a => if a.id ≠ id then r.reset else r
  | none => r

def expected (r : BleReceiver) : ℕ := (r.active.map Active.index).getD 0

def store (r : BleReceiver) (id index : ℕ) (last : Bool) (data : Bytes) (nowMs : ℤ) :
    Except Thrown BleReceiveResult × BleReceiver :=
  let stop := r.length + data.length
  if stop > maxPayload ∨ (last = false ∧ (stop = maxPayload ∨ index = indexMask.toNat)) then
    r.reject .length
  else
    match r.bytes.set r.length data with
    | none => (.error .rangeError, r)
    | some bytes =>
      if last then
        (.ok (.message (bytes.held stop)), { bytes := bytes, length := stop, active := none })
      else
        (.ok .pending, { bytes := bytes, length := stop, active := some ⟨id, index + 1, nowMs⟩ })

def accept (r : BleReceiver) (value : Bytes) (limit : ℕ) (nowMs : Number) :
    Except Thrown BleReceiveResult × BleReceiver :=
  match nowMs, value with
  | .int now, id :: flags :: data =>
    if nowMs.isSafeInteger = false ∨ now < 0 ∨ value.length < 3 ∨ value.length > limit then
      r.reject .length
    else
      let index := flags.toNat &&& indexMask.toNat
      let last := decide (flags.toNat &&& lastFlag.toNat ≠ 0)
      let r := r.forId id.toNat
      if index ≠ r.expected then r.reject .sequence
      else
        let r := if r.active = none then { r with length := 0 } else r
        r.store id.toNat index last data now
  | _, _ => r.reject .length

def receive (r : BleReceiver) (value : Bytes) (mtu nowMs : Number) :
    Except Thrown BleReceiveResult × BleReceiver :=
  let r := r.expire nowMs
  match bleValueLength mtu with
  | none => r.reject .mtu
  | some limit => r.accept value limit nowMs

end BleReceiver

structure Pending where
  length : ℕ
  offset : ℕ
  index : ℕ
  limit : ℕ
  offered : Option ℕ
  deriving DecidableEq

structure BleSender where
  bytes : Buffer UInt8 maxPayload
  nextId : ℕ
  pending : Option Pending
  deriving DecidableEq

namespace BleSender

def new : BleSender := ⟨.fill maxPayload 0, 0, none⟩

def enqueue (s : BleSender) (message : Bytes) (limit : BleValueLimit) :
    Except Thrown (Except BleFailure Unit) × BleSender :=
  match s.pending with
  | some _ => (.ok (.error .busy), s)
  | none =>
    if message.length = 0 ∨ message.length > maxPayload then (.ok (.error .length), s)
    else
      match s.bytes.set 0 message with
      | none => (.error .rangeError, s)
      | some bytes =>
        (.ok (.ok ()), { s with
          bytes := bytes
          pending := some ⟨message.length, 0, 0, limit.valueLength, none⟩ })

def fragment (s : BleSender) (out : Bytes) :
    Except Thrown (Except BleFailure ℕ) × BleSender × Bytes :=
  match s.pending with
  | none => (.ok (.error .idle), s, out)
  | some p =>
    let stop := min p.length (p.offset + p.limit - 2)
    let length := stop - p.offset + 2
    if out.length < length then (.ok (.error .buffer), s, out)
    else
      let flags := p.index ||| if stop = p.length then lastFlag.toNat else 0
      let head := [UInt8.ofNat s.nextId, UInt8.ofNat flags]
      match (paste out 0 head).bind fun out => paste out 2 ((s.bytes.held stop).drop p.offset) with
      | none => (.error .rangeError, s, out)
      | some out =>
        (.ok (.ok length), { s with pending := some { p with offered := some stop } }, out)

def accepted (s : BleSender) : Except BleFailure Unit × BleSender :=
  match s.pending with
  | none => (.error .idle, s)
  | some p =>
    match p.offered with
    | none => (.error .idle, s)
    | some stop =>
      if stop = p.length then (.ok (), { s with pending := none, nextId := (s.nextId + 1) % 256 })
      else
        (.ok (), { s with
          pending := some { p with offset := stop, index := p.index + 1, offered := none } })

def reset (s : BleSender) : BleSender := { s with pending := none, nextId := 0 }

end BleSender

end Km43.Ts.Ble
