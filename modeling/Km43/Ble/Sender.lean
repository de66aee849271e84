import Km43.Limits
import Km43.Library.Slice

namespace Km43.Ble

open Library

def lastFlag : UInt8 := 128
def indexMask : UInt8 := 127
def minMtu : ℕ := 23
def maxMtu : ℕ := 517
def maxValue : ℕ := 512
def timeoutMs : ℕ := 5000

inductive BleError
  | mtu
  | valueLimit
  | length
  | sequence
  | busy
  | buffer
  | idle
  deriving DecidableEq

structure BleMtu where
  mtu : ℕ
  supported : minMtu ≤ mtu ∧ mtu ≤ maxMtu
  deriving DecidableEq

structure BleValueLimit where
  valueLen : ℕ
  bounded : minMtu - 3 ≤ valueLen ∧ valueLen ≤ maxValue
  deriving DecidableEq

def BleMtu.new (mtu : UInt16) : Except BleError BleMtu :=
  if h : minMtu ≤ mtu.toNat ∧ mtu.toNat ≤ maxMtu then .ok ⟨mtu.toNat, h⟩ else .error .mtu

def BleMtu.valueLen (mtu : BleMtu) : ℕ := min (mtu.mtu - 3) maxValue

def BleValueLimit.new (valueLen : ℕ) : Except BleError BleValueLimit :=
  if h : minMtu - 3 ≤ valueLen ∧ valueLen ≤ maxValue then .ok ⟨valueLen, h⟩ else .error .valueLimit

theorem BleMtu.valueLen_bounded (mtu : BleMtu) :
    minMtu - 3 ≤ mtu.valueLen ∧ mtu.valueLen ≤ maxValue := by
  have h := mtu.supported
  simp only [BleMtu.valueLen, minMtu, maxValue] at h ⊢
  omega

def BleMtu.valueLimit (mtu : BleMtu) : BleValueLimit := ⟨mtu.valueLen, mtu.valueLen_bounded⟩

def BleMtu.select (mtu : BleMtu) (valueLen : ℕ) : Except BleError BleValueLimit :=
  if valueLen > mtu.valueLen then .error .valueLimit else BleValueLimit.new valueLen

def nextIndex (index : UInt8) : Option UInt8 := if index = 255 then none else some (index + 1)

theorem nextIndex_some {index : UInt8} (h : index.toNat < 255) :
    ∃ next, nextIndex index = some next ∧ next.toNat = index.toNat + 1 := by
  have hne : index ≠ 255 := by rintro rfl; simp at h
  refine ⟨index + 1, if_neg hne, ?_⟩
  rw [UInt8.toNat_add, UInt8.toNat_one]
  omega

def fragmentFlags (index : UInt8) (last : Bool) : UInt8 := index ||| if last then lastFlag else 0

theorem fragmentFlags_read {index : UInt8} (h : index.toNat < 128) (last : Bool) :
    fragmentFlags index last &&& indexMask = index ∧
      decide (fragmentFlags index last &&& lastFlag ≠ 0) = last := by
  have hall : ∀ i : Fin 128, ∀ last : Bool,
      fragmentFlags (UInt8.ofNat i) last &&& indexMask = UInt8.ofNat i ∧
        decide (fragmentFlags (UInt8.ofNat i) last &&& lastFlag ≠ 0) = last := by decide
  simpa using hall ⟨index.toNat, h⟩ last

structure BlePending where
  len : ℕ
  offset : ℕ
  index : UInt8
  limit : BleValueLimit
  offered : Option ℕ
  deriving DecidableEq

def BlePending.stop (p : BlePending) : ℕ := min (p.offset + (p.limit.valueLen - 2)) p.len

structure BleSender where
  bytes : Buffer UInt8 maxPayload
  pending : Option BlePending
  nextId : UInt8
  deriving DecidableEq

namespace BleSender

def new : BleSender := ⟨.fill maxPayload 0, none, 0⟩

def enqueue (s : BleSender) (message : Bytes) (limit : BleValueLimit) :
    Except BleError Unit × BleSender :=
  match s.pending with
  | some _ => (.error .busy, s)
  | none =>
    if message = [] ∨ message.length > maxPayload then (.error .length, s)
    else
      match s.bytes.set 0 message with
      | none => (.error .length, s)
      | some bytes =>
        (.ok (), { s with bytes := bytes, pending := some ⟨message.length, 0, 0, limit, none⟩ })

def fragment (s : BleSender) (out : Bytes) : Except BleError ℕ × BleSender × Bytes :=
  match s.pending with
  | none => (.error .idle, s, out)
  | some p =>
    match s.bytes.get p.offset p.stop with
    | none => (.error .length, s, out)
    | some data =>
      let value := s.nextId :: fragmentFlags p.index (decide (p.stop = p.len)) :: data
      match paste out 0 value with
      | none => (.error .buffer, s, out)
      | some out =>
        (.ok value.length, { s with pending := some { p with offered := some p.stop } }, out)

def accepted (s : BleSender) : Except BleError Unit × BleSender :=
  match s.pending with
  | none => (.error .idle, s)
  | some p =>
    match p.offered with
    | none => (.error .idle, s)
    | some stop =>
      if stop = p.len then (.ok (), { s with pending := none, nextId := (nextIndex s.nextId).getD 0 })
      else
        let p := { p with offered := none, offset := stop }
        match nextIndex p.index with
        | none => (.error .sequence, { s with pending := some p })
        | some next => (.ok (), { s with pending := some { p with index := next } })

def reset (s : BleSender) : BleSender := { s with pending := none, nextId := 0 }

end BleSender

/-- The sender is past `offset` bytes of the message in its slot, at fragment `index`. -/
structure BlePending.Holds (p : BlePending) (bytes : Buffer UInt8 maxPayload) (message : Bytes) :
    Prop where
  len : p.len = message.length
  fits : message.length ≤ maxPayload
  stored : bytes.held p.len = message
  offset : p.offset < p.len
  index : 18 * p.index.toNat ≤ p.offset
  offered : ∀ stop, p.offered = some stop → stop = p.stop

theorem BlePending.limit_room (p : BlePending) : 18 ≤ p.limit.valueLen - 2 := by
  have h := p.limit.bounded
  simp only [minMtu] at h
  omega

namespace BlePending.Holds

variable {p : BlePending} {bytes : Buffer UInt8 maxPayload} {message : Bytes}

theorem index_lt (h : p.Holds bytes message) : p.index.toNat < 57 := by
  have hi := h.index
  have ho := h.offset
  have hl := h.len
  have hf := h.fits
  simp only [maxPayload] at hf
  omega

theorem stop_bounds (h : p.Holds bytes message) : p.offset < p.stop ∧ p.stop ≤ p.len := by
  have hr := p.limit_room
  have ho := h.offset
  simp only [BlePending.stop]
  omega

theorem data (h : p.Holds bytes message) :
    bytes.get p.offset p.stop = some ((message.take p.stop).drop p.offset) := by
  obtain ⟨hlt, hle⟩ := h.stop_bounds
  have hfit : p.stop ≤ maxPayload := hle.trans (h.len.trans_le h.fits)
  rw [Buffer.get_held hlt.le hfit, ← bytes.held_held hle, h.stored]

theorem offer (h : p.Holds bytes message) : { p with offered := some p.stop }.Holds bytes message :=
  { h with offered := fun _ hs => (Option.some.inj hs).symm }

theorem next (h : p.Holds bytes message) (hlast : p.stop ≠ p.len) :
    ∃ next, nextIndex p.index = some next ∧ 18 * next.toNat ≤ p.stop ∧
      { p with offered := none, offset := p.stop, index := next }.Holds bytes message := by
  obtain ⟨next, hn, hnat⟩ := nextIndex_some (show p.index.toNat < 255 from by have := h.index_lt; omega)
  have hr := p.limit_room
  have hb := h.stop_bounds
  have hi : 18 * next.toNat ≤ p.stop := by
    have hidx := h.index
    simp only [BlePending.stop] at hb hlast ⊢
    omega
  exact ⟨next, hn, hi, h.len, h.fits, h.stored, lt_of_le_of_ne hb.2 hlast, hi, by simp⟩

end BlePending.Holds

end Km43.Ble
