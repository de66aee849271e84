import Km43.Ble.Sender

namespace Km43.Ble

open Library

structure Active where
  id : UInt8
  expected : UInt8
  lastMs : ℕ
  deriving DecidableEq

structure BleReceiver where
  bytes : Buffer UInt8 maxPayload
  len : ℕ
  active : Option Active
  deriving DecidableEq

namespace BleReceiver

def new : BleReceiver := ⟨.fill maxPayload 0, 0, none⟩

def reset (r : BleReceiver) : BleReceiver := { r with active := none, len := 0 }

def expire (r : BleReceiver) (nowMs : ℕ) : BleReceiver :=
  match r.active with
  | some a => if nowMs < a.lastMs ∨ nowMs - a.lastMs ≥ timeoutMs then r.reset else r
  | none => r

def forId (r : BleReceiver) (id : UInt8) : BleReceiver :=
  match r.active with
  | some a => if a.id ≠ id then r.reset else r
  | none => r

def expecting (r : BleReceiver) (index : UInt8) : Option BleReceiver :=
  match r.active with
  | some a => if a.expected ≠ index then none else some r
  | none => if index ≠ 0 then none else some { r with len := 0 }

def store (r : BleReceiver) (id index : UInt8) (last : Bool) (data : Bytes) (nowMs : ℕ) :
    Except BleError Bool × BleReceiver :=
  let stop := r.len + data.length
  if last = false ∧ (index = indexMask ∨ stop ≥ maxPayload) then (.error .length, r)
  else
    match r.bytes.set r.len data with
    | none => (.error .length, r)
    | some bytes =>
      let r := { r with bytes := bytes, len := stop }
      if last then (.ok true, { r with active := none })
      else
        match nextIndex index with
        | none => (.error .sequence, r)
        | some next => (.ok false, { r with active := some ⟨id, next, nowMs⟩ })

def append (r : BleReceiver) (value : Bytes) (mtu : BleMtu) (nowMs : ℕ) :
    Except BleError Bool × BleReceiver :=
  if value.length < 3 ∨ value.length > mtu.valueLen then (.error .length, r)
  else
    match value with
    | id :: flags :: data =>
      let index := flags &&& indexMask
      let last := decide (flags &&& lastFlag ≠ 0)
      match (r.forId id).expecting index with
      | none => (.error .sequence, r.forId id)
      | some r => r.store id index last data nowMs
    | _ => (.error .length, r)

def receive (r : BleReceiver) (value : Bytes) (mtu : BleMtu) (nowMs : ℕ) :
    Except BleError (Option Bytes) × BleReceiver :=
  match (r.expire nowMs).append value mtu nowMs with
  | (.ok true, r) => (.ok (r.bytes.get 0 r.len), r)
  | (.ok false, r) => (.ok none, r)
  | (.error e, r) => (.error e, r.reset)

/-- The receiver holds `sofar` of message `id`, and takes fragment `index` next. -/
def Awaits (r : BleReceiver) (id index : UInt8) (sofar : Bytes) (nowMs : ℕ) : Prop :=
  (index = 0 ∧ sofar = [] ∧ r.active = none) ∨
    (r.active = some ⟨id, index, nowMs⟩ ∧ r.len = sofar.length ∧ r.bytes.held r.len = sofar)

theorem Awaits.expecting {r : BleReceiver} {id index : UInt8} {sofar : Bytes} {nowMs gap : ℕ}
    (h : r.Awaits id index sofar nowMs) (hg : gap < timeoutMs) :
    ∃ r', ((r.expire (nowMs + gap)).forId id).expecting index = some r' ∧ r'.len = sofar.length ∧
      r'.bytes.held r'.len = sofar := by
  rcases h with ⟨rfl, rfl, ha⟩ | ⟨ha, hl, hb⟩
  · exact ⟨{ r with len := 0 }, by simp [expire, forId, BleReceiver.expecting, ha], rfl, rfl⟩
  · have hfresh : ¬(nowMs + gap < nowMs ∨ nowMs + gap - nowMs ≥ timeoutMs) := by omega
    have he : r.expire (nowMs + gap) = r := by
      simp only [expire, ha]
      exact if_neg hfresh
    exact ⟨r, by simp [he, forId, BleReceiver.expecting, ha], hl, hb⟩

theorem receive_next {r : BleReceiver} {id index : UInt8} {sofar data : Bytes} {mtu : BleMtu}
    {nowMs gap : ℕ} (last : Bool) (h : r.Awaits id index sofar nowMs) (hg : gap < timeoutMs)
    (hd : 0 < data.length) (hv : data.length + 2 ≤ mtu.valueLen) (hi : index.toNat < 127)
    (hfit : sofar.length + data.length ≤ maxPayload)
    (hmore : last = false → sofar.length + data.length < maxPayload) :
    ∃ r', r.receive (id :: fragmentFlags index last :: data) mtu (nowMs + gap) =
        (.ok (if last then some (sofar ++ data) else none), r') ∧
      (last = true → r'.active = none) ∧
      ∀ next, last = false → nextIndex index = some next →
        r'.Awaits id next (sofar ++ data) (nowMs + gap) := by
  obtain ⟨r₁, hex, hl, hb⟩ := h.expecting hg
  obtain ⟨hmask, hlast⟩ := fragmentFlags_read (show index.toNat < 128 by omega) last
  obtain ⟨bytes, hset, hheld⟩ := r₁.bytes.set_held r₁.len data (by omega)
  obtain ⟨next, hnext, hnat⟩ := nextIndex_some (show index.toNat < 255 by omega)
  have hlong : ¬((id :: fragmentFlags index last :: data).length < 3 ∨
      (id :: fragmentFlags index last :: data).length > mtu.valueLen) := by
    simp only [List.length_cons]
    omega
  have hroom : ¬(last = false ∧ (index = indexMask ∨ r₁.len + data.length ≥ maxPayload)) := by
    rintro ⟨hlf, rfl | hge⟩
    · exact absurd hi (by decide)
    · have := hmore hlf
      omega
  have happ : (r.expire (nowMs + gap)).append (id :: fragmentFlags index last :: data) mtu
      (nowMs + gap) = r₁.store id index last data (nowMs + gap) := by
    rw [append, if_neg hlong]
    simp only [hmask, hlast, hex]
  rw [hb] at hheld
  cases last with
  | true =>
    have hget : bytes.get 0 (r₁.len + data.length) = some (sofar ++ data) := by
      rw [Buffer.get_held (Nat.zero_le _) (by omega), hheld, List.drop_zero]
    refine ⟨{ r₁ with bytes := bytes, len := r₁.len + data.length, active := none }, ?_,
      fun _ => rfl, fun _ h => by cases h⟩
    rw [receive, happ, store, if_neg hroom, hset]
    simp [hget]
  | false =>
    refine ⟨{ r₁ with bytes := bytes, len := r₁.len + data.length,
                      active := some ⟨id, next, nowMs + gap⟩ }, ?_, by simp, ?_⟩
    · rw [receive, happ, store, if_neg hroom, hset]
      simp [hnext]
    · intro next' _ hn
      rw [hnext, Option.some.injEq] at hn
      subst hn
      exact .inr ⟨rfl, by simp [hl], hheld⟩

end BleReceiver

end Km43.Ble
