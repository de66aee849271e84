import Km43.Link.BodiesTrip
import Km43.Link.LinkUpTrip

namespace Km43.Link

open Library Cbor CborReader CborWriter Identity

inductive LinkUpKey
  | major
  | minor
  | role
  | fw
  | bootId
  | hw
  | netVersion
  | deviceId
  | netOrigin
  deriving DecidableEq

namespace LinkUpKey

def all : List LinkUpKey := [major, minor, role, fw, bootId, hw, netVersion, deviceId, netOrigin]

theorem keyList : KeyList all := ⟨by decide, fun k => by cases k <;> decide, by decide⟩

instance : Listed LinkUpKey := ⟨all, keyList⟩

def field : LinkUpKey → LinkField
  | major => .protocolMajor
  | minor => .protocolMinor
  | role => .role
  | fw => .fw
  | bootId => .bootId
  | hw => .hw
  | netVersion => .netVersion
  | deviceId => .deviceId
  | netOrigin => .netOrigin

end LinkUpKey

theorem Side.number_of (raw : UInt8) (side : Side) (h : Side.of raw = .ok side) : side.number = raw := by
  unfold Side.of at h
  split_ifs at h with hcontroller hcomms
  · obtain rfl := Except.ok.inj h
    exact hcontroller.symm
  · obtain rfl := Except.ok.inj h
    exact hcomms.symm

namespace LinkUp

def Value : LinkUpKey → Type
  | .major | .minor => UInt8
  | .role => Side
  | .fw | .hw => Str
  | .bootId | .netVersion => UInt32
  | .deviceId => DeviceId
  | .netOrigin => NetOrigin

def codec : ∀ k, Codec LinkError (Value k)
  | .major => .u8
  | .minor => .u8
  | .role => Codec.u8.checked Side.of Side.number Side.number_of
  | .fw => capped .fw
  | .bootId => .u32
  | .hw => capped .hw
  | .netVersion => .u32
  | .deviceId => .fixed 16 .deviceIdNotSixteen
  | .netOrigin => .fixed 8 .originNotEight

def table : Table LinkError LinkUpKey := .ofCodecs codec fun k => .duplicate k.field

def ofTable (s : table.Slots) : LinkUpSlots :=
  ⟨s .major, s .minor, s .role, s .fw, s .bootId, s .hw, s .netVersion, s .deviceId, s .netOrigin⟩

theorem readText_eq (key : LinkField) : LinkUpSlots.readText key = (capped key).read := by
  change LinkUpSlots.readText key = checkedRead textValue (boundedText key)
  unfold LinkUpSlots.readText checkedRead
  refine congrArg _ (funext fun text => ?_)
  unfold boundedText
  cases bounded key text.raw <;> rfl

theorem known (k : LinkUpKey) (s : table.Slots) : LinkUpSlots.step (BodyKey.number k) (ofTable s) =
    slotField (table.read k) (table.twice k) (s k) fun slot => ofTable (Function.update s k slot) := by
  cases k with
  | fw =>
    change slotField (LinkUpSlots.readText .fw) _ _ _ = _
    rw [readText_eq]
    rfl
  | hw =>
    change slotField (LinkUpSlots.readText .hw) _ _ _ = _
    rw [readText_eq]
    rfl
  | major => rfl
  | minor => rfl
  | role => rfl
  | bootId => rfl
  | netVersion => rfl
  | deviceId => rfl
  | netOrigin => rfl

theorem unknown (n : ℤ) (s : table.Slots) (h : ¬table.Known n) :
    LinkUpSlots.step n (ofTable s) = passOver (ofTable s) := by
  unfold LinkUpSlots.step
  split
  · exact absurd ⟨.major, rfl⟩ h
  · exact absurd ⟨.minor, rfl⟩ h
  · exact absurd ⟨.role, rfl⟩ h
  · exact absurd ⟨.fw, rfl⟩ h
  · exact absurd ⟨.bootId, rfl⟩ h
  · exact absurd ⟨.hw, rfl⟩ h
  · exact absurd ⟨.netVersion, rfl⟩ h
  · exact absurd ⟨.deviceId, rfl⟩ h
  · exact absurd ⟨.netOrigin, rfl⟩ h
  · rfl

theorem records : table.Records ofTable LinkUpSlots.step := ⟨known, unknown⟩

theorem decode_slots (e : LinkEnvelope) : decode e = bodySlots table e >>= fun s => (ofTable s).up :=
  records_slots records LinkUpSlots.up e

def slots (up : LinkUp) : ∀ k, Option (Value k)
  | .major => some up.version.major
  | .minor => some up.version.minor
  | .role => some up.role
  | .fw => some up.fw
  | .bootId => some up.bootId
  | .hw => some up.hw
  | .netVersion => up.netVersion
  | .deviceId => up.deviceId
  | .netOrigin => up.netOrigin

theorem up_iff (s : table.Slots) (up : LinkUp) : (ofTable s).up = .ok up ↔ s = up.slots ∧ up.sidesAgree = .ok () := by
  constructor
  · intro h
    refine ⟨?_, LinkUpSlots.up_ok h⟩
    obtain ⟨major, hmajor, h⟩ := bind_ok.mp h
    obtain ⟨minor, hminor, h⟩ := bind_ok.mp h
    obtain ⟨role, hrole, h⟩ := bind_ok.mp h
    obtain ⟨fw, hfw, h⟩ := bind_ok.mp h
    obtain ⟨bootId, hboot, h⟩ := bind_ok.mp h
    obtain ⟨hw, hhw, h⟩ := bind_ok.mp h
    obtain ⟨⟨⟩, -, h⟩ := bind_ok.mp h
    cases h
    funext k
    cases k with
    | major => exact slotRequired_ok.mp hmajor
    | minor => exact slotRequired_ok.mp hminor
    | role => exact slotRequired_ok.mp hrole
    | fw => exact slotRequired_ok.mp hfw
    | bootId => exact slotRequired_ok.mp hboot
    | hw => exact slotRequired_ok.mp hhw
    | netVersion => rfl
    | deviceId => rfl
    | netOrigin => rfl
  · rintro ⟨rfl, hsides⟩
    exact LinkUpSlots.full_up hsides

theorem calls_eq (up : LinkUp) : up.calls = entryCalls (cellCalls codec up.slots) := by
  obtain ⟨version, role, fw, bootId, hw, netVersion, deviceId, netOrigin⟩ := up
  cases netVersion <;> cases deviceId <;> cases netOrigin <;> rfl

theorem keys_eq (up : LinkUp) : (cellCalls codec up.slots).length = (UInt64.ofNat up.keys).toNat := by
  rw [keys_toNat]
  obtain ⟨version, role, fw, bootId, hw, netVersion, deviceId, netOrigin⟩ := up
  cases netVersion <;> cases deviceId <;> cases netOrigin <;> rfl

theorem write_iff (up : LinkUp) (header : LinkHeader) (dst : ℕ) (out : Bytes) : up.write header dst = .ok out ↔
    up.checks = .ok () ∧ encodeBody (linkBody header (UInt64.ofNat up.keys) (cellCalls codec up.slots) :
      Encoder LinkError Unit) dst = .ok out := by
  have htells := @linkBody_tells LinkError _ _ _ header (UInt64.ofNat up.keys) (cellCalls codec up.slots)
  rw [← calls_eq] at htells
  constructor
  · intro h
    have hchecks := (encodeBody_check.mp h).1
    exact ⟨hchecks, (encodeBody_tells (encodeInto_tells hchecks header) htells).mp h⟩
  · rintro ⟨hchecks, h⟩
    exact (encodeBody_tells (encodeInto_tells hchecks header) htells).mpr h

theorem maySend {up : LinkUp} (hfw : bounded .fw up.fw.raw = .ok ()) (hhw : bounded .hw up.hw.raw = .ok ()) :
    MaySend codec up.slots := by
  intro k a ha
  cases k with
  | fw =>
    obtain rfl := Option.some.inj ha
    exact capped_may hfw
  | hw =>
    obtain rfl := Option.some.inj ha
    exact capped_may hhw
  | role => exact ⟨trivial, Side.of_number a⟩
  | deviceId => exact Codec.fixed_may (by norm_num) _ (a : DeviceId)
  | netOrigin => exact Codec.fixed_may (by norm_num) _ (a : NetOrigin)
  | major => trivial
  | minor => trivial
  | bootId => trivial
  | netVersion => trivial

theorem laws : LinkLaws (fun _ => True) (fun up => up.checks = .ok ()) (fun up => Firmware.conforms up.fw.raw) Eq
    write decode table.Known [1, 2, 3, 4, 5, 6] := by
  apply codecLaws decode_slots write_iff keys_eq ?_ up_iff ?_ ?_ [.major, .minor, .role, .fw, .bootId, .hw]
  · intro up k hk
    cases k with
    | netVersion => simp at hk
    | deviceId => simp at hk
    | netOrigin => simp at hk
    | major => rfl
    | minor => rfl
    | role => rfl
    | fw => rfl
    | bootId => rfl
    | hw => rfl
  · intro up h
    obtain ⟨hfw, -, hhw, -⟩ := checks_ok.mp h
    exact maySend hfw hhw
  · intro up h
    exact (checks_ok.mp h).2.2.2
  · intro up hsides hconforms hmay
    exact checks_ok.mpr ⟨capped_bounded (hmay .fw up.fw rfl), versioned_ok.mpr hconforms,
      capped_bounded (hmay .hw up.hw rfl), hsides⟩

theorem sidesAgree_iff (up : LinkUp) : up.sidesAgree = .ok () ↔
    (up.role = .controller ∧ up.netVersion = none ∧ up.netOrigin = none ∧ up.deviceId.isSome) ∨
      (up.role = .comms ∧ up.deviceId = none ∧
        (up.netOrigin.isSome → ∃ version, up.netVersion = some version ∧ version ≠ 0)) := by
  obtain ⟨version, role, fw, bootId, hw, netVersion, deviceId, netOrigin⟩ := up
  cases role <;> cases netVersion <;> cases deviceId <;> cases netOrigin <;> simp [sidesAgree]

end LinkUp

end Km43.Link
