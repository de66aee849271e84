import Km43.Link.LinkUp

namespace Km43.Link

open Library Cbor CborReader Sealed Identity

namespace LinkUp

def calls (up : LinkUp) : List Call :=
  [.key 1, .u64 up.version.major.toUInt64, .key 2, .u64 up.version.minor.toUInt64, .key 3,
    .u64 up.role.number.toUInt64, .key 4, .text up.fw, .key 5, .u64 up.bootId.toUInt64, .key 6, .text up.hw] ++
  (up.netVersion.toList.flatMap fun version => [.key 7, .u64 version.toUInt64]) ++
  (up.deviceId.toList.flatMap fun deviceId => [.key 8, .bytes deviceId.toList]) ++
  up.netOrigin.toList.flatMap fun origin => [.key 9, .bytes origin.toList]

variable {up : LinkUp} {header : LinkHeader} {dst : ℕ} {bytes : Bytes}

theorem keys_toNat (up : LinkUp) : (UInt64.ofNat up.keys).toNat = up.keys := by
  have hversion := Bool.toNat_le up.netVersion.isSome
  have hdevice := Bool.toNat_le up.deviceId.isSome
  have horigin := Bool.toNat_le up.netOrigin.isSome
  have hkeys : up.keys < 2 ^ 64 := by
    unfold keys sharedKeys
    omega
  rw [UInt64.toNat_ofNat', Nat.mod_eq_of_lt hkeys]

def headCalls (up : LinkUp) (header : LinkHeader) : List Call :=
  scalarCalls header.kind.byte header.session header.reqId (UInt64.ofNat up.keys)

theorem header_tells (up : LinkUp) (header : LinkHeader) :
    Tells (mapErr (fun _ => LinkError.cbor .destinationTooSmall) (header.write up.keys)) (up.headCalls header) := by
  intro w w'
  rw [mapErr_ok, LinkHeader.write, headCalls, ← writeScalars_calls, up.keys_toNat]

theorem encodeInto_tells (h : up.checks = .ok ()) (header : LinkHeader) :
    Tells (up.encodeInto header) (up.headCalls header ++ up.calls) := by
  obtain ⟨⟨major, minor⟩, role, fw, bootId, hw, netVersion, deviceId, netOrigin⟩ := up
  unfold encodeInto
  apply Tells.check h
  apply (header_tells _ header).append
  have hversion := Tells.whenSome (ε := LinkError) (fun version : UInt32 =>
    .cons (c := .key 7) (.call (.u64 version.toUInt64))) netVersion
  have hdevice := Tells.whenSome (ε := LinkError) (fun deviceId : DeviceId =>
    .cons (c := .key 8) (.call (.bytes deviceId.toList))) deviceId
  have horigin := Tells.whenSome (ε := LinkError) (fun origin : NetOrigin =>
    .cons (c := .key 9) (.call (.bytes origin.toList))) netOrigin
  simp only [calls, List.append_assoc]
  exact .cons (c := .key 1) <| .cons (c := .u64 major.toUInt64) <| .cons (c := .key 2) <|
    .cons (c := .u64 minor.toUInt64) <| .cons (c := .key 3) <| .cons (c := .u64 role.number.toUInt64) <|
    .cons (c := .key 4) <| .cons (c := .text fw) <| .cons (c := .key 5) <| .cons (c := .u64 bootId.toUInt64) <|
    .cons (c := .key 6) <| .cons (c := .text hw) <| hversion.append (hdevice.append horigin)

end LinkUp

namespace LinkUpSlots

theorem readRole_takes (role : Side) : Takes readRole [.u64 role.number.toUInt64] role :=
  (Takes.u8 role.number).bind (.check (Side.of_number role))

theorem readText_takes {key : LinkField} {text : Str} (h : bounded key text.raw = .ok ()) :
    Takes (readText key) [.text text] text :=
  (Takes.textValue text).bind ((Takes.check h).bind (.pure text))

theorem deviceIdOf_toList (deviceId : DeviceId) : deviceIdOf deviceId.toList = .ok deviceId := by
  rw [deviceIdOf, if_pos (by simp), Except.ok.injEq]
  exact Vector.toList_inj.mp (fill_toList (by simp))

theorem tryFrom_toList (origin : NetOrigin) : NetOrigin.tryFrom origin.toList = .ok origin := by
  rw [NetOrigin.tryFrom, if_pos (by simp), Except.ok.injEq]
  exact Vector.toList_inj.mp (fill_toList (by simp))

theorem readDeviceId_takes (deviceId : DeviceId) : Takes readDeviceId [.bytes deviceId.toList] deviceId :=
  (Takes.bytesValue deviceId.toList).bind (.check (deviceIdOf_toList deviceId))

theorem readOrigin_takes (origin : NetOrigin) : Takes readOrigin [.bytes origin.toList] origin :=
  (Takes.bytesValue origin.toList).bind (.check (tryFrom_toList origin))

theorem origin_takes (s : LinkUpSlots) (hs : s.netOrigin = none) (netOrigin : Option NetOrigin) :
    Takes (pairLoop step netOrigin.isSome.toNat s) (netOrigin.toList.flatMap fun origin => [.key 9, .bytes origin.toList])
      { s with netOrigin := netOrigin } := by
  obtain ⟨major, minor, role, fw, bootId, hw, netVersion, deviceId, _⟩ := s
  obtain rfl := hs
  cases netOrigin with
  | none => exact .pairsDone
  | some origin =>
    have horigin : Takes (step (9 : Int64).toInt ⟨major, minor, role, fw, bootId, hw, netVersion, deviceId, none⟩)
        [.bytes origin.toList] ⟨major, minor, role, fw, bootId, hw, netVersion, deviceId, some origin⟩ :=
      .slotField (readOrigin_takes origin)
    exact .pairs horigin .pairsDone

theorem deviceId_takes (s : LinkUpSlots) (hs : s.deviceId = none) (deviceId : Option DeviceId) {n : ℕ} {calls : List Call}
    {s' : LinkUpSlots} (hrest : Takes (pairLoop step n { s with deviceId := deviceId }) calls s') :
    Takes (pairLoop step (deviceId.isSome.toNat + n) s)
      ((deviceId.toList.flatMap fun deviceId => [.key 8, .bytes deviceId.toList]) ++ calls) s' := by
  obtain ⟨major, minor, role, fw, bootId, hw, netVersion, _, netOrigin⟩ := s
  obtain rfl := hs
  cases deviceId with
  | none =>
    rw [show (none : Option DeviceId).isSome.toNat + n = n by simp]
    exact hrest
  | some deviceId =>
    have hdevice : Takes (step (8 : Int64).toInt ⟨major, minor, role, fw, bootId, hw, netVersion, none, netOrigin⟩)
        [.bytes deviceId.toList] ⟨major, minor, role, fw, bootId, hw, netVersion, some deviceId, netOrigin⟩ :=
      .slotField (readDeviceId_takes deviceId)
    rw [show (some deviceId).isSome.toNat + n = n + 1 by simp [Nat.add_comm]]
    exact .pairs hdevice hrest

theorem netVersion_takes (s : LinkUpSlots) (hs : s.netVersion = none) (netVersion : Option UInt32) {n : ℕ}
    {calls : List Call} {s' : LinkUpSlots}
    (hrest : Takes (pairLoop step n { s with netVersion := netVersion }) calls s') :
    Takes (pairLoop step (netVersion.isSome.toNat + n) s)
      ((netVersion.toList.flatMap fun version => [.key 7, .u64 version.toUInt64]) ++ calls) s' := by
  obtain ⟨major, minor, role, fw, bootId, hw, _, deviceId, netOrigin⟩ := s
  obtain rfl := hs
  cases netVersion with
  | none =>
    rw [show (none : Option UInt32).isSome.toNat + n = n by simp]
    exact hrest
  | some version =>
    have hversion : Takes (step (7 : Int64).toInt ⟨major, minor, role, fw, bootId, hw, none, deviceId, netOrigin⟩)
        [.u64 version.toUInt64] ⟨major, minor, role, fw, bootId, hw, some version, deviceId, netOrigin⟩ :=
      .slotField (Takes.u32 version)
    rw [show (some version).isSome.toNat + n = n + 1 by simp [Nat.add_comm]]
    exact .pairs hversion hrest

theorem slots_takes (up : LinkUp) (hfw : bounded .fw up.fw.raw = .ok ()) (hhw : bounded .hw up.hw.raw = .ok ()) :
    Takes (pairLoop step up.keys .empty) up.calls
      ⟨some up.version.major, some up.version.minor, some up.role, some up.fw, some up.bootId, some up.hw, up.netVersion,
        up.deviceId, up.netOrigin⟩ := by
  obtain ⟨⟨major, minor⟩, role, fw, bootId, hw, netVersion, deviceId, netOrigin⟩ := up
  have hlast := netVersion_takes
    ⟨some major, some minor, some role, some fw, some bootId, some hw, none, none, none⟩ rfl netVersion
    (deviceId_takes _ rfl deviceId (origin_takes _ rfl netOrigin))
  have hhw : Takes (step (6 : Int64).toInt
      ⟨some major, some minor, some role, some fw, some bootId, none, none, none, none⟩) [.text hw]
      ⟨some major, some minor, some role, some fw, some bootId, some hw, none, none, none⟩ :=
    .slotField (readText_takes hhw)
  have hboot : Takes (step (5 : Int64).toInt ⟨some major, some minor, some role, some fw, none, none, none, none, none⟩)
      [.u64 bootId.toUInt64] ⟨some major, some minor, some role, some fw, some bootId, none, none, none, none⟩ :=
    .slotField (Takes.u32 bootId)
  have hfw : Takes (step (4 : Int64).toInt ⟨some major, some minor, some role, none, none, none, none, none, none⟩)
      [.text fw] ⟨some major, some minor, some role, some fw, none, none, none, none, none⟩ :=
    .slotField (readText_takes hfw)
  have hrole : Takes (step (3 : Int64).toInt ⟨some major, some minor, none, none, none, none, none, none, none⟩)
      [.u64 role.number.toUInt64] ⟨some major, some minor, some role, none, none, none, none, none, none⟩ :=
    .slotField (readRole_takes role)
  have hminor : Takes (step (2 : Int64).toInt ⟨some major, none, none, none, none, none, none, none, none⟩)
      [.u64 minor.toUInt64] ⟨some major, some minor, none, none, none, none, none, none, none⟩ :=
    .slotField (Takes.u8 minor)
  have hmajor : Takes (step (1 : Int64).toInt .empty) [.u64 major.toUInt64]
      ⟨some major, none, none, none, none, none, none, none, none⟩ := .slotField (Takes.u8 major)
  have hkeys : LinkUp.keys ⟨⟨major, minor⟩, role, fw, bootId, hw, netVersion, deviceId, netOrigin⟩ =
      netVersion.isSome.toNat + (deviceId.isSome.toNat + netOrigin.isSome.toNat) + 1 + 1 + 1 + 1 + 1 + 1 := by
    simp only [LinkUp.keys, sharedKeys]
    omega
  rw [hkeys]
  simp only [LinkUp.calls, List.append_assoc]
  have hall := Takes.pairs hmajor (.pairs hminor (.pairs hrole (.pairs hfw (.pairs hboot (.pairs hhw hlast)))))
  exact hall

theorem up_ok {s : LinkUpSlots} {up : LinkUp} (h : s.up = .ok up) : up.sidesAgree = .ok () := by
  obtain ⟨major, -, h⟩ := bind_ok.mp h
  obtain ⟨minor, -, h⟩ := bind_ok.mp h
  obtain ⟨role, -, h⟩ := bind_ok.mp h
  obtain ⟨fw, -, h⟩ := bind_ok.mp h
  obtain ⟨bootId, -, h⟩ := bind_ok.mp h
  obtain ⟨hw, -, h⟩ := bind_ok.mp h
  obtain ⟨⟨⟩, hsides, h⟩ := bind_ok.mp h
  cases h
  exact hsides

theorem full_up {up : LinkUp} (h : up.sidesAgree = .ok ()) :
    LinkUpSlots.up ⟨some up.version.major, some up.version.minor, some up.role, some up.fw, some up.bootId, some up.hw,
      up.netVersion, up.deviceId, up.netOrigin⟩ = .ok up := by
  show (do
    up.sidesAgree
    .ok up : Except LinkError LinkUp) = .ok up
  rw [h]
  rfl

end LinkUpSlots

namespace LinkUp

variable {up : LinkUp} {header : LinkHeader} {bytes : Bytes}

theorem checks_ok : up.checks = .ok () ↔ bounded .fw up.fw.raw = .ok () ∧ versioned .fw up.fw.raw = .ok () ∧
    bounded .hw up.hw.raw = .ok () ∧ up.sidesAgree = .ok () := by
  simp only [checks, seq_ok]

theorem decode_write {dst : UInt64} (h : up.write header dst.toNat = .ok bytes) :
    ∃ envelope, LinkEnvelope.decode bytes = .ok envelope ∧ envelope.opcode = header.kind.byte ∧
      decode envelope = .ok up := by
  have hchecks : up.checks = .ok () := (encodeBody_check.mp h).1
  obtain ⟨hfw, -, hhw, hsides⟩ := checks_ok.mp hchecks
  obtain ⟨w, w', len, hw, hf, rfl⟩ := (encodeBody_ok (encodeInto_tells hchecks header)).mp h
  obtain ⟨r, r', hscalars, hslots, hfinish⟩ :=
    (scalars_takes header.kind.byte header.session header.reqId (UInt64.ofNat up.keys)).run_both
      (LinkUpSlots.slots_takes up hfw hhw) dst.toNat_lt hw hf
  obtain ⟨⟨⟩, r₁, hfour, hread⟩ := bind_run_ok.mp hscalars
  refine ⟨⟨header.kind.byte, header.session, header.reqId, (UInt64.ofNat up.keys).toNat, r⟩,
    bind_ok.mpr ⟨_, hfour, bind_ok.mpr ⟨_, hread, rfl⟩⟩, rfl, ?_⟩
  refine bind_ok.mpr ⟨(_, r'), ?_, bind_ok.mpr ⟨(), mapError_ok.mpr hfinish, LinkUpSlots.full_up hsides⟩⟩
  rw [up.keys_toNat]
  exact hslots

theorem decode_sides {envelope : LinkEnvelope} (h : decode envelope = .ok up) : up.sidesAgree = .ok () := by
  obtain ⟨⟨slots, body⟩, -, h⟩ := bind_ok.mp h
  obtain ⟨⟨⟩, -, h⟩ := bind_ok.mp h
  exact LinkUpSlots.up_ok h

end LinkUp

end Km43.Link
