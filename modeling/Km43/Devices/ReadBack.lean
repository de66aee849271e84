import Km43.Cbor.Whole
import Km43.Devices.Sizes
import Km43.Devices.Read

namespace Km43.Devices

open Library Cbor CborReader

def BusEntry.slots (e : BusEntry) : BusSlots where
  bus := some e.bus
  rate := e.rate.map (·.raw)
  dataBits := e.dataBits.map (·.wire)
  parity := e.parity
  stopBits := e.stopBits.map (·.wire)

theorem BusEntry.slots_body (e : BusEntry) : BusSlots.ofItem e.body.item = some e.slots := by
  change foldPairs BusSlots.take e.body.pairs .empty = _
  simp (disch := decide) only [BusBody.pairs, foldPairs_cons, foldPairs_optional, foldPairs_last]
  obtain ⟨bus, _ | _, _ | _, _ | _, _ | _⟩ := e <;>
    simp [BusEntry.body, BusEntry.slots, BusSlots.take, BusSlots.empty, slotted, u8Of_ofNat, u32Of_ofNat]

theorem Rate.new_raw (rate : Rate) : Rate.new rate.raw = some rate := dif_neg rate.nonzero

theorem DevId.new_raw (dev : DevId) : DevId.new dev.raw = .ok dev := dif_neg dev.nonzero

theorem Addr.new_bytes (addr : Addr) : Addr.new addr.bytes = .ok addr := by
  have hbounded : ¬(addr.bytes = [] ∨ addr.bytes.length > maxAddr) := by
    simpa using addr.bounded
  exact dif_neg hbounded

theorem newParent_raw (dev : DevId) : newParent dev.raw = .ok dev := by
  rw [newParent, DevId.new_raw, Except.mapError]

/-- Something is set in the entry, which is what lets it be read back. -/
def BusEntry.Set (e : BusEntry) : Prop := e.rate.isSome ∨ e.dataBits.isSome ∨ e.parity.isSome ∨ e.stopBits.isSome

theorem BusEntry.ofItem_body {e : BusEntry} (h : e.Set) (invalid : Invalid) :
    BusEntry.ofItem invalid e.body.item = some (e, invalid) := by
  rw [BusEntry.ofItem, e.slots_body, Option.bind_some]
  obtain ⟨bus, _ | _, _ | _, _ | _, _ | _⟩ := e <;>
    simp [BusEntry.Set] at h <;>
    simp [BusEntry.slots, BusSlots.entry, required, bind, Except.bind, Invalid.unlessSome, Rate.new_raw, Except.toOption]

theorem Invalid.unlessOk_ok {α : Type} (i : Invalid) {value : Except ConfigError α} {v : α} (h : value = .ok v)
    (hwhy : ∀ why, value = .error why → why.answer = .invalid) : i.unlessOk value hwhy = (some v, i) := by
  subst h
  rfl

def DeviceOptions.slots (o : DeviceOptions) (invalid : Invalid) : OptionSlots where
  direction := o.currentDirection.map (·.direction)
  pylontechVersion := o.pylontechVersion
  veDirect3v3 := o.veDirect3v3
  pollPeriodMs := o.pollPeriodMs
  invalid := invalid

theorem DeviceOptions.slots_options (o : DeviceOptions) (invalid : Invalid) : (o.slots invalid).options = (o, invalid) := by
  obtain ⟨_ | _ | _, _, _, _⟩ := o <;> rfl

theorem DeviceOptions.ofItem_body {o : DeviceOptions} (h : o ≠ DeviceOptions.none) (invalid : Invalid) :
    DeviceOptions.ofItem invalid o.body.item = some (o, invalid) := by
  have hslots : OptionSlots.ofItem invalid o.body.item = some (o.slots invalid) := by
    change ((OptionSlots.start invalid o.body.pairs.length).toOption.bind
      (foldPairs OptionSlots.take o.body.pairs)) = _
    have hpairs : o.body.pairs.length ≠ 0 := by
      rw [ne_eq, List.length_eq_zero_iff, DeviceOptions.body_pairs]
      exact h
    rw [OptionSlots.start, if_neg hpairs, Except.toOption, Option.bind_some]
    simp (disch := decide) only [OptionBody.pairs, foldPairs_optional, foldPairs_last]
    obtain ⟨_ | _, _ | _, _ | _, _ | _⟩ := o <;>
      simp [DeviceOptions.body, DeviceOptions.slots, OptionSlots.take, DeviceOption.tryFrom, slotted, u8Of_ofNat,
        u32Of_ofNat, Item.bool?]
  rw [DeviceOptions.ofItem, hslots, Option.map_some, DeviceOptions.slots_options]

section

variable {δ : Type} [DevSlot δ]

def DeviceEntry.slots (e : DeviceEntry δ) (invalid : Invalid) : DeviceSlots where
  dev := (DevSlot.dev e.dev).map (·.raw)
  bus := some e.bus
  addr := e.addr.map (·.bytes)
  product := some e.product
  dialect := some e.dialect
  role := some e.role
  parent := e.parent.map (·.raw)
  options := if e.options = DeviceOptions.none then none else some e.options
  invalid := invalid

theorem DeviceEntry.slots_body (e : DeviceEntry δ) (invalid : Invalid) :
    DeviceSlots.ofItem invalid e.body.item = some (e.slots invalid) := by
  have hoptions : ∀ s : DeviceSlots, s.options = none → s.invalid = invalid →
      foldPairs DeviceSlots.take (DeviceBody.optionsPair e.options.body) s =
        some { s with options := if e.options = DeviceOptions.none then none else some e.options } := by
    intro s hs hinvalid
    unfold DeviceBody.optionsPair
    by_cases h : e.options = DeviceOptions.none
    · rw [if_pos h, if_pos ((DeviceOptions.body_pairs _).mpr h), ← hs]
      rfl
    · rw [if_neg h, if_neg (mt (DeviceOptions.body_pairs _).mp h), foldPairs_cons _ (show 8 ≤ i64Max by decide)]
      simp [DeviceSlots.take, hinvalid, DeviceOptions.ofItem_body h, slotted, hs, foldPairs]
  change foldPairs DeviceSlots.take e.body.pairs (.empty invalid) = _
  simp (disch := decide) only [DeviceBody.pairs, foldPairs_cons, foldPairs_optional]
  obtain ⟨dev, bus, addr, product, dialect, role, parent, options⟩ := e
  simp only [DeviceEntry.body, DeviceEntry.slots] at hoptions ⊢
  cases DevSlot.dev dev <;> cases addr <;> cases parent <;>
    simp [DeviceSlots.take, DeviceSlots.empty, slotted, u8Of_ofNat, u16Of_ofNat, Item.bytes?, Item.ofBytes, DevId.toNat,
      hoptions]

theorem DeviceEntry.ofItem_body (e : DeviceEntry δ) (invalid : Invalid) :
    DeviceEntry.ofItem invalid e.body.item = some (e, invalid) := by
  rw [DeviceEntry.ofItem, e.slots_body, Option.bind_some]
  have hdev := DevSlot.fromDecoded_dev e.dev
  have hslot : DeviceSlots.devSlot ((DevSlot.dev e.dev).map (·.raw)) invalid = .ok (e.dev, invalid) := by
    cases hd : DevSlot.dev e.dev <;> rw [hd] at hdev <;>
      simp [DeviceSlots.devSlot, hdev, bind, Except.bind, Invalid.unlessOk_ok invalid (DevId.new_raw _)]
  have hoptions : (if e.options = DeviceOptions.none then none else some e.options).getD DeviceOptions.none = e.options := by
    split_ifs with h <;> simp [h]
  simp only [DeviceSlots.entry, DeviceEntry.slots, required, bind, Except.bind, hslot, hoptions]
  obtain ⟨dev, bus, addr, product, dialect, role, parent, options⟩ := e
  cases addr <;> cases parent <;>
    simp [Invalid.unlessOk_ok invalid (Addr.new_bytes _), Invalid.unlessOk_ok invalid (newParent_raw _), Except.toOption]

namespace BodySlots

omit [DevSlot δ] in
theorem takeBuses_body {buses : List BusEntry} (hset : ∀ e ∈ buses, e.Set) {s : BodySlots δ}
    (hroom : s.body.buses.length + buses.length ≤ maxConfigBuses) :
    ∃ s', foldItems takeBus (buses.map fun e => e.body.item) s = some s' ∧ s'.buses = s.buses ∧ s'.devices = s.devices ∧
      s'.invalid = s.invalid ∧ s'.body.buses = s.body.buses ++ buses ∧ s'.body.devices = s.body.devices := by
  induction buses generalizing s with
  | nil => exact ⟨s, rfl, rfl, rfl, rfl, (List.append_nil _).symm, rfl⟩
  | cons e buses ih =>
    rw [List.length_cons] at hroom
    have hlt : s.body.buses.length < maxConfigBuses := by omega
    have htake : takeBus s e.body.item = some (s.pushBus (e, s.invalid)) := by
      rw [takeBus, BusEntry.ofItem_body (hset e (List.mem_cons_self ..)), Option.map_some]
    have hpush : s.pushBus (e, s.invalid) = { s with
        body := { s.body with buses := s.body.buses ++ [e], buses_le := by simpa using hlt } } := by
      rw [pushBus, BusesAndDevices.pushBus, dif_pos hlt]
    obtain ⟨s', hs', hb, hd, hi, hbuses, hdevices⟩ :=
      ih (fun e he => hset e (List.mem_cons_of_mem _ he)) (s := s.pushBus (e, s.invalid)) (by
        rw [hpush, List.length_append, List.length_singleton]
        omega)
    rw [hpush] at hb hd hi hbuses hdevices
    refine ⟨s', ?_, hb, hd, hi, ?_, hdevices⟩
    · rw [List.map_cons, foldItems, htake, Option.bind_some, hs']
    · rw [hbuses, List.append_assoc, List.singleton_append]

theorem takeDevices_body {devices : List (DeviceEntry δ)} {s : BodySlots δ}
    (hroom : s.body.devices.length + devices.length ≤ maxConfigDevices) :
    ∃ s', foldItems takeDevice (devices.map fun e => e.body.item) s = some s' ∧ s'.buses = s.buses ∧
      s'.devices = s.devices ∧ s'.invalid = s.invalid ∧ s'.body.buses = s.body.buses ∧
      s'.body.devices = s.body.devices ++ devices := by
  induction devices generalizing s with
  | nil => exact ⟨s, rfl, rfl, rfl, rfl, rfl, (List.append_nil _).symm⟩
  | cons e devices ih =>
    rw [List.length_cons] at hroom
    have hlt : s.body.devices.length < maxConfigDevices := by omega
    have htake : takeDevice s e.body.item = some (s.pushDevice (e, s.invalid)) := by
      rw [takeDevice, DeviceEntry.ofItem_body, Option.map_some]
    have hpush : s.pushDevice (e, s.invalid) = { s with
        body := { s.body with devices := s.body.devices ++ [e], devices_le := by simpa using hlt } } := by
      rw [pushDevice, BusesAndDevices.pushDevice, dif_pos hlt]
    obtain ⟨s', hs', hb, hd, hi, hbuses, hdevices⟩ := ih (s := s.pushDevice (e, s.invalid)) (by
      rw [hpush, List.length_append, List.length_singleton]
      omega)
    rw [hpush] at hb hd hi hbuses hdevices
    refine ⟨s', ?_, hb, hd, hi, hbuses, ?_⟩
    · rw [List.map_cons, foldItems, htake, Option.bind_some, hs']
    · rw [hdevices, List.append_assoc, List.singleton_append]

theorem ofItem_body {s : BusesAndDevices δ} (hset : ∀ e ∈ s.buses, e.Set) :
    BodySlots.ofItem s.body.item = some ⟨some (), some (), s, .none⟩ := by
  change foldPairs take s.body.pairs .empty = _
  have hbuses : s.body.buses.map BusBody.item = s.buses.map fun e => e.body.item := by
    rw [BusesAndDevices.body, List.map_map]
    rfl
  have hdevices : s.body.devices.map DeviceBody.item = s.devices.map fun e => e.body.item := by
    rw [BusesAndDevices.body, List.map_map]
    rfl
  obtain ⟨s₁, h₁, hb₁, hd₁, hi₁, hbuses₁, hdevices₁⟩ := takeBuses_body (δ := δ) hset
    (s := { BodySlots.empty with buses := some () }) (by simpa [empty, BusesAndDevices.empty] using s.buses_le)
  have hroom : s₁.body.devices.length + s.devices.length ≤ maxConfigDevices := by
    rw [hdevices₁]
    simpa [empty, BusesAndDevices.empty] using s.devices_le
  obtain ⟨s₂, h₂, hb₂, hd₂, hi₂, hbuses₂, hdevices₂⟩ := @takeDevices_body _ _ s.devices
    { s₁ with devices := some () } hroom
  have htake₁ : take 1 (empty : BodySlots δ) (.ofItems (s.body.buses.map BusBody.item)) = some s₁ := by
    rw [hbuses, ← h₁]
    rfl
  have htake₂ : take 2 s₁ (.ofItems (s.body.devices.map DeviceBody.item)) = some s₂ := by
    have hopen : s₁.devices = none := hd₁
    rw [hdevices, ← h₂]
    simp only [take, slotted, hopen]
    rfl
  simp (disch := decide) only [Body.pairs, foldPairs_cons]
  rw [Int.natCast_one, htake₁, Option.bind_some, Nat.cast_ofNat, htake₂, Option.bind_some]
  obtain ⟨buses, devices, body, invalid⟩ := s₂
  obtain ⟨_, _, _, _⟩ := body
  obtain ⟨_, _, _, _⟩ := s
  simp_all [foldPairs, empty, BusesAndDevices.empty]

end BodySlots

theorem wire_u8 (n : UInt8) : n.toNat ≤ wire := by
  have hlt := n.toNat_lt
  unfold wire
  omega

theorem wire_u16 (n : UInt16) : n.toNat ≤ wire := by
  have hlt := n.toNat_lt
  unfold wire
  omega

theorem wire_u32 (n : UInt32) : n.toNat ≤ wire := Nat.le_of_lt_succ n.toNat_lt

theorem BusEntry.body_carried (e : BusEntry) : e.body.Carried where
  bus := wire_u8 _
  rate n hn := by
    obtain ⟨rate, -, rfl⟩ := Option.map_eq_some_iff.mp hn
    exact wire_u32 _
  dataBits n hn := by
    obtain ⟨bits, -, rfl⟩ := Option.map_eq_some_iff.mp hn
    exact wire_u8 _
  parity n hn := by
    obtain ⟨parity, -, rfl⟩ := Option.map_eq_some_iff.mp hn
    exact wire_u8 _
  stopBits n hn := by
    obtain ⟨bits, -, rfl⟩ := Option.map_eq_some_iff.mp hn
    exact wire_u8 _

theorem DeviceOptions.body_carried (o : DeviceOptions) : o.body.Carried where
  currentDirection n hn := by
    obtain ⟨direction, -, rfl⟩ := Option.map_eq_some_iff.mp hn
    exact wire_u8 _
  pylontechVersion n hn := by
    obtain ⟨version, -, rfl⟩ := Option.map_eq_some_iff.mp hn
    exact wire_u8 _
  pollPeriodMs n hn := by
    obtain ⟨period, -, rfl⟩ := Option.map_eq_some_iff.mp hn
    exact wire_u32 _

theorem DeviceEntry.body_carried (e : DeviceEntry δ) : e.body.Carried where
  dev n hn := by
    obtain ⟨dev, -, rfl⟩ := Option.map_eq_some_iff.mp hn
    exact wire_u16 _
  bus := wire_u8 _
  addr raw hraw := by
    obtain ⟨addr, -, rfl⟩ := Option.map_eq_some_iff.mp hraw
    have hlen := addr.bounded.2
    unfold maxAddr at hlen
    unfold wire
    omega
  product := wire_u16 _
  dialect := wire_u16 _
  role := wire_u16 _
  parent n hn := by
    obtain ⟨dev, -, rfl⟩ := Option.map_eq_some_iff.mp hn
    exact wire_u16 _
  options := e.options.body_carried

namespace BusesAndDevices

theorem body_carried (s : BusesAndDevices δ) : s.body.Carried where
  buses e he := by
    obtain ⟨entry, -, rfl⟩ := List.mem_map.mp he
    exact entry.body_carried
  devices e he := by
    obtain ⟨entry, -, rfl⟩ := List.mem_map.mp he
    exact entry.body_carried
  buses_le := by
    have hle := s.buses_le
    unfold maxConfigBuses at hle
    rw [body, List.length_map]
    unfold wire
    omega
  devices_le := by
    have hle := s.devices_le
    unfold maxConfigDevices at hle
    rw [body, List.length_map]
    unfold wire
    omega

theorem decode_body {s : BusesAndDevices δ} (hset : ∀ e ∈ s.buses, e.Set) (hasc : s.ascending = .ok ()) :
    decode s.body.item.spelling = .ok s := by
  have hlegal := Body.item_legal s.body_carried
  have hitem := BodySlots.ofItem_body hset
  rcases decode_eq (δ := δ) s.body.item.spelling with ⟨i, t, hi, hspell, ht, hdecode⟩ | ⟨hnone, -⟩
  · obtain rfl := Item.spelling_inj hi hlegal hspell
    obtain rfl := Option.some.inj (hitem.symm.trans ht)
    rw [hdecode, BodySlots.result]
    simp [required, Invalid.result, Invalid.none, hasc, bind, Except.bind]
  · rw [hnone _ hlegal rfl] at hitem
    cases hitem

theorem encoded_back {s : BusesAndDevices δ} (hset : ∀ e ∈ s.buses, e.Set) (hasc : s.ascending = .ok ()) :
    ∃ body : Bytes, body.length ≤ maxBusesAndDevicesBytes ∧ decode body = .ok s ∧
      ∀ capacity, body.length ≤ capacity → s.encode capacity = .ok body :=
  ⟨s.body.item.spelling, s.body_length, decode_body hset hasc, fun _ hfits => s.encode_ok hasc hfits⟩

end BusesAndDevices

end

end Km43.Devices
