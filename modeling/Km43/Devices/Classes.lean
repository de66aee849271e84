import Km43.Cbor.MapRule
import Km43.Devices.ReadBack
import Km43.Devices.Site

namespace Km43.Devices

open Library Cbor CborReader

def busRule : MapRule where
  typed k i := (k = 1 ∨ k = 3 ∨ k = 5 → (u8Of i).isSome) ∧ (k = 2 → (u32Of i).isSome) ∧
    (k = 4 → u8Of i = some 1 ∨ u8Of i = some 2 ∨ u8Of i = some 3)
  enough has := has 1 ∧ (has 2 ∨ has 3 ∨ has 4 ∨ has 5)
  within k i := (k = 2 → u32Of i ≠ some 0) ∧ (k = 3 → u8Of i = some 7 ∨ u8Of i = some 8) ∧
    (k = 5 → u8Of i = some 1 ∨ u8Of i = some 2)

/-- The one map where a key the registry does not allocate is refused, and not passed over. -/
def optionsRule : MapRule where
  typed k i := (k = 1 → u8Of i = some 1 ∨ u8Of i = some 2 ∨ u8Of i = some 3) ∧
    (k = 2 → u8Of i = some 1 ∨ u8Of i = some 2) ∧ (k = 3 → i.bool?.isSome) ∧ (k = 4 → (u32Of i).isSome)
  enough has := ∃ k, has k
  within k i := (k = 1 ∨ k = 2 ∨ k = 3 ∨ k = 4) ∧ (k = 1 → u8Of i ≠ some 3)

def deviceRule : MapRule where
  typed k i := (k = 1 ∨ k = 4 ∨ k = 5 ∨ k = 6 ∨ k = 7 → (u16Of i).isSome) ∧ (k = 2 → (u8Of i).isSome) ∧
    (k = 3 → i.bytes?.isSome) ∧ (k = 8 → optionsRule.Fits i)
  enough has := has 2 ∧ has 4 ∧ has 5 ∧ has 6
  within k i := (k = 1 ∨ k = 7 → u16Of i ≠ some 0) ∧
    (k = 3 → ∃ raw, i.bytes? = some raw ∧ 0 < raw.length ∧ raw.length ≤ maxAddr) ∧ (k = 8 → optionsRule.Within i)

def sectionRule : MapRule where
  typed k i := (k = 1 → ∃ items, i.items? = some items ∧ ∀ j ∈ items, busRule.Fits j) ∧
    (k = 2 → ∃ items, i.items? = some items ∧ ∀ j ∈ items, deviceRule.Fits j)
  enough has := has 1 ∧ has 2
  within k i :=
    (k = 1 → ∃ items, i.items? = some items ∧ items.length ≤ maxConfigBuses ∧ ∀ j ∈ items, busRule.Within j) ∧
    (k = 2 → ∃ items, i.items? = some items ∧ items.length ≤ maxConfigDevices ∧ ∀ j ∈ items, deviceRule.Within j)

namespace Invalid

variable {α : Type} {i : Invalid} {why : ConfigError} {key : BusesAndDevicesKey}

def Clean (i : Invalid) : Prop := i.first = Option.none

theorem note_clean (h : why.answer = .invalid) : ¬(i.note why h).Clean := by
  unfold note Clean
  cases hi : i.first <;> simp [hi]

theorem unlessSome_clean (value : Option α) : (i.unlessSome value key).2.Clean ↔ i.Clean ∧ value.isSome := by
  cases value with
  | none => simp [unlessSome, note_clean]
  | some v => simp [unlessSome]

theorem unlessOk_clean (value : Except ConfigError α) (h : ∀ why, value = .error why → why.answer = .invalid) :
    (i.unlessOk value h).2.Clean ↔ i.Clean ∧ value.toOption.isSome := by
  cases value with
  | error why => simp [unlessOk, note_clean, Except.toOption]
  | ok v => simp [unlessOk, Except.toOption]

theorem result_cases (i : Invalid) :
    (i.Clean ∧ i.result = .ok ()) ∨ (¬i.Clean ∧ ∃ why, i.result = .error why ∧ why.answer = .invalid) := by
  unfold Clean result
  cases hi : i.first with
  | none => exact .inl ⟨rfl, rfl⟩
  | some why => exact .inr ⟨by simp, why, rfl, i.outcome why hi⟩

end Invalid

theorem slotted_isSome {α σ : Type} {value slot : Option α} {fill : Option α → σ} (h : ¬slot.isSome) :
    (slotted value slot fill).isSome ↔ value.isSome := by
  cases value <;> cases slot <;> simp_all [slotted]

theorem parity_isSome (v : UInt8) : (Parity.tryFrom v).isSome ↔ v = 1 ∨ v = 2 ∨ v = 3 := by
  unfold Parity.tryFrom
  split_ifs <;> simp_all

theorem direction_isSome (v : UInt8) : (Direction.tryFrom v).isSome ↔ v = 1 ∨ v = 2 ∨ v = 3 := by
  unfold Direction.tryFrom
  split_ifs <;> simp_all

theorem direction_magnitude (v : UInt8) : Direction.tryFrom v = some .magnitudeOnly ↔ v = 3 := by
  unfold Direction.tryFrom
  split_ifs <;> simp_all

theorem version_isSome (v : UInt8) : (PylontechVersion.tryFrom v).isSome ↔ v = 1 ∨ v = 2 := by
  unfold PylontechVersion.tryFrom
  split_ifs <;> simp_all

theorem bind_isSome {α β : Type} {o : Option α} {f : α → Option β} {ok : α → Prop}
    (h : ∀ a, (f a).isSome ↔ ok a) : (o.bind f).isSome ↔ ∃ a, o = some a ∧ ok a := by
  cases o <;> simp [h]

namespace BusSlots

theorem take_typed {k : ℤ} {s : BusSlots} (i : Item) (hk : Known k) (hs : ¬s.has k) :
    (take k s i).isSome ↔ busRule.typed k i := by
  rcases hk.cases with rfl | rfl | rfl | rfl | rfl
  · simp [take, slotted_isSome hs, busRule]
  · simp [take, slotted_isSome hs, busRule]
  · simp [take, slotted_isSome hs, busRule]
  · simp only [take, slotted_isSome hs, bind_isSome parity_isSome, busRule]
    cases u8Of i <;> simp
  · simp [take, slotted_isSome hs, busRule]

@[mk_iff]
structure Within (s : BusSlots) : Prop where
  rate : ∀ raw ∈ s.rate, raw ≠ 0
  dataBits : ∀ bits ∈ s.dataBits, bits = 7 ∨ bits = 8
  stopBits : ∀ bits ∈ s.stopBits, bits = 1 ∨ bits = 2

theorem take_within {k : ℤ} {s s' : BusSlots} {i : Item} (h : take k s i = some s') :
    s'.Within ↔ s.Within ∧ busRule.within k i := by
  by_cases hk : Known k
  · rcases hk.cases with rfl | rfl | rfl | rfl | rfl
    all_goals
      simp only [take] at h
      obtain ⟨hnone, v, hv, rfl⟩ := slotted_some.mp h
      simp only [within_iff, busRule, hnone, hv]
      simp
    all_goals tauto
  · rw [fills.passes k s i hk] at h
    obtain rfl := Option.some.inj h
    unfold Known at hk
    refine (and_iff_left ⟨fun h => ?_, fun h => ?_, fun h => ?_⟩).symm <;> omega

theorem entry_isSome {s : BusSlots} {invalid : Invalid} :
    (s.entry invalid).toOption.isSome ↔ busRule.enough fun k => s.has k := by
  unfold entry
  cases hb : s.bus with
  | none => simp [required, busRule, has, hb, bind, Except.bind, Except.toOption]
  | some bus =>
    simp only [required, bind, Except.bind, busRule, has, hb]
    split_ifs with h
    · simp_all [Except.toOption]
    · simp only [Except.toOption]
      cases hr : s.rate <;> cases hd : s.dataBits <;> cases hp : s.parity <;> cases ht : s.stopBits <;> simp_all

theorem rate_isSome (raw : UInt32) : (Rate.new raw).isSome ↔ raw ≠ 0 := by
  unfold Rate.new
  split_ifs <;> simp_all

theorem dataBits_isSome (bits : UInt8) : (DataBits.fromWire bits).isSome ↔ bits = 7 ∨ bits = 8 := by
  unfold DataBits.fromWire
  split_ifs <;> simp_all

theorem stopBits_isSome (bits : UInt8) : (StopBits.fromWire bits).isSome ↔ bits = 1 ∨ bits = 2 := by
  unfold StopBits.fromWire
  split_ifs <;> simp_all

theorem entry_clean {s : BusSlots} {invalid : Invalid} {e : BusEntry × Invalid} (h : s.entry invalid = .ok e) :
    e.2.Clean ↔ invalid.Clean ∧ s.Within := by
  obtain ⟨bus, -, h⟩ := bind_ok.mp h
  split_ifs at h
  obtain rfl := Except.ok.inj h
  rw [within_iff]
  cases s.rate <;> cases s.dataBits <;> cases s.stopBits <;>
    simp [Invalid.unlessSome_clean, rate_isSome, dataBits_isSome, stopBits_isSome, and_assoc]

end BusSlots

theorem BusEntry.ofItem_isSome {d : ℕ} {i : Item} (hi : i.Legal d) (invalid : Invalid) :
    (BusEntry.ofItem invalid i).isSome ↔ busRule.Fits i := by
  rw [← foldPairs_fits BusSlots.fills busRule ?_ hi (fun k s j _ => BusSlots.take_typed j) BusSlots.empty ?_
    (fun s => (s.entry invalid).toOption.isSome) ?_]
  · exact bind_isSome fun s => Iff.rfl
  · intro k i hk
    unfold BusSlots.Known at hk
    refine ⟨fun h => ?_, fun h => ?_, fun h => ?_⟩ <;> omega
  · intro k hk
    rcases hk.cases with rfl | rfl | rfl | rfl | rfl <;> simp [BusSlots.has, BusSlots.empty]
  · intro pairs s hslot
    rw [BusSlots.entry_isSome]
    simp only [busRule]
    rw [hslot 1 (by simp [BusSlots.Known]), hslot 2 (by simp [BusSlots.Known]), hslot 3 (by simp [BusSlots.Known]),
      hslot 4 (by simp [BusSlots.Known]), hslot 5 (by simp [BusSlots.Known])]

theorem BusEntry.ofItem_clean {i : Item} {invalid : Invalid} {e : BusEntry × Invalid}
    (h : BusEntry.ofItem invalid i = some e) : e.2.Clean ↔ invalid.Clean ∧ busRule.Within i := by
  obtain ⟨s, hs, he⟩ := Option.bind_eq_some_iff.mp h
  obtain ⟨pairs, hp, hs⟩ := Option.bind_eq_some_iff.mp hs
  rw [BusSlots.entry_clean (toOption_some.mp he)]
  have htells := foldPairs_tells (I := fun _ => True)
    (fun p _ k s s' h _ => ⟨trivial, BusSlots.take_within h⟩) trivial hs
  rw [htells.2]
  simp [MapRule.Within, hp, BusSlots.within_iff, BusSlots.empty]

namespace OptionSlots

theorem take_typed {k : ℤ} {s : OptionSlots} (i : Item) (hk : Known k) (hs : ¬s.has k) :
    (take k s i).isSome ↔ optionsRule.typed k i := by
  rcases hk.cases with rfl | rfl | rfl | rfl
  all_goals
    simp only [take, DeviceOption.tryFrom, OfNat.ofNat_ne_one, Int.reduceEq, if_true, if_false]
    rw [slotted_isSome hs]
  · rw [bind_isSome direction_isSome]
    cases h : u8Of i <;> simp [optionsRule, h]
  · rw [bind_isSome version_isSome]
    cases h : u8Of i <;> simp [optionsRule, h]
  · simp [optionsRule]
  · simp [optionsRule]

@[mk_iff]
structure Within (s : OptionSlots) : Prop where
  clean : s.invalid.Clean
  signed : s.direction ≠ some .magnitudeOnly

theorem take_within {k : ℤ} {s s' : OptionSlots} {i : Item} (h : take k s i = some s') :
    s'.Within ↔ s.Within ∧ optionsRule.within k i := by
  by_cases hk : Known k
  · rcases hk.cases with rfl | rfl | rfl | rfl
    all_goals
      simp only [take, DeviceOption.tryFrom, OfNat.ofNat_ne_one, Int.reduceEq, if_true, if_false] at h
      obtain ⟨hnone, v, hv, rfl⟩ := slotted_some.mp h
    · obtain ⟨raw, hraw, hdirection⟩ := Option.bind_eq_some_iff.mp hv
      have hmagnitude := direction_magnitude raw
      rw [hdirection, Option.some.injEq] at hmagnitude
      simp [within_iff, optionsRule, hnone, hraw, hmagnitude]
    all_goals simp [within_iff, optionsRule]
  · rw [fills.passes k s i hk] at h
    obtain rfl := Option.some.inj h
    have hnot : ¬optionsRule.within k i := by
      rintro ⟨hallocated, -⟩
      unfold Known at hk
      omega
    simp [within_iff, pass, hnot, Invalid.note_clean]

theorem options_clean (s : OptionSlots) : s.options.2.Clean ↔ s.Within := by
  rw [within_iff, options]
  rcases s.direction with _ | _ | _ | _ <;> simp [Invalid.note_clean]

end OptionSlots

theorem DeviceOptions.ofItem_isSome {d : ℕ} {i : Item} (hi : i.Legal d) (invalid : Invalid) :
    (DeviceOptions.ofItem invalid i).isSome ↔ optionsRule.Fits i := by
  unfold DeviceOptions.ofItem OptionSlots.ofItem MapRule.Fits
  rw [Option.isSome_map]
  cases hp : i.pairs? with
  | none => simp
  | some pairs =>
    obtain ⟨hfresh, hlegal⟩ := Item.pairs?_legal hi hp
    simp only [Option.bind_some, Option.some.injEq, exists_eq_left']
    cases pairs with
    | nil => simp [OptionSlots.start, Except.toOption, optionsRule, HasKey]
    | cons p rest =>
      have hstart : (OptionSlots.start invalid (p :: rest).length).toOption = some ⟨.none, .none, .none, .none, invalid⟩ := by
        simp [OptionSlots.start, Except.toOption]
      have hfree : ∀ k i, ¬OptionSlots.Known k → optionsRule.typed k i := by
        intro k i hk
        unfold OptionSlots.Known at hk
        refine ⟨fun h => ?_, fun h => ?_, fun h => ?_, fun h => ?_⟩ <;> omega
      rw [hstart, Option.bind_some, foldPairs_typed OptionSlots.fills hfree
        (fun q _ k s => OptionSlots.take_typed q.2) hfresh]
      · refine (and_iff_left_of_imp fun htyped => ?_).symm
        obtain ⟨k, hk, -⟩ := htyped p (List.mem_cons_self ..)
        exact ⟨k, p, List.mem_cons_self .., hk⟩
      · intro q _ k _ hk
        rcases hk.cases with rfl | rfl | rfl | rfl <;> simp [OptionSlots.has]

theorem DeviceOptions.ofItem_clean {i : Item} {invalid : Invalid} {o : DeviceOptions × Invalid}
    (h : DeviceOptions.ofItem invalid i = some o) : o.2.Clean ↔ invalid.Clean ∧ optionsRule.Within i := by
  obtain ⟨s, hs, rfl⟩ := Option.map_eq_some_iff.mp h
  obtain ⟨pairs, hp, hs⟩ := Option.bind_eq_some_iff.mp hs
  obtain ⟨start, hstart, hs⟩ := Option.bind_eq_some_iff.mp hs
  have htells := foldPairs_tells (I := fun _ => True)
    (fun p _ k s s' h _ => ⟨trivial, OptionSlots.take_within h⟩) trivial hs
  have hclean : start.Within ↔ invalid.Clean := by
    rw [toOption_some, OptionSlots.start] at hstart
    split_ifs at hstart
    obtain rfl := Except.ok.inj hstart
    simp [OptionSlots.within_iff]
  rw [OptionSlots.options_clean, htells.2, hclean]
  simp [MapRule.Within, hp]

namespace DeviceSlots

theorem take_typed {d : ℕ} {k : ℤ} {s : DeviceSlots} {i : Item} (hi : i.Legal d) (hk : Known k) (hs : ¬s.has k) :
    (take k s i).isSome ↔ deviceRule.typed k i := by
  rcases hk.cases with rfl | rfl | rfl | rfl | rfl | rfl | rfl | rfl
  case inr.inr.inr.inr.inr.inr.inr =>
    have hopen : ¬s.options.isSome := hs
    have hopened : ∀ read : DeviceOptions × Invalid, (slotted (some read.1) s.options fun slot =>
        { s with options := slot, invalid := read.2 }).isSome ↔ True := by
      intro read
      simp [slotted_isSome hopen]
    simp only [take]
    rw [bind_isSome hopened]
    simp [deviceRule, ← DeviceOptions.ofItem_isSome hi s.invalid, Option.isSome_iff_exists]
  all_goals simp [take, slotted_isSome hs, deviceRule]

@[mk_iff]
structure Within (s : DeviceSlots) : Prop where
  clean : s.invalid.Clean
  dev : ∀ raw ∈ s.dev, raw ≠ 0
  addr : ∀ raw ∈ s.addr, 0 < raw.length ∧ raw.length ≤ maxAddr
  parent : ∀ raw ∈ s.parent, raw ≠ 0

theorem take_within {k : ℤ} {s s' : DeviceSlots} {i : Item} (h : take k s i = some s') :
    s'.Within ↔ s.Within ∧ deviceRule.within k i := by
  by_cases hk : Known k
  · rcases hk.cases with rfl | rfl | rfl | rfl | rfl | rfl | rfl | rfl
    case inr.inr.inr.inr.inr.inr.inr =>
      simp only [take] at h
      obtain ⟨read, hread, h⟩ := Option.bind_eq_some_iff.mp h
      obtain ⟨hnone, v, hv, rfl⟩ := slotted_some.mp h
      simp only [within_iff, deviceRule, DeviceOptions.ofItem_clean hread]
      simp
      tauto
    all_goals
      simp only [take] at h
      obtain ⟨hnone, v, hv, rfl⟩ := slotted_some.mp h
      simp only [within_iff, deviceRule, hnone, hv]
      simp
    all_goals tauto
  · rw [fills.passes k s i hk] at h
    obtain rfl := Option.some.inj h
    unfold Known at hk
    refine (and_iff_left ⟨fun h => ?_, fun h => ?_, fun h => ?_⟩).symm <;> omega

theorem entry_isSome {s : DeviceSlots} :
    (s.entry (δ := Option DevId)).toOption.isSome ↔ deviceRule.enough fun k => s.has k := by
  unfold entry
  simp only [deviceRule, has]
  cases s.product with
  | none => simp [required, bind, Except.bind, Except.toOption]
  | some product =>
    cases s.dialect with
    | none => simp [required, bind, Except.bind, Except.toOption]
    | some dialect =>
      cases s.role with
      | none => simp [required, bind, Except.bind, Except.toOption]
      | some role =>
        cases s.bus with
        | none => simp [required, bind, Except.bind, Except.toOption]
        | some bus => cases s.dev <;> simp [required, devSlot, DevSlot.fromDecoded, bind, Except.bind, Except.toOption]

theorem devId_ok (raw : UInt16) : (DevId.new raw).toOption.isSome ↔ raw ≠ 0 := by
  unfold DevId.new
  split_ifs with h <;> simp [Except.toOption, h]

theorem newParent_ok (raw : UInt16) : (newParent raw).toOption.isSome ↔ raw ≠ 0 := by
  rw [← devId_ok, newParent]
  cases DevId.new raw <;> simp [Except.mapError, Except.toOption]

theorem addr_ok (raw : Bytes) : (Addr.new raw).toOption.isSome ↔ 0 < raw.length ∧ raw.length ≤ maxAddr := by
  rw [List.length_pos_iff, Addr.new]
  by_cases h : raw = [] ∨ raw.length > maxAddr
  · rw [dif_pos h]
    simp only [Except.toOption, Option.isSome_none, Bool.false_eq_true, false_iff, not_and, not_le]
    exact h.resolve_left
  · rw [dif_neg h]
    simpa [Except.toOption] using h

theorem devSlot_clean {dev : Option UInt16} {invalid : Invalid} {slot : Option DevId × Invalid}
    (h : devSlot dev invalid = .ok slot) : slot.2.Clean ↔ invalid.Clean ∧ ∀ raw ∈ dev, raw ≠ 0 := by
  cases dev with
  | none =>
    obtain ⟨dev, -, h⟩ := bind_ok.mp h
    obtain rfl := Except.ok.inj h
    simp
  | some raw =>
    obtain ⟨dev, -, h⟩ := bind_ok.mp h
    obtain rfl := Except.ok.inj h
    change (invalid.unlessOk (DevId.new raw) fun _ => DevId.new_answer).2.Clean ↔ _
    rw [Invalid.unlessOk_clean, devId_ok]
    simp

theorem entry_clean {s : DeviceSlots} {e : DeviceEntry (Option DevId) × Invalid} (h : s.entry = .ok e) :
    e.2.Clean ↔ s.Within := by
  obtain ⟨product, -, h⟩ := bind_ok.mp h
  obtain ⟨dialect, -, h⟩ := bind_ok.mp h
  obtain ⟨role, -, h⟩ := bind_ok.mp h
  obtain ⟨bus, -, h⟩ := bind_ok.mp h
  obtain ⟨slot, hslot, h⟩ := bind_ok.mp h
  obtain rfl := Except.ok.inj h
  have hclean := devSlot_clean hslot
  rw [within_iff, ← and_assoc, ← hclean]
  cases s.addr <;> cases s.parent <;> simp [Invalid.unlessOk_clean, addr_ok, newParent_ok, and_assoc]

end DeviceSlots

theorem DeviceEntry.ofItem_isSome {d : ℕ} {i : Item} (hi : i.Legal d) (invalid : Invalid) :
    (DeviceEntry.ofItem (δ := Option DevId) invalid i).isSome ↔ deviceRule.Fits i := by
  rw [← foldPairs_fits DeviceSlots.fills deviceRule ?_ hi (fun k s j => DeviceSlots.take_typed)
    (DeviceSlots.empty invalid) ?_ (fun s => (s.entry (δ := Option DevId)).toOption.isSome) ?_]
  · exact bind_isSome fun s => Iff.rfl
  · intro k i hk
    unfold DeviceSlots.Known at hk
    refine ⟨fun h => ?_, fun h => ?_, fun h => ?_, fun h => ?_⟩ <;> omega
  · intro k hk
    rcases hk.cases with rfl | rfl | rfl | rfl | rfl | rfl | rfl | rfl <;> simp [DeviceSlots.has, DeviceSlots.empty]
  · intro pairs s hslot
    rw [DeviceSlots.entry_isSome]
    simp only [deviceRule]
    rw [hslot 2 (by simp [DeviceSlots.Known]), hslot 4 (by simp [DeviceSlots.Known]),
      hslot 5 (by simp [DeviceSlots.Known]), hslot 6 (by simp [DeviceSlots.Known])]

theorem DeviceEntry.ofItem_clean {i : Item} {invalid : Invalid} {e : DeviceEntry (Option DevId) × Invalid}
    (h : DeviceEntry.ofItem invalid i = some e) : e.2.Clean ↔ invalid.Clean ∧ deviceRule.Within i := by
  obtain ⟨s, hs, he⟩ := Option.bind_eq_some_iff.mp h
  obtain ⟨pairs, hp, hs⟩ := Option.bind_eq_some_iff.mp hs
  rw [DeviceSlots.entry_clean (toOption_some.mp he)]
  have htells := foldPairs_tells (I := fun _ => True)
    (fun p _ k s s' h _ => ⟨trivial, DeviceSlots.take_within h⟩) trivial hs
  rw [htells.2]
  simp [MapRule.Within, hp, DeviceSlots.within_iff, DeviceSlots.empty]

namespace BodySlots

theorem takeBus_isSome {d : ℕ} {i : Item} (hi : i.Legal d) (s : BodySlots (Option DevId)) :
    (takeBus s i).isSome ↔ busRule.Fits i := by
  rw [takeBus, Option.isSome_map, BusEntry.ofItem_isSome hi]

theorem takeDevice_isSome {d : ℕ} {i : Item} (hi : i.Legal d) (s : BodySlots (Option DevId)) :
    (takeDevice s i).isSome ↔ deviceRule.Fits i := by
  rw [takeDevice, Option.isSome_map, DeviceEntry.ofItem_isSome hi]

theorem pushBus_clean (s : BodySlots (Option DevId)) (e : BusEntry × Invalid) :
    (s.body.buses.length < maxConfigBuses → (s.pushBus e).body.buses.length = s.body.buses.length + 1) ∧
      ((s.pushBus e).invalid.Clean ↔ e.2.Clean ∧ s.body.buses.length < maxConfigBuses) ∧
      (s.pushBus e).body.devices = s.body.devices := by
  unfold pushBus BusesAndDevices.pushBus
  by_cases hroom : s.body.buses.length < maxConfigBuses
  · simp [hroom]
  · simp [hroom, Invalid.note_clean]

theorem pushDevice_clean (s : BodySlots (Option DevId)) (e : DeviceEntry (Option DevId) × Invalid) :
    (s.body.devices.length < maxConfigDevices → (s.pushDevice e).body.devices.length = s.body.devices.length + 1) ∧
      ((s.pushDevice e).invalid.Clean ↔ e.2.Clean ∧ s.body.devices.length < maxConfigDevices) ∧
      (s.pushDevice e).body.buses = s.body.buses := by
  unfold pushDevice BusesAndDevices.pushDevice
  by_cases hroom : s.body.devices.length < maxConfigDevices
  · simp [hroom]
  · simp [hroom, Invalid.note_clean]

theorem takeBuses_clean {items : List Item} {s s' : BodySlots (Option DevId)} (h : foldItems takeBus items s = some s') :
    s'.invalid.Clean ↔ s.invalid.Clean ∧ s.body.buses.length + items.length ≤ maxConfigBuses ∧
      ∀ i ∈ items, busRule.Within i := by
  apply foldItems_tells (fun s => s.body.buses_le) _ h
  intro s i s' hs'
  obtain ⟨e, he, rfl⟩ := Option.map_eq_some_iff.mp hs'
  obtain ⟨hcount, hclean, -⟩ := pushBus_clean s e
  refine ⟨hcount, ?_⟩
  rw [hclean, BusEntry.ofItem_clean he]
  tauto

theorem takeDevices_clean {items : List Item} {s s' : BodySlots (Option DevId)}
    (h : foldItems takeDevice items s = some s') :
    s'.invalid.Clean ↔ s.invalid.Clean ∧ s.body.devices.length + items.length ≤ maxConfigDevices ∧
      ∀ i ∈ items, deviceRule.Within i := by
  apply foldItems_tells (fun s => s.body.devices_le) _ h
  intro s i s' hs'
  obtain ⟨e, he, rfl⟩ := Option.map_eq_some_iff.mp hs'
  obtain ⟨hcount, hclean, -⟩ := pushDevice_clean s e
  refine ⟨hcount, ?_⟩
  rw [hclean, DeviceEntry.ofItem_clean he]
  tauto

theorem takeBuses_devices {items : List Item} {s s' : BodySlots (Option DevId)}
    (h : foldItems takeBus items s = some s') : s'.body.devices = s.body.devices := by
  induction items generalizing s with
  | nil =>
    obtain rfl := Option.some.inj h
    rfl
  | cons i items ih =>
    obtain ⟨s₁, hs₁, h⟩ := Option.bind_eq_some_iff.mp h
    obtain ⟨e, -, rfl⟩ := Option.map_eq_some_iff.mp hs₁
    exact (ih h).trans (pushBus_clean s e).2.2

theorem takeDevices_buses {items : List Item} {s s' : BodySlots (Option DevId)}
    (h : foldItems takeDevice items s = some s') : s'.body.buses = s.body.buses := by
  induction items generalizing s with
  | nil =>
    obtain rfl := Option.some.inj h
    rfl
  | cons i items ih =>
    obtain ⟨s₁, hs₁, h⟩ := Option.bind_eq_some_iff.mp h
    obtain ⟨e, -, rfl⟩ := Option.map_eq_some_iff.mp hs₁
    exact (ih h).trans (pushDevice_clean s e).2.2

theorem take_typed {d : ℕ} {k : ℤ} {s : BodySlots (Option DevId)} {i : Item} (hi : i.Legal d) (hk : Known k)
    (hs : ¬s.has k) : (take k s i).isSome ↔ sectionRule.typed k i := by
  rcases hk.cases with rfl | rfl
  · have hopen : s.buses = none := by simpa [has] using hs
    simp only [take, slotted, hopen, Option.bind_some, Option.isSome_none, Bool.false_eq_true, if_false]
    cases hitems : i.items? with
    | none => simp [sectionRule, hitems]
    | some items =>
      have hlegal := Item.items?_legal hi hitems
      rw [Option.bind_some, foldItems_isSome fun j hj s => takeBus_isSome (hlegal j hj) s]
      simp [sectionRule, hitems]
  · have hopen : s.devices = none := by simpa [has] using hs
    simp only [take, slotted, hopen, Option.bind_some, Option.isSome_none, Bool.false_eq_true, if_false]
    cases hitems : i.items? with
    | none => simp [sectionRule, hitems]
    | some items =>
      have hlegal := Item.items?_legal hi hitems
      rw [Option.bind_some, foldItems_isSome fun j hj s => takeDevice_isSome (hlegal j hj) s]
      simp [sectionRule, hitems]

structure Unmet (s : BodySlots (Option DevId)) : Prop where
  buses : s.buses = none → s.body.buses = []
  devices : s.devices = none → s.body.devices = []

theorem take_within {k : ℤ} {s s' : BodySlots (Option DevId)} {i : Item} (h : take k s i = some s') (hs : s.Unmet) :
    s'.Unmet ∧ (s'.invalid.Clean ↔ s.invalid.Clean ∧ sectionRule.within k i) := by
  by_cases hk : Known k
  · rcases hk.cases with rfl | rfl
    · simp only [take, Option.bind_eq_some_iff] at h
      obtain ⟨s₁, hs₁, items, hitems, h⟩ := h
      obtain ⟨hnone, u, -, rfl⟩ := slotted_some.mp hs₁
      obtain ⟨hmet, hother⟩ := foldItems_slots (fun _ _ _ => takeBus_slots) h
      refine ⟨⟨fun hb => ?_, fun hd => ?_⟩, ?_⟩
      · rw [hmet] at hb
        cases hb
      · rw [takeBuses_devices h]
        exact hs.devices (hother.symm.trans hd)
      · rw [takeBuses_clean h]
        simp [sectionRule, hitems, hs.buses hnone]
    · simp only [take, Option.bind_eq_some_iff] at h
      obtain ⟨s₁, hs₁, items, hitems, h⟩ := h
      obtain ⟨hnone, u, -, rfl⟩ := slotted_some.mp hs₁
      obtain ⟨hother, hmet⟩ := foldItems_slots (fun _ _ _ => takeDevice_slots) h
      refine ⟨⟨fun hb => ?_, fun hd => ?_⟩, ?_⟩
      · rw [takeDevices_buses h]
        exact hs.buses (hother.symm.trans hb)
      · rw [hmet] at hd
        cases hd
      · rw [takeDevices_clean h]
        simp [sectionRule, hitems, hs.devices hnone]
  · rw [fills.passes k s i hk] at h
    obtain rfl := Option.some.inj h
    unfold Known at hk
    refine ⟨hs, (and_iff_left ⟨fun h => ?_, fun h => ?_⟩).symm⟩ <;> omega

theorem ofItem_result {i : Item} (hi : i.Legal maxDepth) :
    (∃ s, ofItem (δ := Option DevId) i = some s ∧ s.buses.isSome ∧ s.devices.isSome) ↔ sectionRule.Fits i := by
  refine foldPairs_fits fills sectionRule ?_ hi (fun k s j => take_typed) empty ?_
    (fun s => s.buses.isSome ∧ s.devices.isSome) ?_
  · intro k i hk
    unfold Known at hk
    refine ⟨fun h => ?_, fun h => ?_⟩ <;> omega
  · intro k hk
    rcases hk.cases with rfl | rfl <;> simp [has, empty]
  · intro pairs s hslot
    exact and_congr (hslot 1 (by simp [Known])) (hslot 2 (by simp [Known]))

theorem ofItem_clean {i : Item} {s : BodySlots (Option DevId)} (h : ofItem i = some s) :
    s.invalid.Clean ↔ sectionRule.Within i := by
  obtain ⟨pairs, hp, hs⟩ := Option.bind_eq_some_iff.mp h
  have hempty : Unmet empty := ⟨fun _ => rfl, fun _ => rfl⟩
  rw [(foldPairs_tells (fun p _ k s s' => take_within) hempty hs).2]
  simp [MapRule.Within, hp, empty, Invalid.Clean, Invalid.none]

theorem result_cases (s : BodySlots (Option DevId)) :
    (¬(s.buses.isSome ∧ s.devices.isSome) ∧ ∃ why, s.result = .error why ∧ why.answer = .malformedFrame) ∨
    ((s.buses.isSome ∧ s.devices.isSome) ∧
      (s.invalid.Clean ∧ s.result = .ok s.body ∨
        ¬s.invalid.Clean ∧ ∃ why, s.result = .error why ∧ why.answer = .invalid)) := by
  unfold result
  cases s.buses with
  | none => exact .inl ⟨by simp, _, rfl, rfl⟩
  | some buses =>
    cases s.devices with
    | none => exact .inl ⟨by simp, _, rfl, rfl⟩
    | some devices =>
      refine .inr ⟨by simp, ?_⟩
      have hasc : s.body.ascending = .ok () := if_pos (by simp [DevSlot.answer])
      rcases s.invalid.result_cases with ⟨hclean, hok⟩ | ⟨hdirty, why, herror, hwhy⟩
      · exact .inl ⟨hclean, by simp [required, hok, hasc, bind, Except.bind]⟩
      · exact .inr ⟨hdirty, why, by simp [required, herror, bind, Except.bind], hwhy⟩

end BodySlots

/-- The bytes are one map of the section's shape, every known key there once and of its type. -/
def Structured (body : Bytes) : Prop := ∃ i, i.Legal maxDepth ∧ i.spelling = body ∧ sectionRule.Fits i

/-- Every value of it is one the schema takes, and neither list is past its cap. -/
def InSchema (body : Bytes) : Prop := ∃ i, i.Legal maxDepth ∧ i.spelling = body ∧ sectionRule.Within i

theorem BusesAndDevicesWrite.decode_cases (body : Bytes) :
    (¬Structured body ∧ ∃ why, BusesAndDevices.decode (δ := Option DevId) body = .error why ∧
      why.answer = .malformedFrame) ∨
    (Structured body ∧ ¬InSchema body ∧ ∃ why, BusesAndDevices.decode (δ := Option DevId) body = .error why ∧
      why.answer = .invalid) ∨
    (Structured body ∧ InSchema body ∧ ∃ s, BusesAndDevices.decode (δ := Option DevId) body = .ok s) := by
  rcases BusesAndDevices.decode_eq (δ := Option DevId) body with ⟨i, s, hi, hspell, hs, hdecode⟩ | ⟨hnone, why, herror, hwhy⟩
  · have hsound : Structured body ↔ s.buses.isSome ∧ s.devices.isSome := by
      constructor
      · rintro ⟨j, hj, hspell', hfits⟩
        obtain rfl := Item.spelling_inj hj hi (hspell'.trans hspell.symm)
        obtain ⟨s', hs', hthere⟩ := (BodySlots.ofItem_result hj).mpr hfits
        obtain rfl := Option.some.inj (hs.symm.trans hs')
        exact hthere
      · intro hthere
        exact ⟨i, hi, hspell, (BodySlots.ofItem_result hi).mp ⟨s, hs, hthere⟩⟩
    have hwithin : InSchema body ↔ s.invalid.Clean := by
      rw [BodySlots.ofItem_clean hs]
      constructor
      · rintro ⟨j, hj, hspell', hwithin⟩
        obtain rfl := Item.spelling_inj hj hi (hspell'.trans hspell.symm)
        exact hwithin
      · intro hwithin
        exact ⟨i, hi, hspell, hwithin⟩
    rw [hdecode, hsound, hwithin]
    rcases s.result_cases with hbad | ⟨hthere, ⟨hclean, hok⟩ | ⟨hdirty, hbad⟩⟩
    · exact .inl hbad
    · exact .inr (.inr ⟨hthere, hclean, s.body, hok⟩)
    · exact .inr (.inl ⟨hthere, hdirty, hbad⟩)
  · refine .inl ⟨?_, why, herror, hwhy⟩
    rintro ⟨i, hi, hspell, hfits⟩
    obtain ⟨s, hs, -⟩ := (BodySlots.ofItem_result hi).mpr hfits
    rw [hnone i hi hspell] at hs
    cases hs

/-- Every body in its class, and every section that passes its check back as it was. -/
theorem decode_classes (body : Bytes) :
    ((∃ why, BusesAndDevices.decode (δ := Option DevId) body = .error why ∧ why.answer = .malformedFrame) ↔
      ¬Structured body) ∧
    ((∃ why, BusesAndDevices.decode (δ := Option DevId) body = .error why ∧ why.answer = .invalid) ↔
      Structured body ∧ ¬InSchema body) ∧
    ((∃ s, BusesAndDevices.decode (δ := Option DevId) body = .ok s) ↔ Structured body ∧ InSchema body) ∧
    ∀ (rules : SiteRules) (s : BusesAndDevicesWrite), s.check rules = .ok () →
      ∃ written : Bytes, written.length ≤ maxBusesAndDevicesBytes ∧ BusesAndDevices.decode written = .ok s ∧
        ∀ capacity, written.length ≤ capacity → s.encode capacity = .ok written := by
  refine ⟨?_, ?_, ?_, ?_⟩
  rotate_left 3
  · intro rules s hcheck
    apply BusesAndDevices.encoded_back _ (if_pos (by simp [DevSlot.answer]))
    intro e he
    obtain ⟨transport, -, hfits⟩ := (legal_site.mp ((BusesAndDevices.check_ok s rules).mp hcheck)).buses_fit e he
    exact hfits.sets
  all_goals
    rcases BusesAndDevicesWrite.decode_cases body with
      ⟨hbroken, why, herror, hwhy⟩ | ⟨hsound, houtside, why, herror, hwhy⟩ | ⟨hsound, hwithin, s, hok⟩
  · simp [herror, hwhy, hbroken]
  · simp [herror, hwhy, hsound]
  · simp [hok, hsound]
  · simp [herror, hwhy, hbroken]
  · simp [herror, hwhy, hsound, houtside]
  · simp [hok, hwithin]
  · simp [herror, hbroken]
  · simp [herror, houtside]
  · simp [hok, hsound, hwithin]

end Km43.Devices
