import Km43.Devices.Classes
import Km43.Ts.Check
import Km43.Ts.Encode

namespace Km43.Ts

open Library Cbor
open Devices (DevId busRule optionsRule deviceRule sectionRule wire)

section

variable {α : Type} {k : ℕ} {o : Option α} {f : α → Item} {i : Item} {ps qs : List (Key × Item)}

theorem i64_ofNat (hk : k ≤ CborReader.i64Max) {j : ℤ} : (Key.ofNat k).i64? = some j ↔ j = k := by
  rw [Key.ofNat_i64 hk, Option.some.injEq, eq_comm]

def Typed (rule : MapRule) (p : Key × Item) : Prop := ∃ j, p.1.i64? = some j ∧ rule.typed j p.2

def Taken (rule : MapRule) (p : Key × Item) : Prop := ∀ j, p.1.i64? = some j → rule.within j p.2

variable {rule : MapRule}

theorem fits_pairs : rule.Fits (.ofPairs ps) ↔ (∀ p ∈ ps, Typed rule p) ∧ rule.enough (HasKey ps) := by
  constructor
  · rintro ⟨pairs, hpairs, h⟩
    obtain rfl := Option.some.inj hpairs
    exact h
  · intro h
    exact ⟨ps, rfl, h⟩

theorem within_pairs : rule.Within (.ofPairs ps) ↔ ∀ p ∈ ps, Taken rule p := by
  constructor
  · rintro ⟨pairs, hpairs, h⟩
    obtain rfl := Option.some.inj hpairs
    exact h
  · intro h
    exact ⟨ps, rfl, h⟩

theorem typed_pair (hk : k ≤ CborReader.i64Max) : Typed rule (Key.ofNat k, i) ↔ rule.typed k i := by
  unfold Typed
  simp only [i64_ofNat hk, exists_eq_left]

theorem typed_optional (hk : k ≤ CborReader.i64Max) :
    (∀ p ∈ optionalPair k o f, Typed rule p) ↔ ∀ a ∈ o, rule.typed k (f a) := by
  cases o <;> simp [optionalPair, typed_pair hk]

theorem taken_pair (hk : k ≤ CborReader.i64Max) : Taken rule (Key.ofNat k, i) ↔ rule.within k i := by
  unfold Taken
  simp only [i64_ofNat hk, forall_eq]

theorem taken_optional (hk : k ≤ CborReader.i64Max) :
    (∀ p ∈ optionalPair k o f, Taken rule p) ↔ ∀ a ∈ o, rule.within k (f a) := by
  cases o <;> simp [optionalPair, taken_pair hk]

theorem hasKey_cons (hk : k ≤ CborReader.i64Max) {j : ℤ} : HasKey ((Key.ofNat k, i) :: ps) j ↔ j = k ∨ HasKey ps j := by
  unfold HasKey
  simp only [List.mem_cons, exists_eq_or_imp, i64_ofNat hk]

theorem hasKey_append {j : ℤ} : HasKey (ps ++ qs) j ↔ HasKey ps j ∨ HasKey qs j := by
  unfold HasKey
  simp only [List.mem_append, or_and_right, exists_or]

theorem hasKey_optional (hk : k ≤ CborReader.i64Max) {j : ℤ} : HasKey (optionalPair k o f) j ↔ o.isSome ∧ j = k := by
  unfold HasKey
  cases o <;> simp [optionalPair, i64_ofNat hk]

end

section

variable {v : ℤ}

theorem uint_number (n max : ℕ) : (Item.ofNat n).uint max = if n ≤ max then some n else none := rfl

theorem u8_fits (h : 0 ≤ v) : (u8Of (Item.ofNat v.toNat)).isSome ↔ v ≤ 0xFF := by
  rw [u8Of, uint_number, Option.isSome_map]
  split_ifs <;> simp <;> omega

theorem u16_fits (h : 0 ≤ v) : (u16Of (Item.ofNat v.toNat)).isSome ↔ v ≤ 0xFFFF := by
  rw [u16Of, uint_number, Option.isSome_map]
  split_ifs <;> simp <;> omega

theorem u32_fits (h : 0 ≤ v) : (u32Of (Item.ofNat v.toNat)).isSome ↔ v ≤ 0xFFFFFFFF := by
  rw [u32Of, uint_number, Option.isSome_map]
  split_ifs <;> simp <;> omega

theorem u8_is (h : 0 ≤ v) {n : UInt8} : u8Of (Item.ofNat v.toNat) = some n ↔ v = n.toNat := by
  have hn := n.toNat_lt
  rw [u8Of, uint_number]
  split_ifs with hfits
  · rw [Option.map_some, Option.some.injEq, ← UInt8.toNat_inj, UInt8.toNat_ofNat']
    omega
  · simp only [Option.map_none, reduceCtorEq, false_iff]
    omega

theorem u16_is (h : 0 ≤ v) {n : UInt16} : u16Of (Item.ofNat v.toNat) = some n ↔ v = n.toNat := by
  have hn := n.toNat_lt
  rw [u16Of, uint_number]
  split_ifs with hfits
  · rw [Option.map_some, Option.some.injEq, ← UInt16.toNat_inj, UInt16.toNat_ofNat']
    omega
  · simp only [Option.map_none, reduceCtorEq, false_iff]
    omega

theorem u32_is (h : 0 ≤ v) {n : UInt32} : u32Of (Item.ofNat v.toNat) = some n ↔ v = n.toNat := by
  have hn := n.toNat_lt
  rw [u32Of, uint_number]
  split_ifs with hfits
  · rw [Option.map_some, Option.some.injEq, ← UInt32.toNat_inj, UInt32.toNat_ofNat']
    omega
  · simp only [Option.map_none, reduceCtorEq, false_iff]
    omega

end

theorem fits_max {o : Option ℤ} {max : ℤ} {ok : ℤ → Prop} (ho : ∀ v ∈ o, Carries v)
    (hok : ∀ {v : ℤ}, 0 ≤ v → (ok v ↔ v ≤ max)) : (∀ v ∈ o, ok v) ↔ fits o max := by
  cases o with
  | none => simp [fits]
  | some v =>
    have hlow := (ho v rfl).1
    simp [fits, hok hlow, hlow]

theorem refused_none {c : Prop} [Decidable c] {refusal : BusesAndDevicesRefusal} {rest : Option BusesAndDevicesRefusal} :
    (if c then some refusal else rest) = none ↔ ¬c ∧ rest = none := by
  split_ifs with hc <;> simp [hc]

theorem any_unknown {o : Option ℤ} {known : ℤ → Bool} : ¬(o.any fun v => !known v) = true ↔ ∀ v ∈ o, known v := by
  cases o <;> simp

theorem busShape_none (b : BusEntry) : busShape b = none ↔
    (fits (some b.bus) 0xFF ∧ fits b.rate 0xFFFFFFFF ∧ fits b.dataBits 0xFF ∧ fits b.stopBits 0xFF) ∧
    (∀ p ∈ b.parity, isParity p) ∧ (b.rate.isSome ∨ b.dataBits.isSome ∨ b.parity.isSome ∨ b.stopBits.isSome) := by
  unfold busShape
  rw [refused_none, refused_none, refused_none, any_unknown]
  simp only [not_or, not_not, not_and_or, ← ne_eq, ← Option.isSome_iff_ne_none, and_true]

theorem parity_typed {v : ℤ} (h : 0 ≤ v) : (u8Of (Item.ofNat v.toNat) = some 1 ∨ u8Of (Item.ofNat v.toNat) = some 2 ∨
    u8Of (Item.ofNat v.toNat) = some 3) ↔ isParity v := by
  rw [u8_is h, u8_is h, u8_is h]
  simp [isParity]

theorem fits_one {v max : ℤ} {ok : ℤ → Prop} (hv : Carries v) (hok : ∀ {v : ℤ}, 0 ≤ v → (ok v ↔ v ≤ max)) :
    ok v ↔ fits (some v) max := by
  rw [hok hv.1]
  simp [fits, hv.1]

theorem bus_fits {b : BusEntry} (hb : b.Carried) : busRule.Fits b.body.item ↔ busShape b = none := by
  have hbus := fits_one hb.bus u8_fits
  have hrate := fits_max hb.rate u32_fits
  have hdata := fits_max hb.dataBits u8_fits
  have hstop := fits_max hb.stopBits u8_fits
  have hparity := forall₂_congr fun v hv => parity_typed (hb.parity v hv).1
  rw [Devices.BusBody.item, fits_pairs, busShape_none]
  simp (disch := decide) only [Devices.BusBody.pairs, List.forall_mem_cons, List.forall_mem_append, typed_pair, typed_optional,
    busRule, hasKey_cons, hasKey_append, hasKey_optional]
  norm_num [BusEntry.body] at hrate hdata hstop hparity ⊢
  rw [hbus, hrate, hdata, hstop, hparity]
  tauto

theorem busValues_none (b : BusEntry) : busValues b = none ↔
    (∀ v ∈ b.rate, v ≠ 0) ∧ (∀ v ∈ b.dataBits, v = 7 ∨ v = 8) ∧ ∀ v ∈ b.stopBits, v = 1 ∨ v = 2 := by
  unfold busValues
  rw [refused_none, refused_none, refused_none]
  cases b.rate <;> cases b.dataBits <;> cases b.stopBits <;> simp [or_iff_not_imp_left]

theorem bus_within {b : BusEntry} (hb : b.Carried) : busRule.Within b.body.item ↔ busValues b = none := by
  have hrate := forall₂_congr fun v hv => not_congr (u32_is (hb.rate v hv).1 (n := 0))
  have hdata := forall₂_congr fun v hv =>
    or_congr (u8_is (hb.dataBits v hv).1 (n := 7)) (u8_is (hb.dataBits v hv).1 (n := 8))
  have hstop := forall₂_congr fun v hv =>
    or_congr (u8_is (hb.stopBits v hv).1 (n := 1)) (u8_is (hb.stopBits v hv).1 (n := 2))
  rw [Devices.BusBody.item, within_pairs, busValues_none]
  simp (disch := decide) only [Devices.BusBody.pairs, List.forall_mem_cons, List.forall_mem_append, taken_pair, taken_optional,
    busRule]
  norm_num [BusEntry.body] at hrate hdata hstop ⊢
  rw [hrate, hdata, hstop]
  exact Iff.rfl

theorem version_typed {v : ℤ} (h : 0 ≤ v) :
    (u8Of (Item.ofNat v.toNat) = some 1 ∨ u8Of (Item.ofNat v.toNat) = some 2) ↔ isPylontechVersion v := by
  rw [u8_is h, u8_is h]
  simp [isPylontechVersion]

theorem direction_typed {v : ℤ} (h : 0 ≤ v) : (u8Of (Item.ofNat v.toNat) = some 1 ∨ u8Of (Item.ofNat v.toNat) = some 2 ∨
    u8Of (Item.ofNat v.toNat) = some 3) ↔ isDirection v := by
  rw [u8_is h, u8_is h, u8_is h]
  simp [isDirection]

theorem options_enough {o : DeviceOptions} (hset : o.body.pairs ≠ []) : optionsRule.enough (HasKey o.body.pairs) := by
  obtain ⟨_ | _, _ | _, _ | _, _ | _⟩ := o
  case none.none.none.none => exact absurd rfl hset
  all_goals
    simp (disch := decide) only [optionsRule, Devices.OptionBody.pairs, hasKey_append, hasKey_optional]
    simp [DeviceOptions.body]

theorem options_fit {o : DeviceOptions} (ho : o.Carried) (hset : o.body.pairs ≠ []) :
    optionsRule.Fits o.body.item ↔ fits o.pollPeriodMs 0xFFFFFFFF ∧ (∀ v ∈ o.pylontechVersion, isPylontechVersion v) ∧
      ∀ v ∈ o.currentDirection, isDirection v := by
  have hdirection := forall₂_congr fun v hv => direction_typed (ho.currentDirection v hv).1
  have hversion := forall₂_congr fun v hv => version_typed (ho.pylontechVersion v hv).1
  have hperiod := fits_max ho.pollPeriodMs u32_fits
  have hlow : ∀ b, (Item.bool b).bool?.isSome = true := fun _ => rfl
  rw [Devices.OptionBody.item, fits_pairs, and_iff_left (options_enough hset)]
  simp (disch := decide) only [Devices.OptionBody.pairs, List.forall_mem_append, typed_optional, optionsRule]
  norm_num [DeviceOptions.body, hlow] at hdirection hversion hperiod ⊢
  rw [hdirection, hversion, hperiod]
  tauto

theorem options_within {o : DeviceOptions} (ho : o.Carried) :
    optionsRule.Within o.body.item ↔ o.currentDirection ≠ some 3 := by
  have hdirection := forall₂_congr fun v hv => not_congr (u8_is (ho.currentDirection v hv).1 (n := 3))
  rw [Devices.OptionBody.item, within_pairs]
  simp (disch := decide) only [Devices.OptionBody.pairs, List.forall_mem_append, taken_optional, optionsRule]
  norm_num [DeviceOptions.body] at hdirection ⊢
  rw [hdirection]
  cases o.currentDirection <;> simp

theorem options_sent {d : DeviceEntry (Option ℤ)} {held : MapRule → Key × Item → Prop} {R : MapRule → Item → Prop}
    (hheld : ∀ i, held deviceRule (Key.ofNat 8, i) ↔ R optionsRule i) :
    (∀ p ∈ Devices.DeviceBody.optionsPair d.body.options, held deviceRule p) ↔
      ∀ o ∈ d.options, o.body.pairs ≠ [] → R optionsRule o.body.item := by
  unfold Devices.DeviceBody.optionsPair DeviceEntry.body
  cases d.options with
  | none => simp [Devices.OptionBody.pairs, Devices.OptionBody.none, optionalPair]
  | some o =>
    rw [Option.elim_some]
    split_ifs with hunset
    · simp [hunset]
    · simp [hunset, hheld]

theorem options_none {o : DeviceOptions} (hunset : o.body.pairs = []) :
    o.pollPeriodMs = none ∧ o.pylontechVersion = none ∧ o.currentDirection = none := by
  obtain ⟨_ | _, _ | _, _ | _, _ | _⟩ := o
  case none.none.none.none => exact ⟨rfl, rfl, rfl⟩
  all_goals simp [DeviceOptions.body, Devices.OptionBody.pairs, optionalPair] at hunset

theorem deviceShape_none (d : DeviceEntry (Option ℤ)) : deviceShape d = none ↔
    (fits (some d.bus) 0xFF ∧ (fits d.dev 0xFFFF ∧ fits (some d.product) 0xFFFF ∧ fits (some d.dialect) 0xFFFF ∧
      fits (some d.role) 0xFFFF ∧ fits d.parent 0xFFFF) ∧ fits (d.options.bind (·.pollPeriodMs)) 0xFFFFFFFF) ∧
    (∀ v ∈ d.options.bind (·.pylontechVersion), isPylontechVersion v) ∧
    ∀ v ∈ d.options.bind (·.currentDirection), isDirection v := by
  unfold deviceShape
  rw [refused_none, refused_none, refused_none, any_unknown, any_unknown]
  simp only [not_or, not_not, and_true, List.all_cons, List.all_nil, Bool.and_true, Bool.and_eq_true]

theorem device_fits {d : DeviceEntry (Option ℤ)} (hd : d.Carried) : deviceRule.Fits d.body.item ↔ deviceShape d = none := by
  have hoptions : (∀ p ∈ Devices.DeviceBody.optionsPair d.body.options, Typed deviceRule p) ↔
      fits (d.options.bind (·.pollPeriodMs)) 0xFFFFFFFF ∧
      (∀ v ∈ d.options.bind (·.pylontechVersion), isPylontechVersion v) ∧
      ∀ v ∈ d.options.bind (·.currentDirection), isDirection v := by
    rw [options_sent (R := MapRule.Fits) fun i => by rw [typed_pair (by decide)]; simp [deviceRule]]
    cases ho : d.options with
    | none => simp [fits]
    | some o =>
      simp only [Option.mem_some_iff, forall_eq', Option.bind_some]
      by_cases hset : o.body.pairs = []
      · obtain ⟨hperiod, hversion, hdirection⟩ := options_none hset
        simp [hset, hperiod, hversion, hdirection, fits]
      · simp only [hset, ne_eq, not_false_eq_true, true_imp_iff]
        exact options_fit (hd.options o ho) hset
  have hdev := fits_max hd.dev u16_fits
  have hbus := fits_one hd.bus u8_fits
  have hproduct := fits_one hd.product u16_fits
  have hdialect := fits_one hd.dialect u16_fits
  have hrole := fits_one hd.role u16_fits
  have hparent := fits_max hd.parent u16_fits
  have haddr : ∀ raw, (Item.ofBytes raw).bytes?.isSome = true := fun _ => rfl
  have henough : deviceRule.enough (HasKey d.body.pairs) := by
    simp (disch := decide) only [deviceRule, Devices.DeviceBody.pairs, hasKey_cons, hasKey_append]
    simp
  rw [Devices.DeviceBody.item, fits_pairs, and_iff_left henough, deviceShape_none]
  simp (disch := decide) only [Devices.DeviceBody.pairs, List.forall_mem_cons, List.forall_mem_append, typed_pair,
    typed_optional, hoptions]
  norm_num [deviceRule, DeviceEntry.body, haddr] at hdev hparent ⊢
  rw [hdev, hbus, hproduct, hdialect, hrole, hparent]
  constructor
  · rintro ⟨hdev, hbus, hproduct, hdialect, hrole, hparent, hperiod, hversion, hdirection⟩
    exact ⟨⟨hbus, ⟨hdev, hproduct, hdialect, hrole, hparent⟩, hperiod⟩, hversion, hdirection⟩
  · rintro ⟨⟨hbus, ⟨hdev, hproduct, hdialect, hrole, hparent⟩, hperiod⟩, hversion, hdirection⟩
    exact ⟨hdev, hbus, hproduct, hdialect, hrole, hparent, hperiod, hversion, hdirection⟩

theorem deviceValues_none (d : DeviceEntry (Option ℤ)) : deviceValues d = none ↔
    (∀ v ∈ d.dev, v ≠ 0) ∧ (∀ raw ∈ d.addr, 0 < raw.length ∧ raw.length ≤ maxAddr) ∧ (∀ v ∈ d.parent, v ≠ 0) ∧
      d.options.bind (·.currentDirection) ≠ some 3 := by
  unfold deviceValues
  rw [refused_none, refused_none, refused_none, refused_none]
  cases d.dev <;> cases d.addr <;> cases d.parent <;> simp [Nat.pos_iff_ne_zero]

theorem device_within {d : DeviceEntry (Option ℤ)} (hd : d.Carried) :
    deviceRule.Within d.body.item ↔ deviceValues d = none := by
  have hoptions : (∀ p ∈ Devices.DeviceBody.optionsPair d.body.options, Taken deviceRule p) ↔
      d.options.bind (·.currentDirection) ≠ some 3 := by
    rw [options_sent (R := MapRule.Within) fun i => by rw [taken_pair (by decide)]; simp [deviceRule]]
    cases ho : d.options with
    | none => simp
    | some o =>
      simp only [Option.mem_some_iff, forall_eq', Option.bind_some]
      by_cases hset : o.body.pairs = []
      · simp [hset, (options_none hset).2.2]
      · simp only [hset, ne_eq, not_false_eq_true, true_imp_iff]
        exact options_within (hd.options o ho)
  have hdev := forall₂_congr fun v hv => not_congr (u16_is (hd.dev v hv).1 (n := 0))
  have hparent := forall₂_congr fun v hv => not_congr (u16_is (hd.parent v hv).1 (n := 0))
  have haddr : ∀ raw, (∃ held, (Item.ofBytes raw).bytes? = some held ∧ 0 < held.length ∧ held.length ≤ maxAddr) ↔
      0 < raw.length ∧ raw.length ≤ maxAddr := by
    intro raw
    simp [Item.ofBytes, Item.bytes?]
  rw [Devices.DeviceBody.item, within_pairs, deviceValues_none]
  simp (disch := decide) only [Devices.DeviceBody.pairs, List.forall_mem_cons, List.forall_mem_append, taken_pair,
    taken_optional, hoptions]
  norm_num [deviceRule, DeviceEntry.body] at hdev hparent ⊢
  simp only [haddr]
  rw [hdev, hparent]

theorem section_fits {s : BusesAndDevicesWrite} (hs : s.Carried) : sectionRule.Fits s.body.item ↔
    (∀ b ∈ s.buses, busShape b = none) ∧ ∀ d ∈ s.devices, deviceShape d = none := by
  have hbuses := forall₂_congr fun b hb => bus_fits (hs.buses b hb)
  have hdevices := forall₂_congr fun d hd => device_fits (hs.devices d hd)
  have henough : sectionRule.enough (HasKey s.body.pairs) := by
    simp (disch := decide) only [sectionRule, Devices.Body.pairs, hasKey_cons]
    simp
  rw [Devices.Body.item, fits_pairs, and_iff_left henough, ← hbuses, ← hdevices]
  simp (disch := decide) only [Devices.Body.pairs, List.forall_mem_cons, typed_pair]
  simp [sectionRule, Item.items?, Item.ofItems, BusesAndDevices.body]

theorem section_within {s : BusesAndDevicesWrite} (hs : s.Carried) : sectionRule.Within s.body.item ↔
    (s.buses.length ≤ maxConfigBuses ∧ ∀ b ∈ s.buses, busValues b = none) ∧
      s.devices.length ≤ maxConfigDevices ∧ ∀ d ∈ s.devices, deviceValues d = none := by
  have hbuses := forall₂_congr fun b hb => bus_within (hs.buses b hb)
  have hdevices := forall₂_congr fun d hd => device_within (hs.devices d hd)
  rw [Devices.Body.item, within_pairs, ← hbuses, ← hdevices]
  simp (disch := decide) only [Devices.Body.pairs, List.forall_mem_cons, taken_pair]
  simp [sectionRule, Item.items?, Item.ofItems, BusesAndDevices.body]

end Km43.Ts
