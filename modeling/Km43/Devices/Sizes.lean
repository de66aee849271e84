import Km43.Cbor.Cells
import Km43.Devices.Encode

namespace Km43.Devices

open Cbor CborWriter

def maxBusesAndDevicesBytes : ℕ := 901

def wire : ℕ := 0xFFFFFFFF

structure BusBody.Carried (b : BusBody) : Prop where
  bus : b.bus ≤ wire
  rate : ∀ n ∈ b.rate, n ≤ wire
  dataBits : ∀ n ∈ b.dataBits, n ≤ wire
  parity : ∀ n ∈ b.parity, n ≤ wire
  stopBits : ∀ n ∈ b.stopBits, n ≤ wire

structure OptionBody.Carried (b : OptionBody) : Prop where
  currentDirection : ∀ n ∈ b.currentDirection, n ≤ wire
  pylontechVersion : ∀ n ∈ b.pylontechVersion, n ≤ wire
  pollPeriodMs : ∀ n ∈ b.pollPeriodMs, n ≤ wire

structure DeviceBody.Carried (b : DeviceBody) : Prop where
  dev : ∀ n ∈ b.dev, n ≤ wire
  bus : b.bus ≤ wire
  addr : ∀ raw ∈ b.addr, raw.length ≤ wire
  product : b.product ≤ wire
  dialect : b.dialect ≤ wire
  role : b.role ≤ wire
  parent : ∀ n ∈ b.parent, n ≤ wire
  options : b.options.Carried

structure Body.Carried (b : Body) : Prop where
  buses : ∀ e ∈ b.buses, e.Carried
  devices : ∀ e ∈ b.devices, e.Carried
  buses_le : b.buses.length ≤ wire
  devices_le : b.devices.length ≤ wire

theorem lt_of_wire {n : ℕ} (h : n ≤ wire) : n < 2 ^ 64 := by
  unfold wire at h
  omega

section

variable {α : Type} {d k : ℕ}

theorem optionalPair_legal (hk : k < 2 ^ 64) {o : Option α} {f : α → Item}
    (h : ∀ a ∈ o, (f a).Legal d) : ∀ p ∈ optionalPair k o f, p.1.Legal ∧ p.2.Legal d := by
  cases o with
  | none => simp [optionalPair]
  | some a => simpa [optionalPair] using ⟨Key.ofNat_legal hk, h a rfl⟩

theorem optionalNat_legal (hk : k < 2 ^ 64) {o : Option ℕ} (h : ∀ n ∈ o, n ≤ wire) :
    ∀ p ∈ optionalPair k o Item.ofNat, p.1.Legal ∧ p.2.Legal d :=
  optionalPair_legal hk fun n hn => Item.ofNat_legal (lt_of_wire (h n hn))

theorem pairNat_legal (hk : k < 2 ^ 64) {n : ℕ} (h : n ≤ wire) :
    (Key.ofNat k).Legal ∧ (Item.ofNat n).Legal d :=
  ⟨Key.ofNat_legal hk, Item.ofNat_legal (lt_of_wire h)⟩

end

theorem BusBody.item_legal {b : BusBody} (h : b.Carried) {d : ℕ} : b.item.Legal (d + 1) := by
  refine Item.ofPairs_legal ?_ b.pairs_ascend ?_
  · have h2 := optionalPair_length 2 b.rate Item.ofNat
    have h3 := optionalPair_length 3 b.dataBits Item.ofNat
    have h4 := optionalPair_length 4 b.parity Item.ofNat
    have h5 := optionalPair_length 5 b.stopBits Item.ofNat
    simp only [pairs, List.length_cons, List.length_append]
    omega
  · simp only [pairs, List.forall_mem_cons, List.forall_mem_append]
    exact ⟨pairNat_legal (by decide) h.bus, optionalNat_legal (by decide) h.rate,
      optionalNat_legal (by decide) h.dataBits, optionalNat_legal (by decide) h.parity,
      optionalNat_legal (by decide) h.stopBits⟩

theorem OptionBody.item_legal {b : OptionBody} (h : b.Carried) {d : ℕ} : b.item.Legal (d + 1) := by
  refine Item.ofPairs_legal ?_ b.pairs_ascend ?_
  · have h1 := optionalPair_length 1 b.currentDirection Item.ofNat
    have h2 := optionalPair_length 2 b.pylontechVersion Item.ofNat
    have h3 := optionalPair_length 3 b.veDirect3v3 Item.bool
    have h4 := optionalPair_length 4 b.pollPeriodMs Item.ofNat
    simp only [pairs, List.length_append]
    omega
  · simp only [pairs, List.forall_mem_append]
    exact ⟨optionalNat_legal (by decide) h.currentDirection,
      optionalNat_legal (by decide) h.pylontechVersion,
      optionalPair_legal (by decide) fun _ _ => Item.bool_legal,
      optionalNat_legal (by decide) h.pollPeriodMs⟩

theorem DeviceBody.item_legal {b : DeviceBody} (h : b.Carried) {d : ℕ} : b.item.Legal (d + 2) := by
  have hoptions : (optionsPair b.options).length ≤ 1 ∧
      ∀ p ∈ optionsPair b.options, p.1.Legal ∧ p.2.Legal (d + 1) := by
    unfold optionsPair
    split_ifs
    · simp
    · simpa using ⟨Key.ofNat_legal (by decide), OptionBody.item_legal h.options⟩
  refine Item.ofPairs_legal ?_ b.pairs_ascend ?_
  · have h1 := optionalPair_length 1 b.dev Item.ofNat
    have h3 := optionalPair_length 3 b.addr Item.ofBytes
    have h7 := optionalPair_length 7 b.parent Item.ofNat
    have h8 := hoptions.1
    simp only [pairs, List.length_cons, List.length_append]
    omega
  · simp only [pairs, List.forall_mem_cons, List.forall_mem_append]
    exact ⟨optionalNat_legal (by decide) h.dev, pairNat_legal (by decide) h.bus,
      optionalPair_legal (by decide) fun raw hraw => Item.ofBytes_legal (lt_of_wire (h.addr raw hraw)),
      pairNat_legal (by decide) h.product, pairNat_legal (by decide) h.dialect,
      pairNat_legal (by decide) h.role, optionalNat_legal (by decide) h.parent, hoptions.2⟩

theorem Body.item_legal {b : Body} (h : b.Carried) : b.item.Legal maxDepth := by
  have hbuses : (Item.ofItems (b.buses.map BusBody.item)).Legal 7 := by
    refine Item.ofItems_legal (by simpa using lt_of_wire h.buses_le) fun i hi => ?_
    obtain ⟨e, he, rfl⟩ := List.mem_map.mp hi
    exact BusBody.item_legal (h.buses e he)
  have hdevices : (Item.ofItems (b.devices.map DeviceBody.item)).Legal 7 := by
    refine Item.ofItems_legal (by simpa using lt_of_wire h.devices_le) fun i hi => ?_
    obtain ⟨e, he, rfl⟩ := List.mem_map.mp hi
    exact DeviceBody.item_legal (h.devices e he)
  refine Item.ofPairs_legal (show 2 < 2 ^ 64 by decide) b.pairs_ascend ?_
  simp only [pairs, List.forall_mem_cons]
  exact ⟨⟨Key.ofNat_legal (by decide), hbuses⟩, ⟨Key.ofNat_legal (by decide), hdevices⟩, by simp⟩

theorem BusEntry.body_length (e : BusEntry) : e.body.item.spelling.length ≤ 16 := by
  have hcount : e.body.pairs.length < 24 := by
    have h2 := optionalPair_length 2 e.body.rate Item.ofNat
    have h3 := optionalPair_length 3 e.body.dataBits Item.ofNat
    have h4 := optionalPair_length 4 e.body.parity Item.ofNat
    have h5 := optionalPair_length 5 e.body.stopBits Item.ofNat
    simp only [BusBody.pairs, List.length_cons, List.length_append]
    omega
  have hbus := pair_length (k := 1) (by decide) (Item.ofNat e.bus.toNat)
  have hbus' := ofNat_length_u8 e.bus
  have hrate := optionalPair_spelling (k := 2) (by decide) e.rate fun r => ofNat_length_u32 r.raw
  have hdata := optionalPair_spelling (k := 3) (by decide) e.dataBits (g := (·.wire.toNat))
    (f := Item.ofNat) (c := 1) fun b => ofNat_length_inline (by cases b <;> decide)
  have hparity := optionalPair_spelling (k := 4) (by decide) e.parity (g := (·.byte.toNat))
    (f := Item.ofNat) (c := 1) fun b => ofNat_length_inline (by cases b <;> decide)
  have hstop := optionalPair_spelling (k := 5) (by decide) e.stopBits (g := (·.wire.toNat))
    (f := Item.ofNat) (c := 1) fun b => ofNat_length_inline (by cases b <;> decide)
  have hpairs : e.body.pairs = [(Key.ofNat 1, Item.ofNat e.bus.toNat)] ++
      (optionalPair 2 (e.rate.map (·.raw.toNat)) Item.ofNat ++
        (optionalPair 3 (e.dataBits.map (·.wire.toNat)) Item.ofNat ++
          (optionalPair 4 (e.parity.map (·.byte.toNat)) Item.ofNat ++
            optionalPair 5 (e.stopBits.map (·.wire.toNat)) Item.ofNat))) := rfl
  rw [BusBody.item, ofPairs_length hcount, hpairs]
  simp only [Item.spellPairs_append, List.length_append]
  omega

theorem DeviceOptions.body_length (o : DeviceOptions) : o.body.item.spelling.length ≤ 13 := by
  have hcount : o.body.pairs.length < 24 := by
    have h1 := optionalPair_length 1 o.body.currentDirection Item.ofNat
    have h2 := optionalPair_length 2 o.body.pylontechVersion Item.ofNat
    have h3 := optionalPair_length 3 o.body.veDirect3v3 Item.bool
    have h4 := optionalPair_length 4 o.body.pollPeriodMs Item.ofNat
    simp only [OptionBody.pairs, List.length_append]
    omega
  have hdirection := optionalPair_spelling (k := 1) (by decide) o.currentDirection
    (g := (·.direction.byte.toNat)) (f := Item.ofNat) (c := 1)
    fun b => ofNat_length_inline (by cases b <;> decide)
  have hversion := optionalPair_spelling (k := 2) (by decide) o.pylontechVersion
    (g := (·.byte.toNat)) (f := Item.ofNat) (c := 1) fun b => ofNat_length_inline (by cases b <;> decide)
  have hlow := optionalPair_spelling (k := 3) (by decide) o.veDirect3v3 (g := id) (f := Item.bool)
    (c := 1) fun b => by cases b <;> decide
  have hperiod := optionalPair_spelling (k := 4) (by decide) o.pollPeriodMs (g := (·.toNat))
    fun n => ofNat_length_u32 n
  rw [Option.map_id, id_eq] at hlow
  have hpairs : o.body.pairs =
      optionalPair 1 (o.currentDirection.map (·.direction.byte.toNat)) Item.ofNat ++
        (optionalPair 2 (o.pylontechVersion.map (·.byte.toNat)) Item.ofNat ++
          (optionalPair 3 o.veDirect3v3 Item.bool ++
            optionalPair 4 (o.pollPeriodMs.map (·.toNat)) Item.ofNat)) := rfl
  rw [OptionBody.item, ofPairs_length hcount, hpairs]
  simp only [Item.spellPairs_append, List.length_append]
  omega

theorem DeviceEntry.body_length {δ : Type} [DevSlot δ] (e : DeviceEntry δ) :
    e.body.item.spelling.length ≤ 48 := by
  have hoptions : (Item.spellPairs (DeviceBody.optionsPair e.options.body)).length ≤ 14 := by
    unfold DeviceBody.optionsPair
    split_ifs
    · simp [Item.spellPairs]
    · have hpair := pair_length (k := 8) (by decide) e.options.body.item
      have hle := e.options.body_length
      omega
  have hcount : e.body.pairs.length < 24 := by
    have h1 := optionalPair_length 1 e.body.dev Item.ofNat
    have h3 := optionalPair_length 3 e.body.addr Item.ofBytes
    have h7 := optionalPair_length 7 e.body.parent Item.ofNat
    have h8 : (DeviceBody.optionsPair e.body.options).length ≤ 1 := by
      unfold DeviceBody.optionsPair
      split_ifs <;> simp
    simp only [DeviceBody.pairs, List.length_cons, List.length_append]
    omega
  have hdev := optionalPair_spelling (k := 1) (by decide) (DevSlot.dev e.dev) (g := DevId.toNat)
    fun dev => ofNat_length_u16 dev.raw
  have hbus := pair_length (k := 2) (by decide) (Item.ofNat e.bus.toNat)
  have hbus' := ofNat_length_u8 e.bus
  have haddr := optionalPair_spelling (k := 3) (by decide) e.addr (g := (·.bytes)) (f := Item.ofBytes)
    (c := 9) fun addr => by
      have hle := addr.bounded.2
      have hhead := (headBytes_le .bytes (n := addr.bytes.length)).2.2.2.2 (by unfold maxAddr at hle; omega)
      rw [Item.ofBytes, Item.spelling, Token.spelling, List.length_append, hhead]
      unfold maxAddr at hle
      omega
  have hproduct := pair_length (k := 4) (by decide) (Item.ofNat e.product.toNat)
  have hproduct' := ofNat_length_u16 e.product
  have hdialect := pair_length (k := 5) (by decide) (Item.ofNat e.dialect.toNat)
  have hdialect' := ofNat_length_u16 e.dialect
  have hrole := pair_length (k := 6) (by decide) (Item.ofNat e.role.toNat)
  have hrole' := ofNat_length_u16 e.role
  have hparent := optionalPair_spelling (k := 7) (by decide) e.parent (g := DevId.toNat)
    fun dev => ofNat_length_u16 dev.raw
  have hpairs : e.body.pairs = optionalPair 1 ((DevSlot.dev e.dev).map DevId.toNat) Item.ofNat ++
      ([(Key.ofNat 2, Item.ofNat e.bus.toNat)] ++
        (optionalPair 3 (e.addr.map (·.bytes)) Item.ofBytes ++
          ([(Key.ofNat 4, Item.ofNat e.product.toNat)] ++
            ([(Key.ofNat 5, Item.ofNat e.dialect.toNat)] ++
              ([(Key.ofNat 6, Item.ofNat e.role.toNat)] ++
                (optionalPair 7 (e.parent.map DevId.toNat) Item.ofNat ++
                  DeviceBody.optionsPair e.options.body)))))) := rfl
  rw [DeviceBody.item, ofPairs_length hcount, hpairs]
  simp only [Item.spellPairs_append, List.length_append]
  omega

theorem BusesAndDevices.body_length {δ : Type} [DevSlot δ] (s : BusesAndDevices δ) :
    s.body.item.spelling.length ≤ maxBusesAndDevicesBytes := by
  have hbl := s.buses_le
  have hdl := s.devices_le
  unfold maxConfigBuses at hbl
  unfold maxConfigDevices at hdl
  have hbuses : (Item.spellAll (s.body.buses.map BusBody.item)).length ≤ s.buses.length * 16 := by
    have h := spellAll_length (c := 16) (s.body.buses.map BusBody.item) fun i hi => by
      simp only [body, List.map_map, List.mem_map, Function.comp] at hi
      obtain ⟨e, -, rfl⟩ := hi
      exact e.body_length
    simpa [body] using h
  have hdevices : (Item.spellAll (s.body.devices.map DeviceBody.item)).length ≤
      s.devices.length * 48 := by
    have h := spellAll_length (c := 48) (s.body.devices.map DeviceBody.item) fun i hi => by
      simp only [body, List.map_map, List.mem_map, Function.comp] at hi
      obtain ⟨e, -, rfl⟩ := hi
      exact e.body_length
    simpa [body] using h
  have hb := pair_length (k := 1) (by decide) (Item.ofItems (s.body.buses.map BusBody.item))
  have hd := pair_length (k := 2) (by decide) (Item.ofItems (s.body.devices.map DeviceBody.item))
  rw [ofItems_length (by simp [body]; omega)] at hb hd
  rw [Body.item, ofPairs_length (by simp [Body.pairs]), Body.pairs, spellPairs_cons, List.length_append]
  unfold maxBusesAndDevicesBytes
  omega

end Km43.Devices
