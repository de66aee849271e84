import Km43.Devices.Decode
import Km43.Cbor.Calls

namespace Km43.Devices

open Cbor CborWriter

structure BusBody where
  bus : ℕ
  rate : Option ℕ
  dataBits : Option ℕ
  parity : Option ℕ
  stopBits : Option ℕ
  deriving DecidableEq

structure OptionBody where
  currentDirection : Option ℕ
  pylontechVersion : Option ℕ
  veDirect3v3 : Option Bool
  pollPeriodMs : Option ℕ
  deriving DecidableEq

structure DeviceBody where
  dev : Option ℕ
  bus : ℕ
  addr : Option Bytes
  product : ℕ
  dialect : ℕ
  role : ℕ
  parent : Option ℕ
  options : OptionBody
  deriving DecidableEq

structure Body where
  buses : List BusBody
  devices : List DeviceBody
  deriving DecidableEq

namespace BusBody

def pairs (b : BusBody) : List (Key × Item) :=
  (Key.ofNat 1, Item.ofNat b.bus) :: (optionalPair 2 b.rate Item.ofNat ++
    (optionalPair 3 b.dataBits Item.ofNat ++ (optionalPair 4 b.parity Item.ofNat ++
      optionalPair 5 b.stopBits Item.ofNat)))

def item (b : BusBody) : Item := .ofPairs b.pairs

theorem pairs_ascend (b : BusBody) : Ascends none b.pairs := by
  obtain ⟨bus, _ | _, _ | _, _ | _, _ | _⟩ := b <;>
    simp [pairs, optionalPair, Ascends, Key.ofNat_rank, KeyRank.le]

end BusBody

namespace OptionBody

def none : OptionBody := ⟨.none, .none, .none, .none⟩

def pairs (b : OptionBody) : List (Key × Item) :=
  optionalPair 1 b.currentDirection Item.ofNat ++ (optionalPair 2 b.pylontechVersion Item.ofNat ++
    (optionalPair 3 b.veDirect3v3 Item.bool ++ optionalPair 4 b.pollPeriodMs Item.ofNat))

def item (b : OptionBody) : Item := .ofPairs b.pairs

theorem pairs_ascend (b : OptionBody) : Ascends .none b.pairs := by
  obtain ⟨_ | _, _ | _, _ | _, _ | _⟩ := b <;>
    simp [pairs, optionalPair, Ascends, Key.ofNat_rank, KeyRank.le]

end OptionBody

namespace DeviceBody

def optionsPair (b : OptionBody) : List (Key × Item) :=
  if b.pairs = [] then [] else [(Key.ofNat 8, b.item)]

def pairs (b : DeviceBody) : List (Key × Item) :=
  optionalPair 1 b.dev Item.ofNat ++ ((Key.ofNat 2, Item.ofNat b.bus) ::
    (optionalPair 3 b.addr Item.ofBytes ++ ((Key.ofNat 4, Item.ofNat b.product) ::
      (Key.ofNat 5, Item.ofNat b.dialect) :: (Key.ofNat 6, Item.ofNat b.role) ::
        (optionalPair 7 b.parent Item.ofNat ++ optionsPair b.options))))

def item (b : DeviceBody) : Item := .ofPairs b.pairs

theorem pairs_ascend (b : DeviceBody) : Ascends none b.pairs := by
  obtain ⟨_ | _, bus, _ | _, product, dialect, role, _ | _, options⟩ := b <;>
    simp only [pairs, optionalPair, optionsPair] <;> split_ifs <;>
      simp [Ascends, Key.ofNat_rank, KeyRank.le]

end DeviceBody

namespace Body

def pairs (b : Body) : List (Key × Item) :=
  [(Key.ofNat 1, .ofItems (b.buses.map BusBody.item)),
    (Key.ofNat 2, .ofItems (b.devices.map DeviceBody.item))]

def item (b : Body) : Item := .ofPairs b.pairs

theorem pairs_ascend (b : Body) : Ascends none b.pairs := by
  simp [pairs, Ascends, Key.ofNat_rank, KeyRank.le]

end Body

open Library

def pair (k : BusesAndDevicesKey) (value : Write Unit) : Write Unit := do
  key k.number
  value

def optional {α : Type} (k : BusesAndDevicesKey) (o : Option α) (value : α → Write Unit) : Write Unit :=
  match o with
  | some a => pair k (value a)
  | none => pure ()

namespace BusEntry

def pairs (e : BusEntry) : ℕ :=
  1 + e.rate.toList.length + e.dataBits.toList.length + e.parity.toList.length +
    e.stopBits.toList.length

def encode (e : BusEntry) : Write Unit := do
  map e.pairs
  pair .bus (u64 e.bus.toNat)
  optional .rate e.rate fun rate => u64 rate.raw.toNat
  optional .dataBits e.dataBits fun bits => u64 bits.wire.toNat
  optional .parity e.parity fun parity => u64 parity.byte.toNat
  optional .stopBits e.stopBits fun bits => u64 bits.wire.toNat

def body (e : BusEntry) : BusBody where
  bus := e.bus.toNat
  rate := e.rate.map (·.raw.toNat)
  dataBits := e.dataBits.map (·.wire.toNat)
  parity := e.parity.map (·.byte.toNat)
  stopBits := e.stopBits.map (·.wire.toNat)

end BusEntry

namespace DeviceOptions

def pairs (o : DeviceOptions) : ℕ := o.set.length

def encode (o : DeviceOptions) : Write Unit := do
  map o.pairs
  optional (.option .currentDirection) o.currentDirection fun direction =>
    u64 direction.direction.byte.toNat
  optional (.option .pylontechVersion) o.pylontechVersion fun version => u64 version.byte.toNat
  optional (.option .veDirect3v3) o.veDirect3v3 fun low => bool low
  optional (.option .pollPeriod) o.pollPeriodMs fun period => u64 period.toNat

def body (o : DeviceOptions) : OptionBody where
  currentDirection := o.currentDirection.map (·.direction.byte.toNat)
  pylontechVersion := o.pylontechVersion.map (·.byte.toNat)
  veDirect3v3 := o.veDirect3v3
  pollPeriodMs := o.pollPeriodMs.map (·.toNat)

end DeviceOptions

namespace DeviceEntry

variable {δ : Type} [DevSlot δ]

def pairs (d : DeviceEntry δ) : ℕ :=
  4 + (DevSlot.dev d.dev).toList.length + d.addr.toList.length + d.parent.toList.length +
    if d.options ≠ DeviceOptions.none then 1 else 0

def encode (d : DeviceEntry δ) : Write Unit := do
  map d.pairs
  optional .dev (DevSlot.dev d.dev) fun dev => u64 dev.toNat
  pair .deviceBus (u64 d.bus.toNat)
  optional .addr d.addr fun addr => bytes addr.bytes
  pair .product (u64 d.product.toNat)
  pair .dialect (u64 d.dialect.toNat)
  pair .role (u64 d.role.toNat)
  optional .parent d.parent fun parent => u64 parent.toNat
  if d.options ≠ DeviceOptions.none then pair .options d.options.encode else pure ()

def body (d : DeviceEntry δ) : DeviceBody where
  dev := (DevSlot.dev d.dev).map DevId.toNat
  bus := d.bus.toNat
  addr := d.addr.map (·.bytes)
  product := d.product.toNat
  dialect := d.dialect.toNat
  role := d.role.toNat
  parent := d.parent.map DevId.toNat
  options := d.options.body

end DeviceEntry

namespace BusesAndDevices

variable {δ : Type} [DevSlot δ]

def write (s : BusesAndDevices δ) : Write Unit := do
  map 2
  pair .buses (do array s.buses.length; s.buses.forM BusEntry.encode)
  pair .devices (do array s.devices.length; s.devices.forM DeviceEntry.encode)

def encode (s : BusesAndDevices δ) (capacity : ℕ) : Except ConfigError Bytes := do
  s.ascending
  let (_, cbor) ← (s.write (new capacity)).mapError FromCbor.cbor
  let (len, cbor) ← cbor.finish.mapError FromCbor.cbor
  .ok (cbor.out.take len)

def body (s : BusesAndDevices δ) : Body := ⟨s.buses.map BusEntry.body, s.devices.map DeviceEntry.body⟩

end BusesAndDevices

section

variable {d : ℕ} {m : Write Unit} {i : Item}

theorem writes_pair (h : Writes d m i) (k : BusesAndDevicesKey) :
    WritesPairs d (pair k m) [(Key.ofNat k.number, i)] := WritesPairs.pair h k.number

theorem writes_optional {α β : Type} {value : α → Write Unit} {f : β → Item} {g : α → β}
    (h : ∀ a, Writes d (value a) (f (g a))) (k : BusesAndDevicesKey) (o : Option α) :
    WritesPairs d (optional k o value) (optionalPair k.number (o.map g) f) := by
  cases o with
  | none => exact .nil
  | some a => exact writes_pair (h a) k

end

variable {d : ℕ} {δ : Type}

theorem BusEntry.encode_writes (e : BusEntry) : Writes (d + 1) e.encode e.body.item := by
  refine writes_map ?_ ?_ e.body.pairs_ascend
  · exact (writes_pair (writes_u64 _) .bus).append <|
      (writes_optional (fun _ => writes_u64 _) .rate _).append <|
      (writes_optional (fun _ => writes_u64 _) .dataBits _).append <|
      (writes_optional (fun _ => writes_u64 _) .parity _).append <|
      (writes_optional (fun _ => writes_u64 _) .stopBits _)
  · obtain ⟨bus, _ | _, _ | _, _ | _, _ | _⟩ := e <;> rfl

theorem DeviceOptions.encode_writes (o : DeviceOptions) : Writes (d + 1) o.encode o.body.item := by
  refine writes_map ?_ ?_ o.body.pairs_ascend
  · have hlow := writes_optional (d := d) (g := id) (fun _ => writes_bool _) (.option .veDirect3v3)
      o.veDirect3v3
    rw [Option.map_id] at hlow
    exact (writes_optional (fun _ => writes_u64 _) (.option .currentDirection) _).append <|
      (writes_optional (fun _ => writes_u64 _) (.option .pylontechVersion) _).append <|
      hlow.append <|
      (writes_optional (fun _ => writes_u64 _) (.option .pollPeriod) _)
  · obtain ⟨_ | _, _ | _, _ | _, _ | _⟩ := o <;> rfl

theorem DeviceOptions.body_pairs (o : DeviceOptions) : o.body.pairs = [] ↔ o = DeviceOptions.none := by
  obtain ⟨_ | _, _ | _, _ | _, _ | _⟩ := o <;>
    simp [OptionBody.pairs, optionalPair, DeviceOptions.body, DeviceOptions.none]

theorem DeviceEntry.encode_writes [DevSlot δ] (e : DeviceEntry δ) :
    Writes (d + 2) e.encode e.body.item := by
  have hoptions : WritesPairs (d + 1)
      (if e.options ≠ DeviceOptions.none then pair .options e.options.encode else pure ())
      (DeviceBody.optionsPair e.options.body) := by
    unfold DeviceBody.optionsPair
    by_cases h : e.options = DeviceOptions.none
    · rw [if_neg (not_not.mpr h), if_pos ((DeviceOptions.body_pairs _).mpr h)]
      exact .nil
    · rw [if_pos h, if_neg (mt (DeviceOptions.body_pairs _).mp h)]
      exact writes_pair e.options.encode_writes .options
  refine writes_map ?_ ?_ e.body.pairs_ascend
  · exact (writes_optional (fun _ => writes_u64 _) .dev _).append <|
      (writes_pair (writes_u64 _) .deviceBus).append <|
      (writes_optional (fun _ => writes_bytes _) .addr _).append <|
      (writes_pair (writes_u64 _) .product).append <|
      (writes_pair (writes_u64 _) .dialect).append <|
      (writes_pair (writes_u64 _) .role).append <|
      (writes_optional (fun _ => writes_u64 _) .parent _).append hoptions
  · have hlast : (DeviceBody.optionsPair e.options.body).length =
        if e.options ≠ DeviceOptions.none then 1 else 0 := by
      unfold DeviceBody.optionsPair
      by_cases h : e.options = DeviceOptions.none
      · rw [if_pos ((DeviceOptions.body_pairs _).mpr h), if_neg (not_not.mpr h)]
        rfl
      · rw [if_neg (mt (DeviceOptions.body_pairs _).mp h), if_pos h]
        rfl
    simp only [DeviceBody.pairs, optionalPair, DeviceEntry.body, DeviceEntry.pairs,
      List.length_append, List.length_cons, hlast]
    cases DevSlot.dev e.dev <;> cases e.addr <;> cases e.parent <;>
      simp only [Option.map_none, Option.map_some, Option.toList_none, Option.toList_some,
        List.length_nil, List.length_singleton] <;> omega

namespace BusesAndDevices

variable [DevSlot δ]

theorem write_writes (s : BusesAndDevices δ) : Writes (d + 4) s.write s.body.item := by
  refine writes_map ?_ rfl s.body.pairs_ascend
  have hbuses : Writes (d + 3) (do array s.buses.length; s.buses.forM BusEntry.encode)
      (.ofItems (s.body.buses.map BusBody.item)) := by
    refine writes_array ?_ (by simp [body])
    rw [body, List.map_map]
    exact WritesItems.forM (fun e => e.encode_writes) _
  have hdevices : Writes (d + 3) (do array s.devices.length; s.devices.forM DeviceEntry.encode)
      (.ofItems (s.body.devices.map DeviceBody.item)) := by
    refine writes_array ?_ (by simp [body])
    rw [body, List.map_map]
    exact WritesItems.forM (fun e => e.encode_writes) _
  exact (writes_pair hbuses .buses).append (writes_pair hdevices .devices)

theorem encode_ok (s : BusesAndDevices δ) {capacity : ℕ} (hasc : s.ascending = .ok ())
    (hfits : s.body.item.spelling.length ≤ capacity) : s.encode capacity = .ok s.body.item.spelling := by
  have hwrites : Writes maxDepth s.write s.body.item := write_writes (d := 4) s
  obtain ⟨w, hok, hout, w', hfinish⟩ := hwrites.run hfits
  have hout' : w'.out = w.out := by
    unfold finish at hfinish
    dsimp only at hfinish
    split_ifs at hfinish
    rw [← (Prod.mk.inj (Except.ok.inj hfinish)).2]
  simp only [encode, hasc, hok, hfinish, Except.mapError, bind, Except.bind, hout', hout,
    List.take_length]

end BusesAndDevices

end Km43.Devices
