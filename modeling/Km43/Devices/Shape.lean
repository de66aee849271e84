import Km43.Cbor.Shape
import Km43.Devices.Decode

namespace Km43.Devices

open Cbor CborReader

namespace BusSlots

def take : ℤ → BusSlots → Item → Option BusSlots
  | 1, s, i => slotted (u8Of i) s.bus fun slot => { s with bus := slot }
  | 2, s, i => slotted (u32Of i) s.rate fun slot => { s with rate := slot }
  | 3, s, i => slotted (u8Of i) s.dataBits fun slot => { s with dataBits := slot }
  | 4, s, i => slotted ((u8Of i).bind Parity.tryFrom) s.parity fun slot => { s with parity := slot }
  | 5, s, i => slotted (u8Of i) s.stopBits fun slot => { s with stopBits := slot }
  | _, s, _ => some s

def ofItem (i : Item) : Option BusSlots := i.pairs?.bind fun pairs => foldPairs take pairs empty

def has : BusSlots → ℤ → Bool
  | s, 1 => s.bus.isSome
  | s, 2 => s.rate.isSome
  | s, 3 => s.dataBits.isSome
  | s, 4 => s.parity.isSome
  | s, 5 => s.stopBits.isSome
  | _, _ => false

def Known (k : ℤ) : Prop := 1 ≤ k ∧ k ≤ 5

end BusSlots

def BusEntry.ofItem (invalid : Invalid) (i : Item) : Option (BusEntry × Invalid) :=
  (BusSlots.ofItem i).bind fun s => (s.entry invalid).toOption

namespace OptionSlots

def take (number : ℤ) (s : OptionSlots) (i : Item) : Option OptionSlots :=
  match DeviceOption.tryFrom number with
  | none => some { s with invalid := s.invalid.note (.unknownOption number) (unknownOption_answer number) }
  | some .currentDirection =>
    slotted ((u8Of i).bind Direction.tryFrom) s.direction fun slot => { s with direction := slot }
  | some .pylontechVersion =>
    slotted ((u8Of i).bind PylontechVersion.tryFrom) s.pylontechVersion fun slot =>
      { s with pylontechVersion := slot }
  | some .veDirect3v3 => slotted i.bool? s.veDirect3v3 fun slot => { s with veDirect3v3 := slot }
  | some .pollPeriod => slotted (u32Of i) s.pollPeriodMs fun slot => { s with pollPeriodMs := slot }

def ofItem (invalid : Invalid) (i : Item) : Option OptionSlots :=
  i.pairs?.bind fun pairs => (start invalid pairs.length).toOption.bind (foldPairs take pairs)

def has : OptionSlots → ℤ → Bool
  | s, 1 => s.direction.isSome
  | s, 2 => s.pylontechVersion.isSome
  | s, 3 => s.veDirect3v3.isSome
  | s, 4 => s.pollPeriodMs.isSome
  | _, _ => false

def Known (k : ℤ) : Prop := 1 ≤ k ∧ k ≤ 4

end OptionSlots

def DeviceOptions.ofItem (invalid : Invalid) (i : Item) : Option (DeviceOptions × Invalid) :=
  (OptionSlots.ofItem invalid i).map OptionSlots.options

namespace DeviceSlots

def take : ℤ → DeviceSlots → Item → Option DeviceSlots
  | 1, s, i => slotted (u16Of i) s.dev fun slot => { s with dev := slot }
  | 2, s, i => slotted (u8Of i) s.bus fun slot => { s with bus := slot }
  | 3, s, i => slotted i.bytes? s.addr fun slot => { s with addr := slot }
  | 4, s, i => slotted (u16Of i) s.product fun slot => { s with product := slot }
  | 5, s, i => slotted (u16Of i) s.dialect fun slot => { s with dialect := slot }
  | 6, s, i => slotted (u16Of i) s.role fun slot => { s with role := slot }
  | 7, s, i => slotted (u16Of i) s.parent fun slot => { s with parent := slot }
  | 8, s, i => (DeviceOptions.ofItem s.invalid i).bind fun read =>
      slotted (some read.1) s.options fun slot => { s with options := slot, invalid := read.2 }
  | _, s, _ => some s

def ofItem (invalid : Invalid) (i : Item) : Option DeviceSlots :=
  i.pairs?.bind fun pairs => foldPairs take pairs (empty invalid)

def has : DeviceSlots → ℤ → Bool
  | s, 1 => s.dev.isSome
  | s, 2 => s.bus.isSome
  | s, 3 => s.addr.isSome
  | s, 4 => s.product.isSome
  | s, 5 => s.dialect.isSome
  | s, 6 => s.role.isSome
  | s, 7 => s.parent.isSome
  | s, 8 => s.options.isSome
  | _, _ => false

def Known (k : ℤ) : Prop := 1 ≤ k ∧ k ≤ 8

end DeviceSlots

def DeviceEntry.ofItem {δ : Type} [DevSlot δ] (invalid : Invalid) (i : Item) :
    Option (DeviceEntry δ × Invalid) :=
  (DeviceSlots.ofItem invalid i).bind fun s => s.entry.toOption

namespace BodySlots

variable {δ : Type}

def takeBus (s : BodySlots δ) (i : Item) : Option (BodySlots δ) :=
  (BusEntry.ofItem s.invalid i).map s.pushBus

variable [DevSlot δ]

def takeDevice (s : BodySlots δ) (i : Item) : Option (BodySlots δ) :=
  (DeviceEntry.ofItem s.invalid i).map s.pushDevice

def take : ℤ → BodySlots δ → Item → Option (BodySlots δ)
  | 1, s, i => (slotted (some ()) s.buses fun slot => { s with buses := slot }).bind fun s =>
      i.items?.bind fun items => foldItems takeBus items s
  | 2, s, i => (slotted (some ()) s.devices fun slot => { s with devices := slot }).bind fun s =>
      i.items?.bind fun items => foldItems takeDevice items s
  | _, s, _ => some s

def ofItem (i : Item) : Option (BodySlots δ) :=
  i.pairs?.bind fun pairs => foldPairs take pairs empty

def has : BodySlots δ → ℤ → Bool
  | s, 1 => s.buses.isSome
  | s, 2 => s.devices.isSome
  | _, _ => false

def Known (k : ℤ) : Prop := 1 ≤ k ∧ k ≤ 2

end BodySlots

def Malformed (why : ConfigError) : Prop := why.answer = .malformedFrame

section

variable {d : ℕ} {α σ : Type}

theorem malformed_cbor (why : CborError) : Malformed (FromCbor.cbor why) := rfl

theorem once_malformed {slot : Option α} {key : BusesAndDevicesKey} {value : α} {why : ConfigError}
    (h : once slot key value = .error why) : Malformed why := by
  unfold once at h
  split_ifs at h
  cases h
  rfl

theorem allocated_malformed {tryFrom : UInt8 → Option α} {key : BusesAndDevicesKey} {raw : UInt8}
    {why : ConfigError} (h : allocated tryFrom key raw = .error why) : Malformed why := by
  unfold allocated at h
  split at h <;> cases h
  rfl

theorem required_malformed {slot : Option α} {key : BusesAndDevicesKey} {why : ConfigError}
    (h : required slot key = .error why) : Malformed why := by
  unfold required at h
  split at h <;> cases h
  rfl

theorem field_reads {m : Read ConfigError α} {f : Item → Option α} (hm : Reads Malformed d m f)
    (slot : Option α) (key : BusesAndDevicesKey) (fill : Option α → σ) :
    Reads Malformed d (field m slot key fill) (fun i => slotted (f i) slot fill) := by
  have h := hm.andThen (once slot key) (fun _ slot => fill slot) fun _ _ => once_malformed
  have hspec : (fun i => slotted (f i) slot fill) =
      fun i => (f i).bind fun v => (once slot key v).toOption.map fill := by
    funext i
    cases f i <;> cases slot <;> rfl
  rw [hspec]
  exact h

theorem enumerated_reads (tryFrom : UInt8 → Option α) (key : BusesAndDevicesKey) :
    Reads Malformed d (enumerated tryFrom key) (fun i => (u8Of i).bind tryFrom) := by
  have h := Reads.checked (d := d) (Reads.u8 malformed_cbor) (allocated tryFrom key)
    fun _ _ => allocated_malformed
  have hspec : (fun i => (u8Of i).bind tryFrom) =
      fun i => (u8Of i).bind fun raw => (allocated tryFrom key raw).toOption := by
    funext i
    refine congrArg _ (funext fun raw => ?_)
    unfold allocated
    cases tryFrom raw <;> rfl
  rw [hspec]
  exact h

end

end Km43.Devices
