import Km43.Devices.Rules
import Km43.Devices.Sizes
import Km43.Ts.Ble
import Mathlib.Tactic

namespace Km43.Ts

open Library Cbor
open Devices (DeviceOption wire)

structure BusEntry where
  bus : ℤ
  rate : Option ℤ
  dataBits : Option ℤ
  parity : Option ℤ
  stopBits : Option ℤ
  deriving DecidableEq

structure DeviceOptions where
  currentDirection : Option ℤ
  pylontechVersion : Option ℤ
  veDirect3v3 : Option Bool
  pollPeriodMs : Option ℤ
  deriving DecidableEq

structure DeviceEntry (δ : Type) where
  dev : δ
  bus : ℤ
  addr : Option Bytes
  product : ℤ
  dialect : ℤ
  role : ℤ
  parent : Option ℤ
  options : Option DeviceOptions
  deriving DecidableEq

structure BusesAndDevices (δ : Type) where
  buses : List BusEntry
  devices : List (DeviceEntry δ)
  deriving DecidableEq

abbrev BusesAndDevicesWrite := BusesAndDevices (Option ℤ)
abbrev BusesAndDevicesRead := BusesAndDevices ℤ

inductive KeyReason
  | missing
  | duplicate
  | nothingSet
  | unknownValue
  | outOfOrder
  | outOfSchema
  | tooMany
  deriving DecidableEq

inductive BusReason
  | unknownBus
  | busTwice
  | addrRequired
  | addrNotAddressed
  | addrTwice
  deriving DecidableEq

inductive DevReason
  | devTwice
  | parentNotListed
  | parentLoop
  | tooDeep
  deriving DecidableEq

inductive BusesAndDevicesRefusal
  | cbor (failure : CborError)
  | key (reason : KeyReason) (key : String)
  | unknownOption (option : ℤ)
  | bus (reason : BusReason) (bus : ℤ)
  | notOnTransport (bus : ℤ) (key : String)
  | dialectNotCarried (dialect bus : ℤ)
  | optionNotInDialect (option : DeviceOption) (dialect : ℤ)
  | pollTooShort (dialect min : ℤ)
  | dev (reason : DevReason) (dev : ℤ)
  deriving DecidableEq

def sectionAnswer : BusesAndDevicesRefusal → Devices.SectionRefusal
  | .cbor _ => .malformedFrame
  | .key .missing _ | .key .duplicate _ | .key .nothingSet _ | .key .unknownValue _ | .key .outOfOrder _ =>
    .malformedFrame
  | .key .outOfSchema _ | .key .tooMany _ => .invalid
  | .unknownOption _ | .bus .. | .notOnTransport .. | .dialectNotCarried .. | .optionNotInDialect .. |
    .pollTooShort .. | .dev .. => .invalid

def setOptions (options : Option DeviceOptions) : List DeviceOption :=
  (if (options.bind (·.currentDirection)).isSome then [.currentDirection] else []) ++
    (if (options.bind (·.pylontechVersion)).isSome then [.pylontechVersion] else []) ++
    (if (options.bind (·.veDirect3v3)).isSome then [.veDirect3v3] else []) ++
    (if (options.bind (·.pollPeriodMs)).isSome then [.pollPeriod] else [])

structure CborWriter where
  out : Bytes

abbrev Write := StateT CborWriter (Except Thrown)

namespace CborWriter

def push (bytes : List ℕ) : Write Unit := modify fun w => { w with out := w.out ++ bytes.map UInt8.ofNat }

def head (major : Major) (value : ℤ) : Write Unit :=
  if (Number.int value).isSafeInteger = false ∨ value < 0 ∨ value > 0xFFFFFFFF then throw .rangeError
  else
    let top := major.bits <<< 5
    let value := value.toNat
    if value < 24 then push [top ||| value]
    else if value ≤ 0xFF then push [top ||| 24, value]
    else if value ≤ 0xFFFF then push [top ||| 25, value >>> 8, value &&& 0xFF]
    else push [top ||| 26, value >>> 24 &&& 0xFF, value >>> 16 &&& 0xFF, value >>> 8 &&& 0xFF, value &&& 0xFF]

def map (pairs : ℕ) : Write Unit := head .map pairs

def array (length : ℕ) : Write Unit := head .array length

def uint (value : ℤ) : Write Unit := head .unsigned value

def bool (value : Bool) : Write Unit := push [if value then 0xF5 else 0xF4]

def bytes (value : Bytes) : Write Unit := do
  head .bytes value.length
  modify fun w => { w with out := w.out ++ value }

end CborWriter

open CborWriter

def defined {α : Type} (value : Option α) (write : α → Write Unit) : Write Unit :=
  match value with
  | some value => write value
  | none => pure ()

def encodeOptions (options : DeviceOptions) : Write Unit := do
  map (setOptions (some options)).length
  defined options.currentDirection fun direction => do
    uint DeviceOption.currentDirection.number
    uint direction
  defined options.pylontechVersion fun version => do
    uint DeviceOption.pylontechVersion.number
    uint version
  defined options.veDirect3v3 fun low => do
    uint DeviceOption.veDirect3v3.number
    bool low
  defined options.pollPeriodMs fun period => do
    uint DeviceOption.pollPeriod.number
    uint period

def encodeBus (bus : BusEntry) : Write Unit := do
  let settings := [bus.rate, bus.dataBits, bus.parity, bus.stopBits]
  map (1 + (settings.filter Option.isSome).length)
  uint 1
  uint bus.bus
  settings.zipIdx.forM fun setting =>
    defined setting.1 fun value => do
      uint (setting.2 + 2)
      uint value

def encodeDevice (device : DeviceEntry (Option ℤ)) : Write Unit := do
  let options := if (setOptions device.options).length > 0 then device.options else none
  let optional := [device.dev.isSome, device.addr.isSome, device.parent.isSome, options.isSome]
  map (4 + (optional.filter id).length)
  defined device.dev fun dev => do
    uint 1
    uint dev
  uint 2
  uint device.bus
  defined device.addr fun addr => do
    uint 3
    bytes addr
  uint 4
  uint device.product
  uint 5
  uint device.dialect
  uint 6
  uint device.role
  defined device.parent fun parent => do
    uint 7
    uint parent
  defined options fun options => do
    uint 8
    encodeOptions options

def writeBusesAndDevices (s : BusesAndDevicesWrite) : Write Unit := do
  map 2
  uint 1
  array s.buses.length
  s.buses.forM encodeBus
  uint 2
  array s.devices.length
  s.devices.forM encodeDevice

def encodeBusesAndDevices (s : BusesAndDevicesWrite) : Except Thrown Bytes := do
  let (_, w) ← writeBusesAndDevices s ⟨[]⟩
  .ok w.out

def Carries (value : ℤ) : Prop := 0 ≤ value ∧ value ≤ wire

structure BusEntry.Carried (b : BusEntry) : Prop where
  bus : Carries b.bus
  rate : ∀ v ∈ b.rate, Carries v
  dataBits : ∀ v ∈ b.dataBits, Carries v
  parity : ∀ v ∈ b.parity, Carries v
  stopBits : ∀ v ∈ b.stopBits, Carries v

structure DeviceOptions.Carried (o : DeviceOptions) : Prop where
  currentDirection : ∀ v ∈ o.currentDirection, Carries v
  pylontechVersion : ∀ v ∈ o.pylontechVersion, Carries v
  pollPeriodMs : ∀ v ∈ o.pollPeriodMs, Carries v

structure DeviceEntry.Carried (d : DeviceEntry (Option ℤ)) : Prop where
  dev : ∀ v ∈ d.dev, Carries v
  bus : Carries d.bus
  addr : ∀ raw ∈ d.addr, raw.length ≤ wire
  product : Carries d.product
  dialect : Carries d.dialect
  role : Carries d.role
  parent : ∀ v ∈ d.parent, Carries v
  options : ∀ o ∈ d.options, o.Carried

structure BusesAndDevices.Carried (s : BusesAndDevicesWrite) : Prop where
  buses : ∀ b ∈ s.buses, b.Carried
  devices : ∀ d ∈ s.devices, d.Carried
  buses_le : s.buses.length ≤ wire
  devices_le : s.devices.length ≤ wire

def BusEntry.body (b : BusEntry) : Devices.BusBody where
  bus := b.bus.toNat
  rate := b.rate.map Int.toNat
  dataBits := b.dataBits.map Int.toNat
  parity := b.parity.map Int.toNat
  stopBits := b.stopBits.map Int.toNat

def DeviceOptions.body (o : DeviceOptions) : Devices.OptionBody where
  currentDirection := o.currentDirection.map Int.toNat
  pylontechVersion := o.pylontechVersion.map Int.toNat
  veDirect3v3 := o.veDirect3v3
  pollPeriodMs := o.pollPeriodMs.map Int.toNat

def DeviceEntry.body (d : DeviceEntry (Option ℤ)) : Devices.DeviceBody where
  dev := d.dev.map Int.toNat
  bus := d.bus.toNat
  addr := d.addr
  product := d.product.toNat
  dialect := d.dialect.toNat
  role := d.role.toNat
  parent := d.parent.map Int.toNat
  options := d.options.elim .none DeviceOptions.body

def BusesAndDevices.body (s : BusesAndDevicesWrite) : Devices.Body :=
  ⟨s.buses.map BusEntry.body, s.devices.map DeviceEntry.body⟩

/-- The call pushes the bytes where it carries what it is given, and throws where it does not. -/
def Puts (write : Write Unit) (carried : Prop) (bytes : Bytes) : Prop :=
  ∀ out, (carried ∧ write ⟨out⟩ = .ok ((), ⟨out ++ bytes⟩)) ∨ (¬carried ∧ ∃ why, write ⟨out⟩ = .error why)

section

variable {w v : Write Unit} {P Q : Prop} {bs cs : Bytes}

theorem Puts.congr (h : Puts w P bs) (hP : P ↔ Q) (hbs : bs = cs) : Puts w Q cs := by
  subst hbs
  intro out
  rw [← hP]
  exact h out

theorem Puts.seq (hw : Puts w P bs) (hv : Puts v Q cs) : Puts (do w; v) (P ∧ Q) (bs ++ cs) := by
  intro out
  rcases hw out with ⟨hP, hok⟩ | ⟨hP, why, herror⟩
  · rcases hv (out ++ bs) with ⟨hQ, hok'⟩ | ⟨hQ, why, herror⟩
    · refine .inl ⟨⟨hP, hQ⟩, ?_⟩
      simp only [bind, StateT.bind, hok, Except.bind, hok', List.append_assoc]
    · exact .inr ⟨fun h => hQ h.2, why, by simp only [bind, StateT.bind, hok, Except.bind, herror]⟩
  · exact .inr ⟨fun h => hP h.1, why, by simp only [bind, StateT.bind, herror, Except.bind]⟩

theorem puts_nothing : Puts (pure ()) True [] := fun out => .inl ⟨trivial, by rw [List.append_nil]; rfl⟩

theorem puts_push (bytes : List ℕ) : Puts (CborWriter.push bytes) True (bytes.map UInt8.ofNat) :=
  fun _ => .inl ⟨trivial, rfl⟩

theorem major_or (m : Major) {low : ℕ} (h : low < 32) : m.bits <<< 5 ||| low = m.bits * 32 + low := by
  rw [← Nat.shiftLeft_add_eq_or_of_lt (b := low) (i := 5) h, Nat.shiftLeft_eq]

theorem low_byte (n : ℕ) : UInt8.ofNat (n &&& 0xFF) = UInt8.ofNat n := by
  rw [show 0xFF = 2 ^ 8 - 1 from rfl, Nat.and_two_pow_sub_one_eq_mod, UInt8.ofNat_mod_size]

theorem shifted_byte (n k : ℕ) : n >>> (8 * k) = n / 256 ^ k := by
  rw [Nat.shiftRight_eq_div_pow, Nat.pow_mul]

theorem puts_head (m : Major) (value : ℤ) :
    Puts (CborWriter.head m value) (Carries value) (headBytes m (Width.of value.toNat) value.toNat) := by
  unfold CborWriter.head
  by_cases hcarries : Carries value
  · obtain ⟨hlow, hhigh⟩ := hcarries
    have hwire : value ≤ 0xFFFFFFFF := hhigh
    have hsafe : ¬((Number.int value).isSafeInteger = false ∨ value < 0 ∨ value > 0xFFFFFFFF) := by
      unfold Number.isSafeInteger Number.maxSafe
      rw [decide_eq_false_iff_not]
      omega
    have hpush : ∀ bytes : List ℕ, bytes.map UInt8.ofNat = headBytes m (Width.of value.toNat) value.toNat →
        Puts (CborWriter.push bytes) (Carries value) (headBytes m (Width.of value.toNat) value.toNat) :=
      fun bytes hbytes => (puts_push bytes).congr (iff_of_true trivial ⟨hlow, hhigh⟩) hbytes
    rw [if_neg hsafe]
    dsimp only
    split_ifs with hinline hone htwo
    · apply hpush
      rw [Width.of, if_pos hinline, headBytes, Width.info, major_or m (by omega)]
      rfl
    · apply hpush
      rw [Width.of, if_neg hinline, if_pos hone, headBytes, Width.info, major_or m (by omega)]
      simp [BigEndian.digits, Width.bytes]
    · apply hpush
      rw [Width.of, if_neg hinline, if_neg hone, if_pos htwo, headBytes, Width.info, major_or m (by omega)]
      have hhead := shifted_byte value.toNat 1
      simp only [List.map_cons, List.map_nil, low_byte, Width.bytes, BigEndian.digits, ← hhead]
      simp
    · apply hpush
      have hfour : value.toNat ≤ 0xFFFFFFFF := by omega
      rw [Width.of, if_neg hinline, if_neg hone, if_neg htwo, if_pos hfour, headBytes, Width.info,
        major_or m (by omega)]
      simp only [List.map_cons, List.map_nil, low_byte, Width.bytes, BigEndian.digits, ← shifted_byte]
      rfl
  · have hunsafe : (Number.int value).isSafeInteger = false ∨ value < 0 ∨ value > 0xFFFFFFFF := by
      unfold Carries wire at hcarries
      push_cast at hcarries
      omega
    rw [if_pos hunsafe]
    exact fun out => .inr ⟨hcarries, .rangeError, rfl⟩

theorem carries_nat {n : ℕ} : Carries n ↔ n ≤ wire := by
  unfold Carries
  omega

theorem puts_count (m : Major) {n : ℕ} (h : n ≤ wire) :
    Puts (CborWriter.head m n) True (headBytes m (Width.of n) n) :=
  (puts_head m n).congr (iff_of_true (carries_nat.mpr h) trivial) (by rw [Int.toNat_natCast])

theorem puts_uint (value : ℤ) : Puts (CborWriter.uint value) (Carries value) (Item.ofNat value.toNat).spelling :=
  puts_head .unsigned value

theorem puts_bool (value : Bool) : Puts (CborWriter.bool value) True (Item.bool value).spelling := by
  cases value <;> exact puts_push _

theorem puts_bytes (raw : Bytes) :
    Puts (CborWriter.bytes raw) (raw.length ≤ wire) (Item.ofBytes raw).spelling := by
  have hraw : Puts (modify fun w => { w with out := w.out ++ raw }) True raw := fun _ => .inl ⟨trivial, rfl⟩
  apply ((puts_head .bytes raw.length).seq hraw).congr
  · rw [and_true, carries_nat]
  · rw [Int.toNat_natCast]
    rfl

theorem puts_pair {k : ℕ} (hk : k ≤ wire) {i : Item} {ps : List (Key × Item)} (hw : Puts w P i.spelling)
    (hv : Puts v Q (Item.spellPairs ps)) :
    Puts (do CborWriter.uint k; w; v) (P ∧ Q) (Item.spellPairs ((Key.ofNat k, i) :: ps)) := by
  apply ((puts_count .unsigned hk).seq (hw.seq hv)).congr
  · rw [true_and]
  · rw [← List.append_assoc]
    rfl

theorem puts_defined {α β : Type} {k : ℕ} (hk : k ≤ wire) {value : α → Write Unit} {carried : α → Prop}
    {f : β → Item} {g : α → β} (hvalue : ∀ a, Puts (value a) (carried a) (f (g a)).spelling) (o : Option α) :
    Puts (defined o fun a => do CborWriter.uint k; value a) (∀ a ∈ o, carried a)
      (Item.spellPairs (optionalPair k (o.map g) f)) := by
  cases o with
  | none =>
    apply puts_nothing.congr
    · simp
    · rfl
  | some a =>
    apply ((puts_count .unsigned hk).seq (hvalue a)).congr
    · simp
    · simp [optionalPair, Item.spellPairs, Key.ofNat, Key.spelling, Key.token, Token.spelling]

theorem puts_end : Puts (pure ()) True (Item.spellPairs []) := puts_nothing

theorem puts_append {ps qs : List (Key × Item)} (hw : Puts w P (Item.spellPairs ps)) (hv : Puts v Q (Item.spellPairs qs)) :
    Puts (do w; v) (P ∧ Q) (Item.spellPairs (ps ++ qs)) := by
  rw [Item.spellPairs_append]
  exact hw.seq hv

theorem puts_map {n : ℕ} {ps : List (Key × Item)} (hn : n = ps.length) (hfew : n ≤ wire)
    (hw : Puts w P (Item.spellPairs ps)) : Puts (do CborWriter.map n; w) P (Item.ofPairs ps).spelling := by
  subst hn
  apply ((puts_count .map hfew).seq hw).congr
  · rw [true_and]
  · rfl

theorem puts_forM {α : Type} {write : α → Write Unit} {carried : α → Prop} {f : α → Item}
    (h : ∀ a, Puts (write a) (carried a) (f a).spelling) (xs : List α) :
    Puts (xs.forM write) (∀ a ∈ xs, carried a) (Item.spellAll (xs.map f)) := by
  induction xs with
  | nil => exact puts_nothing.congr (by simp) rfl
  | cons x xs ih => exact ((h x).seq ih).congr (by rw [List.forall_mem_cons]) rfl

end

theorem encodeBus_puts (b : BusEntry) : Puts (encodeBus b) b.Carried b.body.item.spelling := by
  have hpairs := puts_pair (k := 1) (by decide) (puts_uint b.bus) <|
    puts_append (puts_defined (k := 2) (by decide) puts_uint b.rate) <|
    puts_append (puts_defined (k := 3) (by decide) puts_uint b.dataBits) <|
    puts_append (puts_defined (k := 4) (by decide) puts_uint b.parity) <|
    puts_append (puts_defined (k := 5) (by decide) puts_uint b.stopBits) puts_end
  have hcount : 1 + ([b.rate, b.dataBits, b.parity, b.stopBits].filter Option.isSome).length = b.body.pairs.length := by
    obtain ⟨bus, _ | _, _ | _, _ | _, _ | _⟩ := b <;> rfl
  have hfew := List.length_filter_le Option.isSome [b.rate, b.dataBits, b.parity, b.stopBits]
  simp only [List.length_cons, List.length_nil] at hfew
  rw [List.append_nil] at hpairs
  apply (puts_map hcount (by unfold wire; omega) hpairs).congr
  · constructor
    · rintro ⟨hbus, hrate, hdata, hparity, hstop, -⟩
      exact ⟨hbus, hrate, hdata, hparity, hstop⟩
    · intro h
      exact ⟨h.bus, h.rate, h.dataBits, h.parity, h.stopBits, trivial⟩
  · rfl

theorem setOptions_length (o : DeviceOptions) : (setOptions (some o)).length = o.body.pairs.length := by
  obtain ⟨_ | _, _ | _, _ | _, _ | _⟩ := o <;> rfl

theorem encodeOptions_puts (o : DeviceOptions) : Puts (encodeOptions o) o.Carried o.body.item.spelling := by
  have hlow := puts_defined (k := 3) (g := id) (by decide) puts_bool o.veDirect3v3
  rw [Option.map_id] at hlow
  have hpairs := puts_append (puts_defined (k := 1) (by decide) puts_uint o.currentDirection) <|
    puts_append (puts_defined (k := 2) (by decide) puts_uint o.pylontechVersion) <|
    puts_append hlow (puts_defined (k := 4) (by decide) puts_uint o.pollPeriodMs)
  have hfew : (setOptions (some o)).length ≤ 4 := by
    obtain ⟨_ | _, _ | _, _ | _, _ | _⟩ := o <;> simp [setOptions]
  apply (puts_map (setOptions_length o) (by unfold wire; omega) hpairs).congr
  · constructor
    · rintro ⟨hdirection, hversion, -, hperiod⟩
      exact ⟨hdirection, hversion, hperiod⟩
    · intro h
      exact ⟨h.currentDirection, h.pylontechVersion, fun _ _ => trivial, h.pollPeriodMs⟩
  · rfl

theorem options_unset {o : DeviceOptions} (h : o.body.pairs = []) : o.Carried := by
  obtain ⟨_ | _, _ | _, _ | _, _ | _⟩ := o
  case none.none.none.none => exact ⟨by simp, by simp, by simp⟩
  all_goals simp [DeviceOptions.body, Devices.OptionBody.pairs, optionalPair] at h

def DeviceEntry.sent (d : DeviceEntry (Option ℤ)) : Option DeviceOptions :=
  if (setOptions d.options).length > 0 then d.options else none

theorem sent_puts (d : DeviceEntry (Option ℤ)) :
    Puts (defined d.sent fun o => do CborWriter.uint 8; encodeOptions o) (∀ o ∈ d.options, o.Carried)
      (Item.spellPairs (Devices.DeviceBody.optionsPair d.body.options)) ∧
    (Devices.DeviceBody.optionsPair d.body.options).length = if d.sent.isSome then 1 else 0 := by
  have hsent := puts_defined (k := 8) (g := DeviceOptions.body) (by decide) encodeOptions_puts d.sent
  unfold DeviceEntry.sent DeviceEntry.body Devices.DeviceBody.optionsPair at *
  cases ho : d.options with
  | none =>
    rw [ho] at hsent
    exact ⟨hsent.congr (by simp) rfl, rfl⟩
  | some o =>
    rw [ho, setOptions_length] at hsent
    rw [setOptions_length, Option.elim_some]
    by_cases hunset : o.body.pairs = []
    · rw [hunset] at hsent ⊢
      refine ⟨hsent.congr ?_ rfl, rfl⟩
      simp [options_unset hunset]
    · have hset : o.body.pairs.length > 0 := List.length_pos_iff.mpr hunset
      rw [if_pos hset] at hsent ⊢
      rw [if_neg hunset]
      exact ⟨hsent, rfl⟩

theorem encodeDevice_puts (d : DeviceEntry (Option ℤ)) : Puts (encodeDevice d) d.Carried d.body.item.spelling := by
  obtain ⟨hoptions, hlast⟩ := sent_puts d
  have haddr := puts_defined (k := 3) (g := id) (by decide) puts_bytes d.addr
  rw [Option.map_id] at haddr
  have hpairs := puts_append (puts_defined (k := 1) (by decide) puts_uint d.dev) <|
    puts_pair (k := 2) (by decide) (puts_uint d.bus) <| puts_append haddr <|
    puts_pair (k := 4) (by decide) (puts_uint d.product) <|
    puts_pair (k := 5) (by decide) (puts_uint d.dialect) <|
    puts_pair (k := 6) (by decide) (puts_uint d.role) <|
    puts_append (puts_defined (k := 7) (by decide) puts_uint d.parent) hoptions
  have hcount : 4 + ([d.dev.isSome, d.addr.isSome, d.parent.isSome, d.sent.isSome].filter id).length =
      d.body.pairs.length := by
    simp only [Devices.DeviceBody.pairs, List.length_append, List.length_cons, hlast]
    simp only [DeviceEntry.body, optionalPair]
    cases d.dev <;> cases d.addr <;> cases d.parent <;> cases d.sent <;> rfl
  have hfew := List.length_filter_le id [d.dev.isSome, d.addr.isSome, d.parent.isSome, d.sent.isSome]
  simp only [List.length_cons, List.length_nil] at hfew
  apply (puts_map hcount (by unfold wire; omega) hpairs).congr
  · constructor
    · rintro ⟨hdev, hbus, haddr, hproduct, hdialect, hrole, hparent, hoptions⟩
      exact ⟨hdev, hbus, haddr, hproduct, hdialect, hrole, hparent, hoptions⟩
    · intro h
      exact ⟨h.dev, h.bus, h.addr, h.product, h.dialect, h.role, h.parent, h.options⟩
  · rfl

theorem writeBusesAndDevices_puts (s : BusesAndDevicesWrite) :
    Puts (writeBusesAndDevices s) s.Carried s.body.item.spelling := by
  have hwrite := (puts_count .map (n := 2) (by decide)).seq <| (puts_count .unsigned (n := 1) (by decide)).seq <|
    (puts_head .array s.buses.length).seq <| (puts_forM encodeBus_puts s.buses).seq <|
    (puts_count .unsigned (n := 2) (by decide)).seq <|
    (puts_head .array s.devices.length).seq (puts_forM encodeDevice_puts s.devices)
  apply hwrite.congr
  · rw [carries_nat, carries_nat]
    constructor
    · rintro ⟨-, -, hbl, hbuses, -, hdl, hdevices⟩
      exact ⟨hbuses, hdevices, hbl, hdl⟩
    · intro h
      exact ⟨trivial, trivial, h.buses_le, h.buses, trivial, h.devices_le, h.devices⟩
  · rw [Int.toNat_natCast, Int.toNat_natCast]
    simp [BusesAndDevices.body, Devices.Body.item, Devices.Body.pairs, Item.ofPairs, Item.ofItems, Item.spelling,
      Item.spellPairs, Key.ofNat, Key.spelling, Key.token, Token.spelling, Function.comp_def]

theorem encodeBusesAndDevices_ok (s : BusesAndDevicesWrite) (bytes : Bytes) :
    encodeBusesAndDevices s = .ok bytes ↔ s.Carried ∧ s.body.item.spelling = bytes := by
  unfold encodeBusesAndDevices
  rcases writeBusesAndDevices_puts s [] with ⟨hcarried, hok⟩ | ⟨hcarried, why, herror⟩
  · rw [hok]
    constructor
    · intro h
      exact ⟨hcarried, Except.ok.inj h⟩
    · rintro ⟨-, rfl⟩
      rfl
  · rw [herror]
    constructor
    · intro h
      cases h
    · intro h
      exact absurd h.1 hcarried

end Km43.Ts
