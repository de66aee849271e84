import Km43.Devices.Classes
import Km43.Ts.Check
import Km43.Ts.Reader

namespace Km43.Ts

open Cbor CborReader
open Devices (DeviceOption DevId DevSlot ConfigError)

def refuse {α : Type} (refusal : BusesAndDevicesRefusal) : Read α := throw refusal

abbrev Invalid := Option BusesAndDevicesRefusal

def Invalid.note (invalid : Invalid) (refusal : BusesAndDevicesRefusal) : Invalid := invalid.or (some refusal)

section

variable {σ τ : Type}

def once (slot : Option τ) (key : String) (value : τ) : Read (Option τ) :=
  if slot.isSome then refuse (.key .duplicate key) else pure (some value)

def field (read : Read τ) (slot : Option τ) (key : String) (fill : Option τ → σ) : Read σ := do
  let value ← read
  let slot ← once slot key value
  pure (fill slot)

def enumerated (allocated : ℤ → Bool) (key : String) : Read ℤ := do
  let value ← uint 0xFF
  if allocated value then pure value else refuse (.key .unknownValue key)

end

structure BusSlots where
  bus : Option ℤ
  rate : Option ℤ
  dataBits : Option ℤ
  parity : Option ℤ
  stopBits : Option ℤ

namespace BusSlots

def empty : BusSlots := ⟨none, none, none, none, none⟩

def step : ℤ → BusSlots → Read BusSlots
  | 1, s => field (uint 0xFF) s.bus "bus entry bus" fun slot => { s with bus := slot }
  | 2, s => field (uint 0xFFFFFFFF) s.rate "bus entry rate" fun slot => { s with rate := slot }
  | 3, s => field (uint 0xFF) s.dataBits "bus entry data_bits" fun slot => { s with dataBits := slot }
  | 4, s => field (enumerated isParity "bus entry parity") s.parity "bus entry parity" fun slot =>
      { s with parity := slot }
  | 5, s => field (uint 0xFF) s.stopBits "bus entry stop_bits" fun slot => { s with stopBits := slot }
  | _, s => do
    skip
    pure s

/-- A setting of which the schema has two values; any other is left out and held back. -/
def oneOf (a b : ℤ) (slot : Option ℤ) (key : String) (invalid : Invalid) : Option ℤ × Invalid :=
  match slot with
  | none => (none, invalid)
  | some value =>
    if value = a ∨ value = b then (some value, invalid) else (none, invalid.note (.key .outOfSchema key))

def entry (s : BusSlots) (invalid : Invalid) : Read (BusEntry × Invalid) :=
  match s.bus with
  | none => refuse (.key .missing "bus entry bus")
  | some bus =>
    if s.rate = none ∧ s.dataBits = none ∧ s.parity = none ∧ s.stopBits = none then
      refuse (.key .nothingSet "bus entry bus")
    else
      let invalid := if s.rate = some 0 then invalid.note (.key .outOfSchema "bus entry rate") else invalid
      let dataBits := oneOf 7 8 s.dataBits "bus entry data_bits" invalid
      let stopBits := oneOf 1 2 s.stopBits "bus entry stop_bits" dataBits.2
      pure (⟨bus, s.rate, dataBits.1, s.parity, stopBits.1⟩, stopBits.2)

end BusSlots

def decodeBus (invalid : Invalid) : Read (BusEntry × Invalid) := do
  let s ← entries BusSlots.step .empty
  s.entry invalid

def deviceOption (key : ℤ) : Option DeviceOption :=
  if key = 1 then some .currentDirection
  else if key = 2 then some .pylontechVersion
  else if key = 3 then some .veDirect3v3
  else if key = 4 then some .pollPeriod
  else none

structure OptionSlots where
  count : ℕ
  direction : Option ℤ
  options : DeviceOptions
  invalid : Invalid

namespace OptionSlots

def start (invalid : Invalid) : OptionSlots := ⟨0, none, ⟨none, none, none, none⟩, invalid⟩

def step (key : ℤ) (s : OptionSlots) : Read OptionSlots :=
  let s := { s with count := s.count + 1 }
  match deviceOption key with
  -- Refused, and not passed over: a setting the client sent would never be used.
  | none => do
    let s := { s with invalid := s.invalid.note (.unknownOption key) }
    skip
    pure s
  | some .currentDirection => do
    let value ← enumerated isDirection "device option current_direction"
    pure { s with direction := some value }
  | some .pylontechVersion => do
    let value ← enumerated isPylontechVersion "device option pylontech_version"
    pure { s with options := { s.options with pylontechVersion := some value } }
  | some .veDirect3v3 => do
    let value ← bool
    pure { s with options := { s.options with veDirect3v3 := some value } }
  | some .pollPeriod => do
    let value ← uint 0xFFFFFFFF
    pure { s with options := { s.options with pollPeriodMs := some value } }

def finished (s : OptionSlots) : Read (DeviceOptions × Invalid) :=
  if s.count = 0 then refuse (.key .nothingSet "device entry options")
  else
    match s.direction with
    | none => pure (s.options, s.invalid)
    | some direction =>
      if direction = 1 ∨ direction = 2 then
        pure ({ s.options with currentDirection := some direction }, s.invalid)
      else pure (s.options, s.invalid.note (.key .outOfSchema "device option current_direction"))

end OptionSlots

def decodeOptions (invalid : Invalid) : Read (DeviceOptions × Invalid) := do
  let s ← entries OptionSlots.step (.start invalid)
  s.finished

structure DeviceSlots where
  dev : Option ℤ
  bus : Option ℤ
  addr : Option Bytes
  product : Option ℤ
  dialect : Option ℤ
  role : Option ℤ
  parent : Option ℤ
  options : Option DeviceOptions
  invalid : Invalid

namespace DeviceSlots

def empty (invalid : Invalid) : DeviceSlots := ⟨none, none, none, none, none, none, none, none, invalid⟩

def step : ℤ → DeviceSlots → Read DeviceSlots
  | 1, s => field (uint 0xFFFF) s.dev "device entry dev" fun slot => { s with dev := slot }
  | 2, s => field (uint 0xFF) s.bus "device entry bus" fun slot => { s with bus := slot }
  | 3, s => field bytes s.addr "device entry addr" fun slot => { s with addr := slot }
  | 4, s => field (uint 0xFFFF) s.product "device entry product" fun slot => { s with product := slot }
  | 5, s => field (uint 0xFFFF) s.dialect "device entry dialect" fun slot => { s with dialect := slot }
  | 6, s => field (uint 0xFFFF) s.role "device entry role" fun slot => { s with role := slot }
  | 7, s => field (uint 0xFFFF) s.parent "device entry parent" fun slot => { s with parent := slot }
  | 8, s => do
    let (options, invalid) ← decodeOptions s.invalid
    let slot ← once s.options "device entry options" options
    pure { s with options := slot, invalid := invalid }
  | _, s => do
    skip
    pure s

def required {τ : Type} (slot : Option τ) (key : String) : Read τ :=
  match slot with
  | some value => pure value
  | none => refuse (.key .missing key)

def entry (answer : Bool) (s : DeviceSlots) : Read (DeviceEntry (Option ℤ) × Invalid) := do
  let product ← required s.product "device entry product"
  let dialect ← required s.dialect "device entry dialect"
  let role ← required s.role "device entry role"
  let bus ← required s.bus "device entry bus"
  if answer ∧ s.dev = none then refuse (.key .missing "device entry dev")
  else do
    let invalid := s.invalid
    let invalid := if s.dev = some 0 then invalid.note (.key .outOfSchema "device entry dev") else invalid
    let invalid :=
      if s.addr.any fun addr => addr.length = 0 ∨ addr.length > maxAddr then
        invalid.note (.key .outOfSchema "device entry addr")
      else invalid
    let invalid := if s.parent = some 0 then invalid.note (.key .outOfSchema "device entry parent") else invalid
    pure (⟨s.dev, bus, s.addr, product, dialect, role, s.parent, s.options⟩, invalid)

end DeviceSlots

def decodeDevice (answer : Bool) (invalid : Invalid) : Read (DeviceEntry (Option ℤ) × Invalid) := do
  let s ← entries DeviceSlots.step (.empty invalid)
  s.entry answer

structure BodySlots where
  buses : Bool
  devices : Bool
  body : BusesAndDevicesWrite
  invalid : Invalid

namespace BodySlots

def empty : BodySlots := ⟨false, false, ⟨[], []⟩, none⟩

def pushBus (s : BodySlots) (entry : BusEntry × Invalid) : BodySlots :=
  if s.body.buses.length < maxConfigBuses then
    { s with body := { s.body with buses := s.body.buses ++ [entry.1] }, invalid := entry.2 }
  else { s with invalid := entry.2.note (.key .tooMany "buses and devices buses") }

def pushDevice (s : BodySlots) (entry : DeviceEntry (Option ℤ) × Invalid) : BodySlots :=
  if s.body.devices.length < maxConfigDevices then
    { s with body := { s.body with devices := s.body.devices ++ [entry.1] }, invalid := entry.2 }
  else { s with invalid := entry.2.note (.key .tooMany "buses and devices devices") }

def busItem (s : BodySlots) : Read BodySlots := do
  let entry ← decodeBus s.invalid
  pure (s.pushBus entry)

def deviceItem (answer : Bool) (s : BodySlots) : Read BodySlots := do
  let entry ← decodeDevice answer s.invalid
  pure (s.pushDevice entry)

def step (answer : Bool) : ℤ → BodySlots → Read BodySlots
  | 1, s => do
    let count ← array
    let s ← times busItem count { s with buses := true }
    close
    pure s
  | 2, s => do
    let count ← array
    let s ← times (deviceItem answer) count { s with devices := true }
    close
    pure s
  | _, s => do
    skip
    pure s

def result (s : BodySlots) : Except BusesAndDevicesRefusal BusesAndDevicesWrite :=
  if s.buses = false then .error (.key .missing "buses and devices buses")
  else if s.devices = false then .error (.key .missing "buses and devices devices")
  else
    match s.invalid with
    | some refusal => .error refusal
    | none => .ok s.body

end BodySlots

def readBody (answer : Bool) (body : Bytes) : Except BusesAndDevicesRefusal BusesAndDevicesWrite := do
  let (s, _) ← (do
    let s ← entries (BodySlots.step answer) .empty
    finish
    pure s : Read BodySlots) ⟨body, 0⟩
  s.result

def decodeBusesAndDevicesWrite (body : Bytes) : Except BusesAndDevicesRefusal BusesAndDevicesWrite := readBody false body

def answered : List (DeviceEntry (Option ℤ)) → Except BusesAndDevicesRefusal (List (DeviceEntry ℤ))
  | [] => .ok []
  | d :: ds =>
    match d.dev with
    | none => .error (.key .missing "device entry dev")
    | some dev => do
      let es ← answered ds
      .ok (⟨dev, d.bus, d.addr, d.product, d.dialect, d.role, d.parent, d.options⟩ :: es)

def falls {α : Type} (number : α → ℤ) (xs : List α) : Bool :=
  (xs.zip xs.tail).any fun p => decide (number p.1 ≥ number p.2)

def decodeBusesAndDevicesRead (body : Bytes) : Except BusesAndDevicesRefusal BusesAndDevicesRead := do
  let s ← readBody true body
  let devices ← answered s.devices
  if falls (·.bus) s.buses then .error (.key .outOfOrder "bus entry bus")
  else if falls (·.dev) devices then .error (.key .outOfOrder "device entry dev")
  else .ok ⟨s.buses, devices⟩

section

variable {d : ℕ} {α σ τ υ : Type} {key : String}

theorem u8_reads (d : ℕ) : Reads d (fun (v : UInt8) (z : ℤ) => z = v.toNat) (uint 0xFF) u8Of := by
  apply (uint_reads d 0xFF).along
  rintro n z ⟨rfl, hn⟩
  rw [UInt8.toNat_ofNat', Nat.mod_eq_of_lt (by omega)]

theorem u16_reads (d : ℕ) : Reads d (fun (v : UInt16) (z : ℤ) => z = v.toNat) (uint 0xFFFF) u16Of := by
  apply (uint_reads d 0xFFFF).along
  rintro n z ⟨rfl, hn⟩
  rw [UInt16.toNat_ofNat', Nat.mod_eq_of_lt (by omega)]

theorem u32_reads (d : ℕ) : Reads d (fun (v : UInt32) (z : ℤ) => z = v.toNat) (uint 0xFFFFFFFF) u32Of := by
  apply (uint_reads d 0xFFFFFFFF).along
  rintro n z ⟨rfl, hn⟩
  rw [UInt32.toNat_ofNat', Nat.mod_eq_of_lt (by omega)]

theorem enumerated_reads {tryFrom : UInt8 → Option α} {byte : α → UInt8} {allocated : ℤ → Bool}
    (h : ∀ v : UInt8, (tryFrom v).map byte = if allocated v.toNat then some v else none) :
    Reads d (fun a z => z = ((byte a).toNat : ℤ)) (enumerated allocated key) (fun i => (u8Of i).bind tryFrom) := by
  apply (u8_reads d).andThen
  rintro v _ rest depth - rfl
  have hv := h v
  cases htry : tryFrom v with
  | none =>
    cases hallocated : allocated v.toNat with
    | true => simp [htry, hallocated] at hv
    | false => exact .refuses rfl
  | some a =>
    cases hallocated : allocated v.toNat with
    | true =>
      simp only [htry, hallocated, Option.map_some, if_true, Option.some.injEq] at hv
      rw [← hv]
      exact .takes rfl
    | false => simp [htry, hallocated] at hv

theorem parity_allocated (v : UInt8) :
    (Devices.Parity.tryFrom v).map Devices.Parity.byte = if isParity v.toNat then some v else none := by
  revert v
  apply byte_cases
  decide +kernel

theorem direction_allocated (v : UInt8) :
    (Devices.Direction.tryFrom v).map Devices.Direction.byte = if isDirection v.toNat then some v else none := by
  revert v
  apply byte_cases
  decide +kernel

theorem version_allocated (v : UInt8) : (Devices.PylontechVersion.tryFrom v).map Devices.PylontechVersion.byte =
    if isPylontechVersion v.toNat then some v else none := by
  revert v
  apply byte_cases
  decide +kernel

theorem mapped_isSome {slot : Option α} {slot' : Option τ} {f : α → τ} (h : slot' = slot.map f) :
    slot'.isSome = slot.isSome := by rw [h, Option.isSome_map]

theorem once_reads {Q : α → τ → Prop} {R : σ → υ → Prop} {slot : Option α} {slot' : Option τ}
    (hslot : slot'.isSome = slot.isSome) {fill : Option α → σ} {fill' : Option τ → υ}
    (hfill : ∀ a t, Q a t → R (fill (some a)) (fill' (some t))) {a : α} {t : τ} (h : Q a t) (rest : Bytes) (depth : ℕ) :
    Makes R depth ((slotted (some a) slot fill).map (·, rest))
      ((do let slot ← once slot' key t; pure (fill' slot) : Read υ) ⟨rest, depth⟩) := by
  unfold once
  cases slot with
  | none =>
    cases slot' with
    | none => exact .takes (hfill a t h)
    | some t' => cases hslot
  | some a' =>
    cases slot' with
    | none => cases hslot
    | some t' => exact .refuses rfl

theorem field_reads {Q : α → τ → Prop} {R : σ → υ → Prop} {read : Read τ} {f : Item → Option α} (hread : Reads d Q read f)
    {slot : Option α} {slot' : Option τ} (hslot : slot'.isSome = slot.isSome) (fill : Option α → σ)
    (fill' : Option τ → υ) (hfill : ∀ a t, Q a t → R (fill (some a)) (fill' (some t))) :
    Reads d R (field read slot' key fill') (fun i => slotted (f i) slot fill) := by
  have hspec : (fun i => slotted (f i) slot fill) = fun i => (f i).bind fun a => slotted (some a) slot fill := by
    funext i
    cases f i <;> rfl
  rw [hspec]
  apply hread.andThen
  intro a t rest depth _ h
  exact once_reads hslot hfill h rest depth

theorem pass_reads {R : σ → τ → Prop} {s : σ} {t : τ} (h : R s t) : Reads d R (do skip; pure t) (fun _ => some s) := by
  intro rest depth hdepth
  have hlevels : maxDepth - depth = d := by omega
  have hrun : (do skip; pure t : Read τ) ⟨rest, depth⟩ = (do skipAt d; pure t : Read τ) ⟨rest, depth⟩ := by
    rw [← hlevels]
    rfl
  rw [hrun]
  have hskip : Reads d R (do skipAt d; pure t) (fun i => (some ()).map fun _ => s) :=
    (skip_reads d).mapped (fun _ => s) (fun _ => t) fun _ _ _ => h
  exact hskip rest depth hdepth

end

structure BusSlots.Same (t : BusSlots) (s : Devices.BusSlots) : Prop where
  bus : t.bus = s.bus.map fun v => (v.toNat : ℤ)
  rate : t.rate = s.rate.map fun v => (v.toNat : ℤ)
  dataBits : t.dataBits = s.dataBits.map fun v => (v.toNat : ℤ)
  parity : t.parity = s.parity.map fun v => (v.byte.toNat : ℤ)
  stopBits : t.stopBits = s.stopBits.map fun v => (v.toNat : ℤ)

theorem BusSlots.step_reads {d : ℕ} {t : BusSlots} {s : Devices.BusSlots} (h : t.Same s) (k : ℤ) :
    Reads d (fun s t => t.Same s) (step k t) (Devices.BusSlots.take k s) := by
  by_cases hk : Devices.BusSlots.Known k
  · rcases hk.cases with rfl | rfl | rfl | rfl | rfl
    · refine field_reads (u8_reads d) (mapped_isSome h.bus) (fun slot => { s with bus := slot })
        (fun slot => { t with bus := slot }) ?_
      rintro a _ rfl
      exact ⟨rfl, h.rate, h.dataBits, h.parity, h.stopBits⟩
    · refine field_reads (u32_reads d) (mapped_isSome h.rate) (fun slot => { s with rate := slot })
        (fun slot => { t with rate := slot }) ?_
      rintro a _ rfl
      exact ⟨h.bus, rfl, h.dataBits, h.parity, h.stopBits⟩
    · refine field_reads (u8_reads d) (mapped_isSome h.dataBits) (fun slot => { s with dataBits := slot })
        (fun slot => { t with dataBits := slot }) ?_
      rintro a _ rfl
      exact ⟨h.bus, h.rate, rfl, h.parity, h.stopBits⟩
    · refine field_reads (enumerated_reads parity_allocated) (mapped_isSome h.parity) (fun slot => { s with parity := slot })
        (fun slot => { t with parity := slot }) ?_
      rintro a _ rfl
      exact ⟨h.bus, h.rate, h.dataBits, rfl, h.stopBits⟩
    · refine field_reads (u8_reads d) (mapped_isSome h.stopBits) (fun slot => { s with stopBits := slot })
        (fun slot => { t with stopBits := slot }) ?_
      rintro a _ rfl
      exact ⟨h.bus, h.rate, h.dataBits, h.parity, rfl⟩
  · have hspec : Devices.BusSlots.take k s = fun _ => some s := by
      funext i
      exact Devices.BusSlots.fills.passes k s i hk
    have hrun : step k t = (do skip; pure t) := by
      unfold step
      split <;> first | rfl | exact absurd (by simp [Devices.BusSlots.Known]) hk
    rw [hspec, hrun]
    exact pass_reads h

section

variable {α β : Type} {i : Devices.Invalid} {held : Invalid}

structure Told (i : Devices.Invalid) (held : Invalid) : Prop where
  clean : i.Clean ↔ held = none
  answer : ∀ refusal ∈ held, sectionAnswer refusal = .invalid

theorem Told.note (h : Told i held) {why : Devices.ConfigError} (hwhy : why.answer = .invalid)
    {refusal : BusesAndDevicesRefusal} (hrefusal : sectionAnswer refusal = .invalid) :
    Told (i.note why hwhy) (held.note refusal) := by
  constructor
  · refine iff_of_false (Devices.Invalid.note_clean hwhy) ?_
    cases held <;> simp [Invalid.note]
  · intro refusal' hmem
    cases held with
    | none =>
      obtain rfl := Option.some.inj hmem
      exact hrefusal
    | some first => exact h.answer refusal' hmem

/-- What two readings made of one thing: alike, as long as nothing was held back. -/
structure Sound (i : Devices.Invalid) (R : α → β → Prop) (e : α × Devices.Invalid) (b : β × Invalid) : Prop where
  told : Told e.2 b.2
  clean : e.2.Clean → i.Clean
  same : e.2.Clean → R e.1 b.1

variable {R : α → β → Prop}

theorem Told.keeps (h : Told i held) {a : α} {b : β} (hR : R a b) : Sound i R (a, i) (b, held) :=
  ⟨h, id, fun _ => hR⟩

theorem Told.notes (h : Told i held) {why : Devices.ConfigError} (hwhy : why.answer = .invalid)
    {refusal : BusesAndDevicesRefusal} (hrefusal : sectionAnswer refusal = .invalid) (a : α) (b : β) :
    Sound i R (a, i.note why hwhy) (b, held.note refusal) :=
  ⟨h.note hwhy hrefusal, fun hclean => absurd hclean (Devices.Invalid.note_clean hwhy),
    fun hclean => absurd hclean (Devices.Invalid.note_clean hwhy)⟩

end

def keptSome {κ α : Type} (i : Devices.Invalid) (slot : Option κ) (new : κ → Option α)
    (key : Devices.BusesAndDevicesKey) : Option α × Devices.Invalid :=
  slot.elim (none, i) fun raw => i.unlessSome (new raw) key

theorem busEntry_eq {s : Devices.BusSlots} {bus : UInt8} (hbus : s.bus = some bus)
    (hset : ¬(s.rate.isNone ∧ s.dataBits.isNone ∧ s.parity.isNone ∧ s.stopBits.isNone)) (i : Devices.Invalid) :
    ∃ rate dataBits stopBits, rate = keptSome i s.rate Devices.Rate.new .rate ∧
      dataBits = keptSome rate.2 s.dataBits Devices.DataBits.fromWire .dataBits ∧
      stopBits = keptSome dataBits.2 s.stopBits Devices.StopBits.fromWire .stopBits ∧
      s.entry i = .ok (⟨bus, rate.1, dataBits.1, s.parity, stopBits.1⟩, stopBits.2) := by
  refine ⟨_, _, _, rfl, rfl, rfl, ?_⟩
  unfold Devices.BusSlots.entry
  rw [hbus]
  simp only [Devices.required, bind, Except.bind, hset, if_false]
  cases s.rate <;> cases s.dataBits <;> cases s.stopBits <;> rfl

section

variable {i : Devices.Invalid} {held : Invalid}

theorem rate_kept (h : Told i held) (slot : Option UInt32) :
    Sound i (fun (rate : Option Devices.Rate) number => number = rate.map fun rate => (rate.raw.toNat : ℤ))
      (keptSome i slot Devices.Rate.new .rate) (slot.map fun v => (v.toNat : ℤ),
        if (slot.map fun v => (v.toNat : ℤ)) = some 0 then held.note (.key .outOfSchema "bus entry rate") else held) := by
  cases slot with
  | none => exact h.keeps rfl
  | some raw =>
    by_cases hzero : raw = 0
    · subst hzero
      exact h.notes _ rfl _ _
    · have hnew : Devices.Rate.new raw = some ⟨raw, hzero⟩ := dif_neg hzero
      have hne : ¬((some raw).map fun v : UInt32 => (v.toNat : ℤ)) = some 0 := by
        intro hnumber
        apply hzero
        apply UInt32.toNat_inj.mp
        simpa using hnumber
      rw [if_neg hne, keptSome, Option.elim_some, hnew]
      exact h.keeps rfl

theorem oneOf_kept (h : Told i held) {α : Type} (a b : UInt8) (wire : α → UInt8) {x y : α} (hx : wire x = a)
    (hy : wire y = b) (slot : Option UInt8) (name : Devices.BusesAndDevicesKey) (key : String) :
    Sound i (fun (value : Option α) number => number = value.map fun value => ((wire value).toNat : ℤ))
      (keptSome i slot (fun v => if v = a then some x else if v = b then some y else none) name)
      (BusSlots.oneOf a.toNat b.toNat (slot.map fun v => (v.toNat : ℤ)) key held) := by
  cases slot with
  | none => exact h.keeps rfl
  | some raw =>
    simp only [keptSome, Option.elim_some, BusSlots.oneOf, Option.map_some, Int.ofNat_inj, UInt8.toNat_inj]
    by_cases ha : raw = a
    · rw [if_pos ha, if_pos (.inl ha), ha]
      apply h.keeps
      rw [Option.map_some, hx]
    · by_cases hb : raw = b
      · rw [if_neg ha, if_pos hb, if_pos (.inr hb), hb]
        apply h.keeps
        rw [Option.map_some, hy]
      · rw [if_neg ha, if_neg hb, if_neg (by simp [ha, hb])]
        exact h.notes _ rfl _ _

end

theorem BusSlots.entry_makes {t : BusSlots} {s : Devices.BusSlots} (h : t.Same s) {i : Devices.Invalid} {held : Invalid}
    (ht : Told i held) (rest : Bytes) (depth : ℕ) : Makes (Sound i fun e b => BusEntry.Same b e) depth
      ((s.entry i).toOption.map (·, rest)) (t.entry held ⟨rest, depth⟩) := by
  have hnone : ∀ {α β : Type} {o : Option α} {f : α → β}, o.map f = none ↔ o.isNone := by simp
  unfold BusSlots.entry
  rw [h.bus, h.rate, h.dataBits, h.parity, h.stopBits]
  simp only [hnone]
  cases hbus : s.bus with
  | none =>
    have hentry : (s.entry i).toOption = none := by
      unfold Devices.BusSlots.entry
      rw [hbus]
      rfl
    rw [hentry]
    exact .refuses rfl
  | some bus =>
    by_cases hset : s.rate.isNone ∧ s.dataBits.isNone ∧ s.parity.isNone ∧ s.stopBits.isNone
    · have hentry : (s.entry i).toOption = none := by
        unfold Devices.BusSlots.entry
        rw [hbus]
        simp only [Devices.required, bind, Except.bind, if_pos hset]
        rfl
      rw [hentry, Option.map_some]
      dsimp only
      rw [if_pos hset]
      exact .refuses rfl
    · obtain ⟨rate, dataBits, stopBits, hrate, hdataBits, hstopBits, hentry⟩ := busEntry_eq hbus hset i
      have hr := rate_kept ht s.rate
      rw [← hrate] at hr
      have hd := oneOf_kept hr.told 7 8 Devices.DataBits.wire (x := .seven) (y := .eight) rfl rfl
        s.dataBits .dataBits "bus entry data_bits"
      have hs := oneOf_kept hd.told 1 2 Devices.StopBits.wire (x := .one) (y := .two) rfl rfl
        s.stopBits .stopBits "bus entry stop_bits"
      have hdataBits' : dataBits = keptSome rate.2 s.dataBits (fun v => if v = 7 then some Devices.DataBits.seven
          else if v = 8 then some .eight else none) .dataBits := hdataBits
      rw [← hdataBits'] at hd hs
      have hstopBits' : stopBits = keptSome dataBits.2 s.stopBits (fun v => if v = 1 then some Devices.StopBits.one
          else if v = 2 then some .two else none) .stopBits := hstopBits
      rw [← hstopBits'] at hs
      rw [hentry, Option.map_some]
      dsimp only
      rw [if_neg hset]
      apply Makes.takes
      refine ⟨hs.told, fun hclean => hr.clean (hd.clean (hs.clean hclean)), fun hclean => ?_⟩
      have hcleanD := hs.clean hclean
      exact ⟨rfl, hr.same (hd.clean hcleanD), hd.same hcleanD, rfl, hs.same hclean⟩

theorem decodeBus_reads (d : ℕ) {i : Devices.Invalid} {held : Invalid} (ht : Told i held) :
    Reads (d + 1) (Sound i fun e b => BusEntry.Same b e) (decodeBus held) (Devices.BusEntry.ofItem i) := by
  have hslots := entries_reads (d := d) (R := fun _ s t => BusSlots.Same t s) (s := .empty) (t := .empty)
    (fun k _ s t _ h => BusSlots.step_reads h k) ⟨rfl, rfl, rfl, rfl, rfl⟩
  have hentry := hslots.andThen (S := Sound i fun e b => BusEntry.Same b e) (x := fun p => (p.2.entry i).toOption)
    (k := fun t => t.entry held) fun p t rest depth _ ⟨_, hp, _⟩ => BusSlots.entry_makes hp ht rest depth
  have hspec : Devices.BusEntry.ofItem i = fun j => (j.pairs?.bind fun pairs => (foldPairs Devices.BusSlots.take pairs
      .empty).map fun s => (pairs.length, s)).bind fun p => (p.2.entry i).toOption := by
    funext j
    rw [Devices.BusEntry.ofItem, Devices.BusSlots.ofItem]
    cases j.pairs? with
    | none => rfl
    | some pairs =>
      dsimp only [Option.bind_some]
      cases foldPairs Devices.BusSlots.take pairs .empty <;> rfl
  rw [hspec]
  exact hentry

theorem deviceOption_tryFrom (key : ℤ) : deviceOption key = Devices.DeviceOption.tryFrom key := rfl

structure Met (seen : List ℤ) (s : Devices.OptionSlots) : Prop where
  direction : s.direction.isSome → 1 ∈ seen
  pylontechVersion : s.pylontechVersion.isSome → 2 ∈ seen
  veDirect3v3 : s.veDirect3v3.isSome → 3 ∈ seen
  pollPeriodMs : s.pollPeriodMs.isSome → 4 ∈ seen

theorem Met.later {seen : List ℤ} {s : Devices.OptionSlots} (h : Met seen s) (k : ℤ) : Met (k :: seen) s :=
  ⟨fun hs => .tail k (h.direction hs), fun hs => .tail k (h.pylontechVersion hs), fun hs => .tail k (h.veDirect3v3 hs),
    fun hs => .tail k (h.pollPeriodMs hs)⟩

/-- The two bindings' slots for one device's options, after the keys `seen`. -/
structure OptionSlots.Same (i : Devices.Invalid) (seen : List ℤ) (t : OptionSlots) (s : Devices.OptionSlots) : Prop where
  count : t.count = seen.length
  told : Told s.invalid t.invalid
  clean : s.invalid.Clean → i.Clean
  met : Met seen s
  unset : t.options.currentDirection = none
  direction : t.direction = s.direction.map fun v => (v.byte.toNat : ℤ)
  pylontechVersion : t.options.pylontechVersion = s.pylontechVersion.map fun v => (v.byte.toNat : ℤ)
  veDirect3v3 : t.options.veDirect3v3 = s.veDirect3v3
  pollPeriodMs : t.options.pollPeriodMs = s.pollPeriodMs.map fun v => (v.toNat : ℤ)

section

variable {d : ℕ} {α σ τ υ : Type}

/-- A slot the code fills without looking at what is there, under a key met for the first time. -/
theorem unchecked_reads {Q : α → τ → Prop} {R : σ → υ → Prop} {read : Read τ} {f : Item → Option α}
    (hread : Reads d Q read f) {slot : Option α} (hslot : slot.isSome = false) (fill : Option α → σ) (fill' : τ → υ)
    (hfill : ∀ a t, Q a t → R (fill (some a)) (fill' t)) :
    Reads d R (do let value ← read; pure (fill' value)) (fun i => slotted (f i) slot fill) := by
  have hspec : (fun i => slotted (f i) slot fill) = fun i => (f i).map fun a => fill (some a) := by
    funext i
    unfold slotted
    cases f i with
    | none => rfl
    | some a => simp [hslot]
  rw [hspec]
  exact hread.mapped _ _ hfill

end

section

variable {d : ℕ} {i : Devices.Invalid} {seen : List ℤ} {k : ℤ} {t : OptionSlots} {s : Devices.OptionSlots}

theorem OptionSlots.step_reads (hk : k ∉ seen) (h : t.Same i seen s) :
    Reads d (fun s t => t.Same i (k :: seen) s) (step k t) (Devices.OptionSlots.take k s) := by
  have hopen : ∀ {b : Bool}, (b → k ∈ seen) → b = false := by
    rintro (_ | _) hb
    · rfl
    · exact absurd (hb rfl) hk
  have hcount : t.count + 1 = (k :: seen).length := by rw [h.count, List.length_cons]
  have hmet := h.met.later k
  by_cases hknown : Devices.OptionSlots.Known k
  · rcases hknown.cases with rfl | rfl | rfl | rfl
    · refine unchecked_reads (enumerated_reads direction_allocated) (hopen h.met.direction)
        (fun slot => { s with direction := slot })
        (fun value => { t with count := t.count + 1, direction := some value }) ?_
      rintro a _ rfl
      exact ⟨hcount, h.told, h.clean, { hmet with direction := fun _ => .head _ }, h.unset, rfl, h.pylontechVersion,
        h.veDirect3v3, h.pollPeriodMs⟩
    · refine unchecked_reads (enumerated_reads version_allocated) (hopen h.met.pylontechVersion)
        (fun slot => { s with pylontechVersion := slot })
        (fun value => { t with count := t.count + 1, options := { t.options with pylontechVersion := some value } }) ?_
      rintro a _ rfl
      exact ⟨hcount, h.told, h.clean, { hmet with pylontechVersion := fun _ => .head _ }, h.unset, h.direction, rfl,
        h.veDirect3v3, h.pollPeriodMs⟩
    · refine unchecked_reads (bool_reads d) (hopen h.met.veDirect3v3) (fun slot => { s with veDirect3v3 := slot })
        (fun value => { t with count := t.count + 1, options := { t.options with veDirect3v3 := some value } }) ?_
      rintro a _ rfl
      exact ⟨hcount, h.told, h.clean, { hmet with veDirect3v3 := fun _ => .head _ }, h.unset, h.direction,
        h.pylontechVersion, rfl, h.pollPeriodMs⟩
    · refine unchecked_reads (u32_reads d) (hopen h.met.pollPeriodMs) (fun slot => { s with pollPeriodMs := slot })
        (fun value => { t with count := t.count + 1, options := { t.options with pollPeriodMs := some value } }) ?_
      rintro a _ rfl
      exact ⟨hcount, h.told, h.clean, { hmet with pollPeriodMs := fun _ => .head _ }, h.unset, h.direction,
        h.pylontechVersion, h.veDirect3v3, rfl⟩
  · have hspec : Devices.OptionSlots.take k s = fun _ => some (Devices.OptionSlots.pass k s) := by
      funext j
      exact Devices.OptionSlots.fills.passes k s j hknown
    have hrun : step k t = (do
        skip
        pure { t with count := t.count + 1, invalid := t.invalid.note (.unknownOption k) }) := by
      unfold step
      rw [deviceOption_tryFrom, Devices.OptionSlots.tryFrom_unknown hknown]
    rw [hspec, hrun]
    apply pass_reads
    exact ⟨hcount, h.told.note (Devices.unknownOption_answer k) rfl,
      fun hclean => absurd hclean (Devices.Invalid.note_clean (Devices.unknownOption_answer k)),
      ⟨hmet.direction, hmet.pylontechVersion, hmet.veDirect3v3, hmet.pollPeriodMs⟩, h.unset, h.direction, h.pylontechVersion,
      h.veDirect3v3, h.pollPeriodMs⟩

theorem OptionSlots.finished_makes (h : t.Same i seen s) (rest : Bytes) (depth : ℕ) :
    Makes (Sound i fun o options => OptionsSame (some options) o) depth
      ((if seen.length = 0 then none else some s.options).map (·, rest)) (t.finished ⟨rest, depth⟩) := by
  unfold finished
  rw [h.count]
  by_cases hnone : seen.length = 0
  · rw [if_pos hnone, if_pos hnone]
    exact .refuses rfl
  · rw [if_neg hnone, if_neg hnone, h.direction]
    cases hdirection : s.direction with
    | none =>
      have hoptions : s.options = (⟨none, s.pylontechVersion, s.veDirect3v3, s.pollPeriodMs⟩, s.invalid) := by
        unfold Devices.OptionSlots.options
        rw [hdirection]
      rw [hoptions]
      exact .takes ⟨h.told, h.clean, fun _ => ⟨h.unset, h.pylontechVersion, h.veDirect3v3, h.pollPeriodMs⟩⟩
    | some direction =>
      unfold Devices.OptionSlots.options
      rw [hdirection]
      cases direction with
      | positiveIsIn =>
        exact .takes ⟨h.told, h.clean, fun _ => ⟨rfl, h.pylontechVersion, h.veDirect3v3, h.pollPeriodMs⟩⟩
      | positiveIsOut =>
        exact .takes ⟨h.told, h.clean, fun _ => ⟨rfl, h.pylontechVersion, h.veDirect3v3, h.pollPeriodMs⟩⟩
      | magnitudeOnly =>
        have hnoted := Devices.outOfSchema_answer (Devices.BusesAndDevicesKey.option .currentDirection).key
        exact .takes ⟨h.told.note hnoted rfl, fun hclean => absurd hclean (Devices.Invalid.note_clean hnoted),
          fun hclean => absurd hclean (Devices.Invalid.note_clean hnoted)⟩

end

theorem decodeOptions_reads (d : ℕ) {i : Devices.Invalid} {held : Invalid} (ht : Told i held) :
    Reads (d + 1) (Sound i fun o options => OptionsSame (some options) o) (decodeOptions held)
      (Devices.DeviceOptions.ofItem i) := by
  have hslots := entries_reads (d := d) (R := fun seen s t => OptionSlots.Same i seen t s)
    (s := ⟨none, none, none, none, i⟩) (t := .start held) (fun k seen s t hk h => OptionSlots.step_reads hk h)
    ⟨rfl, ht, id, by constructor <;> simp, rfl, rfl, rfl, rfl, rfl⟩
  have hoptions := hslots.andThen (S := Sound i fun o options => OptionsSame (some options) o)
    (x := fun p => if p.1 = 0 then none else some p.2.options) (k := fun t => t.finished)
    fun p t rest depth _ ⟨keys, hp, hlength⟩ => by
      rw [← hlength]
      exact OptionSlots.finished_makes hp rest depth
  have hspec : Devices.DeviceOptions.ofItem i = fun j => (j.pairs?.bind fun pairs =>
      (foldPairs Devices.OptionSlots.take pairs ⟨none, none, none, none, i⟩).map fun s => (pairs.length, s)).bind fun p =>
        if p.1 = 0 then none else some p.2.options := by
    funext j
    rw [Devices.DeviceOptions.ofItem, Devices.OptionSlots.ofItem]
    cases j.pairs? with
    | none => rfl
    | some pairs =>
      dsimp only [Option.bind_some]
      rw [Devices.OptionSlots.start]
      by_cases hnone : pairs.length = 0
      · rw [if_pos hnone]
        cases foldPairs Devices.OptionSlots.take pairs ⟨none, none, none, none, i⟩ with
        | none => rfl
        | some s => exact (if_pos hnone).symm
      · rw [if_neg hnone]
        cases hfold : foldPairs Devices.OptionSlots.take pairs ⟨none, none, none, none, i⟩ with
        | none => simp [Except.toOption, hfold]
        | some s => simp [Except.toOption, hfold, hnone]
  rw [hspec]
  exact hoptions

structure DeviceSlots.Same (i : Devices.Invalid) (t : DeviceSlots) (s : Devices.DeviceSlots) : Prop where
  told : Told s.invalid t.invalid
  clean : s.invalid.Clean → i.Clean
  dev : t.dev = s.dev.map fun v => (v.toNat : ℤ)
  bus : t.bus = s.bus.map fun v => (v.toNat : ℤ)
  addr : t.addr = s.addr
  product : t.product = s.product.map fun v => (v.toNat : ℤ)
  dialect : t.dialect = s.dialect.map fun v => (v.toNat : ℤ)
  role : t.role = s.role.map fun v => (v.toNat : ℤ)
  parent : t.parent = s.parent.map fun v => (v.toNat : ℤ)
  given : t.options.isSome = s.options.isSome
  options : s.invalid.Clean → OptionsSame t.options (s.options.getD .none)

section

variable {d : ℕ} {i : Devices.Invalid} {t : DeviceSlots} {s : Devices.DeviceSlots}

theorem DeviceSlots.Same.options_reads (h : t.Same i s) (d : ℕ) :
    Reads (d + 1) (fun s t => t.Same i s) (step 8 t) (Devices.DeviceSlots.take 8 s) := by
  apply (decodeOptions_reads d h.told).andThen
  intro read options rest depth _ hread
  have hnew : Same i { t with options := some options.1, invalid := options.2 }
      { s with options := some read.1, invalid := read.2 } :=
    ⟨hread.told, fun hclean => h.clean (hread.clean hclean), h.dev, h.bus, h.addr, h.product, h.dialect, h.role, h.parent,
      rfl, hread.same⟩
  exact once_reads (Q := fun o p => Same i { t with options := some p, invalid := options.2 }
    { s with options := some o, invalid := read.2 }) h.given (fun _ _ => id) hnew rest depth

theorem DeviceSlots.step_reads (h : t.Same i s) (k : ℤ) :
    Reads (d + 1) (fun s t => t.Same i s) (step k t) (Devices.DeviceSlots.take k s) := by
  by_cases hk : Devices.DeviceSlots.Known k
  · rcases hk.cases with rfl | rfl | rfl | rfl | rfl | rfl | rfl | rfl
    · refine field_reads (u16_reads _) (mapped_isSome h.dev) (fun slot => { s with dev := slot })
        (fun slot => { t with dev := slot }) ?_
      rintro a _ rfl
      exact { h with dev := rfl }
    · refine field_reads (u8_reads _) (mapped_isSome h.bus) (fun slot => { s with bus := slot })
        (fun slot => { t with bus := slot }) ?_
      rintro a _ rfl
      exact { h with bus := rfl }
    · refine field_reads (bytes_reads _) (congrArg _ h.addr) (fun slot => { s with addr := slot })
        (fun slot => { t with addr := slot }) ?_
      rintro a _ rfl
      exact { h with addr := rfl }
    · refine field_reads (u16_reads _) (mapped_isSome h.product) (fun slot => { s with product := slot })
        (fun slot => { t with product := slot }) ?_
      rintro a _ rfl
      exact { h with product := rfl }
    · refine field_reads (u16_reads _) (mapped_isSome h.dialect) (fun slot => { s with dialect := slot })
        (fun slot => { t with dialect := slot }) ?_
      rintro a _ rfl
      exact { h with dialect := rfl }
    · refine field_reads (u16_reads _) (mapped_isSome h.role) (fun slot => { s with role := slot })
        (fun slot => { t with role := slot }) ?_
      rintro a _ rfl
      exact { h with role := rfl }
    · refine field_reads (u16_reads _) (mapped_isSome h.parent) (fun slot => { s with parent := slot })
        (fun slot => { t with parent := slot }) ?_
      rintro a _ rfl
      exact { h with parent := rfl }
    · exact h.options_reads d
  · have hspec : Devices.DeviceSlots.take k s = fun _ => some s := by
      funext j
      exact Devices.DeviceSlots.fills.passes k s j hk
    have hrun : step k t = (do skip; pure t) := by
      unfold step
      split <;> first | rfl | exact absurd (by simp [Devices.DeviceSlots.Known]) hk
    rw [hspec, hrun]
    exact pass_reads h

end

def keptOk {κ α : Type} (i : Devices.Invalid) (slot : Option κ) (new : κ → Except ConfigError α)
    (hnew : ∀ raw why, new raw = .error why → why.answer = .invalid) : Option α × Devices.Invalid :=
  slot.elim (none, i) fun raw => i.unlessOk (new raw) (hnew raw)

/-- What the two kinds of slot make of an id: every one is taken, and none at all only in a write. -/
structure Slotted (δ : Type) [DevSlot δ] : Prop where
  given (dev : DevId) : ∃ slot : δ, DevSlot.fromDecoded (some dev) = .ok slot ∧ DevSlot.dev slot = some dev
  absent : if DevSlot.answer δ then ∃ why, DevSlot.fromDecoded (δ := δ) none = .error why
    else ∃ slot : δ, DevSlot.fromDecoded none = .ok slot ∧ DevSlot.dev slot = none

theorem write_slotted : Slotted (Option DevId) := ⟨fun dev => ⟨some dev, rfl, rfl⟩, ⟨none, rfl, rfl⟩⟩

theorem answer_slotted : Slotted DevId := ⟨fun dev => ⟨dev, rfl, rfl⟩, ⟨_, rfl⟩⟩

section

variable {δ : Type} [DevSlot δ] {i : Devices.Invalid} {held : Invalid}

theorem ok_or_error {ε α : Type} (x : Except ε α) : (∃ a, x = .ok a) ∨ ∃ why, x = .error why := by
  cases x with
  | ok a => exact .inl ⟨a, rfl⟩
  | error why => exact .inr ⟨why, rfl⟩

theorem unlessOk_error {α : Type} (i : Devices.Invalid) {value : Except ConfigError α} {why : ConfigError}
    (h : value = .error why) (hwhy : ∀ why, value = .error why → why.answer = .invalid) :
    i.unlessOk value hwhy = (none, i.note why (hwhy why h)) := by
  subst h
  rfl

theorem devSlot_kept (hδ : Slotted δ) {dev : Option UInt16} (hdev : DevSlot.answer δ → dev ≠ none) (i : Devices.Invalid) :
    ∃ slot : δ, Devices.DeviceSlots.devSlot dev i =
        .ok (slot, (keptOk i dev DevId.new fun _ _ => Devices.DevId.new_answer).2) ∧
      ((keptOk i dev DevId.new fun _ _ => Devices.DevId.new_answer).2.Clean →
        DevSlot.dev slot = (keptOk i dev DevId.new fun _ _ => Devices.DevId.new_answer).1) := by
  cases dev with
  | none =>
    have habsent := hδ.absent
    rw [if_neg fun h => hdev h rfl] at habsent
    obtain ⟨slot, hslot, hnone⟩ := habsent
    exact ⟨slot, by simp [Devices.DeviceSlots.devSlot, hslot, keptOk, bind, Except.bind], fun _ => hnone⟩
  | some raw =>
    unfold keptOk Devices.DeviceSlots.devSlot
    dsimp only [Option.elim_some]
    obtain ⟨dev, hnew⟩ | ⟨why, hnew⟩ := ok_or_error (DevId.new raw)
    · obtain ⟨slot, hslot, hsome⟩ := hδ.given dev
      rw [Devices.Invalid.unlessOk_ok i hnew]
      exact ⟨slot, by simp [hslot, bind, Except.bind], fun _ => hsome⟩
    · obtain ⟨slot, hslot, -⟩ := hδ.given .placeholder
      rw [unlessOk_error i hnew]
      exact ⟨slot, by simp [hslot, bind, Except.bind],
        fun hclean => absurd hclean (Devices.Invalid.note_clean (Devices.DevId.new_answer hnew))⟩

theorem ok_kept {κ α τ : Type} (h : Told i held) {slot : Option κ} (new : κ → Except ConfigError α)
    (hnew : ∀ raw why, new raw = .error why → why.answer = .invalid) (number : κ → τ) {value : α → τ}
    (hvalue : ∀ raw a, new raw = .ok a → value a = number raw) {bad : Prop} [Decidable bad]
    (hbad : bad ↔ ∃ raw ∈ slot, (new raw).toOption = none) (refusal : BusesAndDevicesRefusal)
    (hrefusal : sectionAnswer refusal = .invalid) :
    Sound i (fun (a : Option α) z => z = a.map value) (keptOk i slot new hnew)
      (slot.map number, if bad then held.note refusal else held) := by
  cases slot with
  | none =>
    rw [if_neg (by simp [hbad])]
    exact h.keeps rfl
  | some raw =>
    unfold keptOk
    rw [Option.elim_some]
    obtain ⟨a, hraw⟩ | ⟨why, hraw⟩ := ok_or_error (new raw)
    · rw [Devices.Invalid.unlessOk_ok i hraw, if_neg (by simp [hbad, hraw, Except.toOption])]
      apply h.keeps
      rw [Option.map_some, Option.map_some, hvalue raw a hraw]
    · rw [unlessOk_error i hraw, if_pos (by simp [hbad, hraw, Except.toOption])]
      exact h.notes _ hrefusal _ _

end

section

variable {δ : Type} [DevSlot δ] {i : Devices.Invalid} {held : Invalid} {t : DeviceSlots} {s : Devices.DeviceSlots}

theorem deviceEntry_eq (hδ : Slotted δ) {product dialect role : UInt16} {bus : UInt8} (hproduct : s.product = some product)
    (hdialect : s.dialect = some dialect) (hrole : s.role = some role) (hbus : s.bus = some bus)
    (hdev : DevSlot.answer δ → s.dev ≠ none) :
    ∃ (slot : δ) (dev : _) (addr : _) (parent : _), dev = keptOk s.invalid s.dev DevId.new (fun _ _ => Devices.DevId.new_answer) ∧
      addr = keptOk dev.2 s.addr Devices.Addr.new (fun _ _ => Devices.Addr.new_answer) ∧
      parent = keptOk addr.2 s.parent Devices.newParent (fun _ _ => Devices.newParent_answer) ∧
      (dev.2.Clean → DevSlot.dev slot = dev.1) ∧
      s.entry = .ok (⟨slot, bus, addr.1, product, dialect, role, parent.1, s.options.getD .none⟩, parent.2) := by
  obtain ⟨slot, hslot, hclean⟩ := devSlot_kept hδ hdev s.invalid
  refine ⟨slot, _, _, _, rfl, rfl, rfl, hclean, ?_⟩
  simp only [Devices.DeviceSlots.entry, hproduct, hdialect, hrole, hbus, Devices.required, bind, Except.bind, hslot]
  cases s.addr <;> cases s.parent <;> rfl

theorem deviceEntry_missing
    (h : s.product = none ∨ s.dialect = none ∨ s.role = none ∨ s.bus = none ∨ (DevSlot.answer δ ∧ s.dev = none))
    (hδ : Slotted δ) : (s.entry (δ := δ)).toOption = none := by
  unfold Devices.DeviceSlots.entry
  cases hproduct : s.product with
  | none => rfl
  | some product =>
  cases hdialect : s.dialect with
  | none => rfl
  | some dialect =>
  cases hrole : s.role with
  | none => rfl
  | some role =>
  cases hbus : s.bus with
  | none => rfl
  | some bus =>
    obtain ⟨hanswer, hdev⟩ : DevSlot.answer δ ∧ s.dev = none := by simpa [hproduct, hdialect, hrole, hbus] using h
    have habsent := hδ.absent
    rw [if_pos hanswer] at habsent
    obtain ⟨why, hwhy⟩ := habsent
    simp [Devices.required, Devices.DeviceSlots.devSlot, hdev, hwhy, bind, Except.bind, Except.toOption]

theorem devId_value {raw : UInt16} {dev : DevId} (h : DevId.new raw = .ok dev) : asNumber dev = raw.toNat := by
  unfold DevId.new at h
  split_ifs at h with hraw
  obtain rfl := Except.ok.inj h
  rfl

theorem newParent_value {raw : UInt16} {dev : DevId} (h : Devices.newParent raw = .ok dev) : asNumber dev = raw.toNat := by
  unfold Devices.newParent at h
  obtain ⟨dev', hdev⟩ | ⟨why, hdev⟩ := ok_or_error (DevId.new raw)
  · rw [hdev] at h
    obtain rfl := Except.ok.inj h
    exact devId_value hdev
  · rw [hdev] at h
    cases h

theorem addr_value {raw : Bytes} {addr : Devices.Addr} (h : Devices.Addr.new raw = .ok addr) : addr.bytes = raw := by
  unfold Devices.Addr.new at h
  split_ifs at h with hraw
  obtain rfl := Except.ok.inj h
  rfl

theorem zero_refused {new : UInt16 → Except ConfigError DevId} (hnew : ∀ raw, (new raw).toOption.isSome ↔ raw ≠ 0)
    (slot : Option UInt16) :
    (slot.map fun v => (v.toNat : ℤ)) = some 0 ↔ ∃ raw ∈ slot, (new raw).toOption = none := by
  cases slot with
  | none => simp
  | some raw =>
    have hraw := hnew raw
    rw [← not_iff_not, Option.not_isSome_iff_eq_none, not_not] at hraw
    simp only [Option.map_some, Option.some.injEq, Option.mem_def, exists_eq_left', hraw]
    rw [← UInt16.toNat_inj]
    exact Int.natCast_eq_zero

theorem addr_refused (slot : Option Bytes) :
    (slot.any fun addr => addr.length = 0 ∨ addr.length > maxAddr) ↔
      ∃ raw ∈ slot, (Devices.Addr.new raw).toOption = none := by
  cases slot with
  | none => simp
  | some raw =>
    have hraw := Devices.DeviceSlots.addr_ok raw
    rw [← not_iff_not, Option.not_isSome_iff_eq_none] at hraw
    simp only [Option.any_some, decide_eq_true_iff, Option.mem_def, Option.some.injEq, exists_eq_left', hraw]
    omega

theorem DeviceSlots.entry_makes (hδ : Slotted δ) (h : t.Same i s) (rest : Bytes) (depth : ℕ) :
    Makes (Sound i fun (e : Devices.DeviceEntry δ) d => DeviceEntry.Same d (e.withDev e.devId)) depth
      (s.entry.toOption.map (·, rest)) (t.entry (DevSlot.answer δ) ⟨rest, depth⟩) := by
  unfold DeviceSlots.entry
  rw [h.product, h.dialect, h.role, h.bus]
  cases hproduct : s.product with
  | none =>
    rw [deviceEntry_missing (.inl hproduct) hδ]
    exact .refuses rfl
  | some product =>
  cases hdialect : s.dialect with
  | none =>
    rw [deviceEntry_missing (.inr (.inl hdialect)) hδ]
    exact .refuses rfl
  | some dialect =>
  cases hrole : s.role with
  | none =>
    rw [deviceEntry_missing (.inr (.inr (.inl hrole))) hδ]
    exact .refuses rfl
  | some role =>
  cases hbus : s.bus with
  | none =>
    rw [deviceEntry_missing (.inr (.inr (.inr (.inl hbus)))) hδ]
    exact .refuses rfl
  | some bus =>
  simp only [Option.map_some, required, pure_bind]
  by_cases hdev : DevSlot.answer δ ∧ t.dev = none
  · have hnone : s.dev = none := by simpa [h.dev] using hdev.2
    rw [deviceEntry_missing (.inr (.inr (.inr (.inr ⟨hdev.1, hnone⟩)))) hδ, if_pos hdev]
    exact .refuses rfl
  · have hgiven : DevSlot.answer δ → s.dev ≠ none := by
      intro hanswer hnone
      exact hdev ⟨hanswer, by rw [h.dev, hnone, Option.map_none]⟩
    obtain ⟨slot, dev, addr, parent, hd, ha, hp, hslot, hentry⟩ :=
      deviceEntry_eq hδ hproduct hdialect hrole hbus hgiven
    have hdevs := ok_kept h.told DevId.new (fun _ _ => Devices.DevId.new_answer) (fun v => (v.toNat : ℤ))
      (fun _ _ => devId_value) (zero_refused Devices.DeviceSlots.devId_ok s.dev) (.key .outOfSchema "device entry dev") rfl
    rw [← hd] at hdevs
    have haddrs := ok_kept hdevs.told Devices.Addr.new (fun _ _ => Devices.Addr.new_answer) id (fun _ _ => addr_value)
      (addr_refused s.addr) (.key .outOfSchema "device entry addr") rfl
    rw [← ha] at haddrs
    have hparents := ok_kept haddrs.told Devices.newParent (fun _ _ => Devices.newParent_answer)
      (fun v => (v.toNat : ℤ)) (fun _ _ => newParent_value) (zero_refused Devices.DeviceSlots.newParent_ok s.parent)
      (.key .outOfSchema "device entry parent") rfl
    rw [← hp] at hparents
    rw [if_neg hdev, hentry, h.dev, h.addr, h.parent]
    apply Makes.takes
    refine ⟨hparents.told, fun hclean => h.clean (hdevs.clean (haddrs.clean (hparents.clean hclean))), fun hclean => ?_⟩
    have hcleanA := hparents.clean hclean
    have hcleanD := haddrs.clean hcleanA
    refine ⟨?_, rfl, ?_, rfl, rfl, rfl, hparents.same hclean, h.options (hdevs.clean hcleanD)⟩
    · have hnumber := hdevs.same hcleanD
      rw [← hslot hcleanD] at hnumber
      exact hnumber
    · simpa using haddrs.same hcleanA

theorem decodeDevice_reads (hδ : Slotted δ) (d : ℕ) (ht : Told i held) :
    Reads (d + 2) (Sound i fun (e : Devices.DeviceEntry δ) d => DeviceEntry.Same d (e.withDev e.devId))
      (decodeDevice (DevSlot.answer δ) held) (Devices.DeviceEntry.ofItem i) := by
  have hslots := entries_reads (d := d + 1) (R := fun _ s t => DeviceSlots.Same i t s) (s := .empty i) (t := .empty held)
    (fun k _ s t _ h => DeviceSlots.step_reads h k)
    ⟨ht, id, rfl, rfl, rfl, rfl, rfl, rfl, rfl, rfl, fun _ => ⟨rfl, rfl, rfl, rfl⟩⟩
  have hentry := hslots.andThen
    (S := Sound i fun (e : Devices.DeviceEntry δ) d => DeviceEntry.Same d (e.withDev e.devId))
    (x := fun p => p.2.entry.toOption) (k := fun t => t.entry (DevSlot.answer δ))
    fun p t rest depth _ ⟨_, hp, _⟩ => DeviceSlots.entry_makes hδ hp rest depth
  have hspec : Devices.DeviceEntry.ofItem (δ := δ) i = fun j => (j.pairs?.bind fun pairs =>
      (foldPairs Devices.DeviceSlots.take pairs (.empty i)).map fun s => (pairs.length, s)).bind fun p =>
        p.2.entry.toOption := by
    funext j
    rw [Devices.DeviceEntry.ofItem, Devices.DeviceSlots.ofItem]
    cases j.pairs? with
    | none => rfl
    | some pairs =>
      dsimp only [Option.bind_some]
      cases foldPairs Devices.DeviceSlots.take pairs (.empty i) <;> rfl
  rw [hspec]
  exact hentry

end

structure BodySlots.Same {δ : Type} [DevSlot δ] (seen : List ℤ) (t : BodySlots) (s : Devices.BodySlots δ) : Prop where
  told : Told s.invalid t.invalid
  busesMet : s.buses.isSome → 1 ∈ seen
  devicesMet : s.devices.isSome → 2 ∈ seen
  buses : t.buses = s.buses.isSome
  devices : t.devices = s.devices.isSome
  sameBuses : s.invalid.Clean → List.Forall₂ BusEntry.Same t.body.buses s.body.buses
  sameDevices : s.invalid.Clean →
    List.Forall₂ (fun d e => DeviceEntry.Same d (e.withDev e.devId)) t.body.devices s.body.devices
  busCount : t.body.buses.length = s.body.buses.length
  deviceCount : t.body.devices.length = s.body.devices.length

section

variable {δ : Type} [DevSlot δ] {d : ℕ} {seen : List ℤ} {t : BodySlots} {s : Devices.BodySlots δ}

theorem BodySlots.pushBus_same (h : t.Same seen s) {e : Devices.BusEntry × Devices.Invalid} {b : BusEntry × Invalid}
    (hb : Sound s.invalid (fun e b => BusEntry.Same b e) e b) : (t.pushBus b).Same seen (s.pushBus e) := by
  have hcount := h.busCount
  unfold BodySlots.pushBus Devices.BodySlots.pushBus Devices.BusesAndDevices.pushBus
  by_cases hroom : s.body.buses.length < maxConfigBuses
  · rw [dif_pos hroom, if_pos (by omega)]
    refine ⟨hb.told, h.busesMet, h.devicesMet, h.buses, h.devices, fun hclean => ?_, fun hclean => ?_, ?_, h.deviceCount⟩
    · exact List.rel_append (h.sameBuses (hb.clean hclean)) (.cons (hb.same hclean) .nil)
    · exact h.sameDevices (hb.clean hclean)
    · simp [hcount]
  · rw [dif_neg hroom, if_neg (by omega)]
    have hnoted := Devices.tooMany_answer Devices.BusesAndDevicesKey.buses.key
    exact ⟨hb.told.note hnoted rfl, h.busesMet, h.devicesMet, h.buses, h.devices,
      fun hclean => absurd hclean (Devices.Invalid.note_clean hnoted),
      fun hclean => absurd hclean (Devices.Invalid.note_clean hnoted), h.busCount, h.deviceCount⟩

theorem BodySlots.pushDevice_same (h : t.Same seen s) {e : Devices.DeviceEntry δ × Devices.Invalid}
    {b : DeviceEntry (Option ℤ) × Invalid}
    (hb : Sound s.invalid (fun e d => DeviceEntry.Same d (e.withDev e.devId)) e b) :
    (t.pushDevice b).Same seen (s.pushDevice e) := by
  have hcount := h.deviceCount
  unfold BodySlots.pushDevice Devices.BodySlots.pushDevice Devices.BusesAndDevices.pushDevice
  by_cases hroom : s.body.devices.length < maxConfigDevices
  · rw [dif_pos hroom, if_pos (by omega)]
    refine ⟨hb.told, h.busesMet, h.devicesMet, h.buses, h.devices, fun hclean => ?_, fun hclean => ?_, h.busCount, ?_⟩
    · exact h.sameBuses (hb.clean hclean)
    · exact List.rel_append (h.sameDevices (hb.clean hclean)) (.cons (hb.same hclean) .nil)
    · simp [hcount]
  · rw [dif_neg hroom, if_neg (by omega)]
    have hnoted := Devices.tooMany_answer Devices.BusesAndDevicesKey.devices.key
    exact ⟨hb.told.note hnoted rfl, h.busesMet, h.devicesMet, h.buses, h.devices,
      fun hclean => absurd hclean (Devices.Invalid.note_clean hnoted),
      fun hclean => absurd hclean (Devices.Invalid.note_clean hnoted), h.busCount, h.deviceCount⟩

theorem BodySlots.busItem_reads (h : t.Same seen s) (d : ℕ) :
    Reads (d + 1) (fun s t => t.Same seen s) (busItem t) (Devices.BodySlots.takeBus s) :=
  (decodeBus_reads d h.told).mapped _ _ fun _ _ hb => pushBus_same h hb

theorem BodySlots.deviceItem_reads (hδ : Slotted δ) (h : t.Same seen s) (d : ℕ) :
    Reads (d + 2) (fun s t => t.Same seen s) (deviceItem (DevSlot.answer δ) t) (Devices.BodySlots.takeDevice s) :=
  (decodeDevice_reads hδ d h.told).mapped _ _ fun _ _ hb => pushDevice_same h hb

end

end Km43.Ts
