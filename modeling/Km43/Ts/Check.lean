import Km43.Devices.ReadBack
import Km43.Devices.Rules
import Km43.Ts.Encode

namespace Km43.Ts

open Library
open Devices (DevId DevSlot DeviceOption ConfigError Transport)

structure BoardBus where
  bus : ℤ
  transport : Transport
  deriving DecidableEq

structure DialectRule where
  dialect : ℤ
  transports : List Transport
  options : List DeviceOption
  minPollMs : ℤ
  deriving DecidableEq

structure SiteRules where
  buses : List BoardBus
  dialects : List DialectRule
  maxDevices : ℤ
  maxTopologyDepth : ℤ
  deriving DecidableEq

structure TransportRow where
  addressed : Bool
  rate : Bool
  serial : Bool
  deriving DecidableEq

def TRANSPORTS : Transport → TransportRow
  | .rs485 => ⟨true, true, true⟩
  | .can => ⟨true, true, false⟩
  | .veDirect => ⟨false, true, true⟩
  | .localIo => ⟨false, false, false⟩
  | .ip => ⟨true, false, false⟩
  | .onewire => ⟨true, false, false⟩
  | .internal => ⟨false, false, false⟩

def isParity (value : ℤ) : Bool := value = 1 ∨ value = 2 ∨ value = 3

def isPylontechVersion (value : ℤ) : Bool := value = 1 ∨ value = 2

def isDirection (value : ℤ) : Bool := value = 1 ∨ value = 2 ∨ value = 3

def fits (value : Option ℤ) (max : ℤ) : Bool := value.all fun value => 0 ≤ value ∧ value ≤ max

def tooWide : BusesAndDevicesRefusal := .cbor .integerOutOfRange

def busShape (bus : BusEntry) : Option BusesAndDevicesRefusal :=
  if ¬fits (some bus.bus) 0xFF ∨ ¬fits bus.rate 0xFFFFFFFF ∨ ¬fits bus.dataBits 0xFF ∨ ¬fits bus.stopBits 0xFF then
    some tooWide
  else if bus.parity.any fun parity => !isParity parity then some (.key .unknownValue "bus entry parity")
  else if bus.rate = none ∧ bus.dataBits = none ∧ bus.parity = none ∧ bus.stopBits = none then
    some (.key .nothingSet "bus entry bus")
  else none

def deviceShape (device : DeviceEntry (Option ℤ)) : Option BusesAndDevicesRefusal :=
  let u16s := [device.dev, some device.product, some device.dialect, some device.role, device.parent]
  if ¬fits (some device.bus) 0xFF ∨ ¬u16s.all (fits · 0xFFFF) ∨
      ¬fits (device.options.bind (·.pollPeriodMs)) 0xFFFFFFFF then
    some tooWide
  else if (device.options.bind (·.pylontechVersion)).any fun version => !isPylontechVersion version then
    some (.key .unknownValue "device option pylontech_version")
  else if (device.options.bind (·.currentDirection)).any fun direction => !isDirection direction then
    some (.key .unknownValue "device option current_direction")
  else none

def busValues (bus : BusEntry) : Option BusesAndDevicesRefusal :=
  if bus.rate = some 0 then some (.key .outOfSchema "bus entry rate")
  else if bus.dataBits ≠ none ∧ bus.dataBits ≠ some 7 ∧ bus.dataBits ≠ some 8 then
    some (.key .outOfSchema "bus entry data_bits")
  else if bus.stopBits ≠ none ∧ bus.stopBits ≠ some 1 ∧ bus.stopBits ≠ some 2 then
    some (.key .outOfSchema "bus entry stop_bits")
  else none

def deviceValues (device : DeviceEntry (Option ℤ)) : Option BusesAndDevicesRefusal :=
  if device.dev = some 0 then some (.key .outOfSchema "device entry dev")
  else if device.addr.any fun addr => addr.length = 0 ∨ addr.length > maxAddr then
    some (.key .outOfSchema "device entry addr")
  else if device.parent = some 0 then some (.key .outOfSchema "device entry parent")
  else if device.options.bind (·.currentDirection) = some 3 then
    some (.key .outOfSchema "device option current_direction")
  else none

def schemaRefusal (s : BusesAndDevicesWrite) : Option BusesAndDevicesRefusal :=
  (s.buses.findSome? busShape).or <|
  (s.devices.findSome? deviceShape).or <|
  if s.buses.length > maxConfigBuses then some (.key .tooMany "buses and devices buses")
  else (s.buses.findSome? busValues).or (s.devices.findSome? deviceValues)

def chainFrom (s : BusesAndDevicesWrite) (start : Option ℤ) (depth : ℤ) :
    ℕ → List ℤ → ℤ → Option ℤ → Option BusesAndDevicesRefusal
  | 0, _, _, _ => some (.dev .parentLoop (start.getD 0))
  | _ + 1, _, held, none => if held > depth then some (.dev .tooDeep (start.getD 0)) else none
  | left + 1, seen, held, some parent =>
    if some parent = start ∨ parent ∈ seen then some (.dev .parentLoop parent)
    else
      match s.devices.find? (·.dev = some parent) with
      | none => some (.dev .parentNotListed parent)
      | some above => chainFrom s start depth left (seen ++ [parent]) (held + 1) above.parent

def chain (s : BusesAndDevicesWrite) (rules : SiteRules) (device : DeviceEntry (Option ℤ)) :
    Option BusesAndDevicesRefusal :=
  chainFrom s device.dev rules.maxTopologyDepth maxConfigDevices [] 1 device.parent

def transportOf (rules : SiteRules) (bus : ℤ) : Option Transport :=
  (rules.buses.find? (·.bus = bus)).map (·.transport)

def settingsOnSite (entry : BusEntry) (transport : Transport) : Option BusesAndDevicesRefusal :=
  if entry.rate ≠ none ∧ ¬(TRANSPORTS transport).rate then some (.notOnTransport entry.bus "bus entry rate")
  else if (TRANSPORTS transport).serial then none
  else if entry.dataBits ≠ none then some (.notOnTransport entry.bus "bus entry data_bits")
  else if entry.parity ≠ none then some (.notOnTransport entry.bus "bus entry parity")
  else if entry.stopBits ≠ none then some (.notOnTransport entry.bus "bus entry stop_bits")
  else none

def busOnSite (rules : SiteRules) (entry : BusEntry) (later : List BusEntry) : Option BusesAndDevicesRefusal :=
  match transportOf rules entry.bus with
  | none => some (.bus .unknownBus entry.bus)
  | some transport =>
    if later.any (·.bus = entry.bus) then some (.bus .busTwice entry.bus) else settingsOnSite entry transport

def addrOnSite (device : DeviceEntry (Option ℤ)) (later : List (DeviceEntry (Option ℤ))) (transport : Transport) :
    Option BusesAndDevicesRefusal :=
  if device.addr = none ∧ (TRANSPORTS transport).addressed then some (.bus .addrRequired device.bus)
  else if device.addr ≠ none ∧ ¬(TRANSPORTS transport).addressed then some (.bus .addrNotAddressed device.bus)
  else if device.addr ≠ none ∧ later.any fun other => other.bus = device.bus ∧ other.addr = device.addr then
    some (.bus .addrTwice device.bus)
  else none

def optionsOnSite (rule : DialectRule) (device : DeviceEntry (Option ℤ)) : Option BusesAndDevicesRefusal :=
  match (setOptions device.options).find? (· ∉ rule.options) with
  | some option => some (.optionNotInDialect option device.dialect)
  | none =>
    match device.options.bind (·.pollPeriodMs) with
    | some period =>
      if period < rule.minPollMs then some (.pollTooShort device.dialect rule.minPollMs) else none
    | none => none

def devOnSite (device : DeviceEntry (Option ℤ)) (later : List (DeviceEntry (Option ℤ))) :
    Option BusesAndDevicesRefusal :=
  match device.dev with
  | some dev => if later.any (·.dev = some dev) then some (.dev .devTwice dev) else none
  | none => none

def deviceOnSite (rules : SiteRules) (device : DeviceEntry (Option ℤ)) (later : List (DeviceEntry (Option ℤ))) :
    Option BusesAndDevicesRefusal :=
  match transportOf rules device.bus with
  | none => some (.bus .unknownBus device.bus)
  | some transport =>
    (addrOnSite device later transport).or <|
    match rules.dialects.find? fun rule => rule.dialect = device.dialect ∧ transport ∈ rule.transports with
    | none => some (.dialectNotCarried device.dialect device.bus)
    | some rule => (optionsOnSite rule device).or (devOnSite device later)

def firstRefusal {α : Type} (refusal : α → List α → Option BusesAndDevicesRefusal) :
    List α → Option BusesAndDevicesRefusal
  | [] => none
  | entry :: later => (refusal entry later).or (firstRefusal refusal later)

/-- What the board, the dialect table and the caps refuse, once every value is one the decoder takes. -/
def siteRefusal (s : BusesAndDevicesWrite) (rules : SiteRules) : Option BusesAndDevicesRefusal :=
  (firstRefusal (busOnSite rules) s.buses).or <|
  (if s.devices.length > rules.maxDevices ∨ s.devices.length > maxConfigDevices then
    some (.key .tooMany "buses and devices devices")
  else none).or <|
  (firstRefusal (deviceOnSite rules) s.devices).or (s.devices.findSome? (chain s rules))

def checkBusesAndDevices (s : BusesAndDevicesWrite) (rules : SiteRules) : Option BusesAndDevicesRefusal :=
  (schemaRefusal s).or (siteRefusal s rules)

def SiteRules.client (rules : Devices.SiteRules) : SiteRules where
  buses := rules.buses.map fun board => ⟨board.bus.toNat, board.transport⟩
  dialects := rules.dialects.map fun rule => ⟨rule.dialect.toNat, rule.transports, rule.options, rule.minPollMs.toNat⟩
  maxDevices := rules.maxDevices
  maxTopologyDepth := rules.maxTopologyDepth

def asNumber (dev : DevId) : ℤ := dev.toNat

theorem asNumber_inj : Function.Injective asNumber :=
  fun _ _ h => Devices.DevId.toNat_inj.mp (Int.ofNat_inj.mp h)

structure BusEntry.Same (b : BusEntry) (e : Devices.BusEntry) : Prop where
  bus : b.bus = e.bus.toNat
  rate : b.rate = e.rate.map fun rate => (rate.raw.toNat : ℤ)
  dataBits : b.dataBits = e.dataBits.map fun bits => (bits.wire.toNat : ℤ)
  parity : b.parity = e.parity.map fun parity => (parity.byte.toNat : ℤ)
  stopBits : b.stopBits = e.stopBits.map fun bits => (bits.wire.toNat : ℤ)

structure OptionsSame (options : Option DeviceOptions) (o : Devices.DeviceOptions) : Prop where
  currentDirection : options.bind (·.currentDirection) = o.currentDirection.map fun d => (d.direction.byte.toNat : ℤ)
  pylontechVersion : options.bind (·.pylontechVersion) = o.pylontechVersion.map fun v => (v.byte.toNat : ℤ)
  veDirect3v3 : options.bind (·.veDirect3v3) = o.veDirect3v3
  pollPeriodMs : options.bind (·.pollPeriodMs) = o.pollPeriodMs.map fun p => (p.toNat : ℤ)

structure DeviceEntry.Same (d : DeviceEntry (Option ℤ)) (e : Devices.DeviceEntry (Option DevId)) : Prop where
  dev : d.dev = e.dev.map asNumber
  bus : d.bus = e.bus.toNat
  addr : d.addr = e.addr.map (·.bytes)
  product : d.product = e.product.toNat
  dialect : d.dialect = e.dialect.toNat
  role : d.role = e.role.toNat
  parent : d.parent = e.parent.map asNumber
  options : OptionsSame d.options e.options

structure BusesAndDevices.Same (s : BusesAndDevicesWrite) (r : Devices.BusesAndDevicesWrite) : Prop where
  buses : List.Forall₂ BusEntry.Same s.buses r.buses
  devices : List.Forall₂ DeviceEntry.Same s.devices r.devices

inductive Agrees {α : Type} : Option BusesAndDevicesRefusal → Except ConfigError α → Prop
  | accepts (a : α) : Agrees none (.ok a)
  | refuses {refusal : BusesAndDevicesRefusal} {why : ConfigError} (h : sectionAnswer refusal = why.answer) :
      Agrees (some refusal) (.error why)

section

variable {rules : Devices.SiteRules}

theorem Agrees.seq {α β : Type} {first next : Option BusesAndDevicesRefusal} {x : Except ConfigError α}
    {f : α → Except ConfigError β} (hx : Agrees first x) (hf : ∀ a, x = .ok a → Agrees next (f a)) :
    Agrees (first.or next) (x >>= f) := by
  cases hx with
  | accepts a => exact hf a rfl
  | refuses h => exact .refuses h

section

variable {α : Type} {refusal : Option BusesAndDevicesRefusal} {result : Except ConfigError α}

theorem Agrees.accepted (h : Agrees refusal result) (hnone : refusal = none) : ∃ a, result = .ok a := by
  cases h with
  | accepts a => exact ⟨a, rfl⟩
  | refuses => cases hnone

theorem Agrees.of_accepted (h : Agrees refusal result) {a : α} (hok : result = .ok a) : refusal = none := by
  cases h with
  | accepts => rfl
  | refuses => cases hok

theorem Agrees.refused (h : Agrees refusal result) {why : BusesAndDevicesRefusal} (hsome : refusal = some why) :
    ∃ why', result = .error why' ∧ why'.answer = sectionAnswer why := by
  cases h with
  | accepts => cases hsome
  | refuses h =>
    obtain rfl := Option.some.inj hsome
    exact ⟨_, rfl, h.symm⟩

end

theorem any_same {α β : Type} {R : α → β → Prop} {xs : List α} {ys : List β} (h : List.Forall₂ R xs ys) {p : α → Bool}
    {q : β → Bool} (hpq : ∀ x y, R x y → p x = q y) : xs.any p = ys.any q := by
  induction h with
  | nil => rfl
  | cons hxy _ ih => rw [List.any_cons, List.any_cons, hpq _ _ hxy, ih]

theorem transportOf_client (bus : UInt8) : transportOf (.client rules) bus.toNat = rules.transport bus := by
  unfold transportOf Devices.SiteRules.transport SiteRules.client
  rw [List.find?_map, Option.map_map]
  congr 1
  apply congrArg (fun p => List.find? p rules.buses)
  funext board
  simp [UInt8.toNat_inj]

theorem TRANSPORTS_row (t : Transport) : TRANSPORTS t = ⟨t.addressed, t.hasRate, t.isSerialLine⟩ := by
  cases t <;> rfl

theorem settings_agree {b : BusEntry} {e : Devices.BusEntry} (h : b.Same e) (hset : e.Set) (transport : Transport) :
    Agrees (settingsOnSite b transport) (e.check transport) := by
  have hsome : ∀ {α : Type} {o : Option ℤ} {o' : Option α} {f : α → ℤ}, o = o'.map f → (o ≠ none ↔ o'.isSome) := by
    intro α o o' f ho
    rw [ho]
    cases o' <;> simp
  have hnothing : ¬(e.rate.isNone ∧ e.dataBits.isNone ∧ e.parity.isNone ∧ e.stopBits.isNone) := by
    rintro ⟨hr, hd, hp, hs⟩
    unfold Devices.BusEntry.Set at hset
    simp_all
  unfold settingsOnSite Devices.BusEntry.check
  rw [if_neg hnothing, TRANSPORTS_row]
  simp only [hsome h.rate, hsome h.dataBits, hsome h.parity, hsome h.stopBits]
  split_ifs <;> first | exact .refuses rfl | exact .accepts ()

theorem buses_agree {bs : List BusEntry} {es : List Devices.BusEntry} (h : List.Forall₂ BusEntry.Same bs es)
    (hset : ∀ e ∈ es, e.Set) : Agrees (firstRefusal (busOnSite (.client rules)) bs) (Devices.checkBuses rules es) := by
  induction h with
  | nil => exact .accepts ()
  | @cons b e bs es hb hrest ih =>
    obtain ⟨he, hset⟩ := List.forall_mem_cons.mp hset
    rw [firstRefusal, busOnSite, Devices.checkBuses, hb.bus, transportOf_client]
    cases rules.transport e.bus with
    | none => exact .refuses rfl
    | some transport =>
      have htwice : (bs.any fun other => other.bus = e.bus.toNat) = es.any fun other => other.bus = e.bus := by
        apply any_same hrest
        intro x y hxy
        rw [decide_eq_decide, hxy.bus, Int.ofNat_inj, UInt8.toNat_inj]
      dsimp only
      rw [htwice]
      split_ifs
      · exact .refuses rfl
      · exact (settings_agree hb he transport).seq fun _ _ => ih hset

section

variable {d : DeviceEntry (Option ℤ)} {e : Devices.DeviceEntry (Option DevId)} {ds : List (DeviceEntry (Option ℤ))}
  {es : List (Devices.DeviceEntry (Option DevId))}

theorem addr_agrees (h : d.Same e) (hlater : List.Forall₂ DeviceEntry.Same ds es) (transport : Transport) :
    Agrees (addrOnSite d ds transport) (Devices.checkAddr e es transport) := by
  unfold addrOnSite Devices.checkAddr
  rw [TRANSPORTS_row, h.addr, h.bus]
  cases haddr : e.addr with
  | none =>
    cases transport.addressed with
    | false => exact .accepts ()
    | true => exact .refuses rfl
  | some addr =>
    cases transport.addressed with
    | false => exact .refuses rfl
    | true =>
      have htwice : (ds.any fun other => other.bus = e.bus.toNat ∧ other.addr = some addr.bytes) =
          es.any fun other => other.bus = e.bus ∧ other.addr = some addr := by
        apply any_same hlater
        intro x y hxy
        rw [decide_eq_decide, hxy.bus, hxy.addr, Int.ofNat_inj, UInt8.toNat_inj]
        apply and_congr_right
        intro _
        cases y.addr with
        | none => simp
        | some other =>
          obtain ⟨raw, -⟩ := other
          obtain ⟨raw', -⟩ := addr
          simp
      simp only [Option.map_some, ne_eq, reduceCtorEq, not_false_eq_true, true_and, false_and, not_true, and_false,
        if_false, htwice]
      split_ifs
      · exact .refuses rfl
      · exact .accepts ()

theorem setOptions_same {options : Option DeviceOptions} {o : Devices.DeviceOptions} (h : OptionsSame options o) :
    setOptions options = o.set := by
  unfold setOptions Devices.DeviceOptions.set
  rw [h.currentDirection, h.pylontechVersion, h.veDirect3v3, h.pollPeriodMs]
  cases o.currentDirection <;> cases o.pylontechVersion <;> cases o.veDirect3v3 <;> cases o.pollPeriodMs <;> rfl

theorem options_agree (h : d.Same e) (rule : Devices.DialectRule) :
    Agrees (optionsOnSite ⟨rule.dialect.toNat, rule.transports, rule.options, rule.minPollMs.toNat⟩ d)
      (e.options.check rule) := by
  unfold optionsOnSite Devices.DeviceOptions.check
  rw [setOptions_same h.options, h.options.pollPeriodMs]
  dsimp only
  cases e.options.set.find? (· ∉ rule.options) with
  | some option => exact .refuses rfl
  | none =>
    cases e.options.pollPeriodMs with
    | none => exact .accepts ()
    | some period =>
      simp only [Option.map_some, Nat.cast_lt, ← UInt32.lt_iff_toNat_lt]
      split_ifs
      · exact .refuses rfl
      · exact .accepts ()

theorem dev_same {x : DeviceEntry (Option ℤ)} {y : Devices.DeviceEntry (Option DevId)} (h : x.Same y) (dev : DevId) :
    x.dev = some (asNumber dev) ↔ y.devId = some dev := by
  rw [h.dev]
  change _ ↔ y.dev = some dev
  rw [← Option.map_some, (Option.map_injective asNumber_inj).eq_iff]

theorem dev_agrees (h : d.Same e) (hlater : List.Forall₂ DeviceEntry.Same ds es) :
    Agrees (devOnSite d ds) (Devices.checkDevTwice e es) := by
  have hdev := h.dev
  unfold devOnSite Devices.checkDevTwice
  rw [show e.devId = e.dev from rfl]
  cases hd : e.dev with
  | none =>
    rw [hdev, hd]
    exact .accepts ()
  | some dev =>
    have htwice : (ds.any fun other => other.dev = some (asNumber dev)) = es.any fun other => other.devId = some dev := by
      apply any_same hlater
      intro x y hxy
      rw [decide_eq_decide]
      exact dev_same hxy dev
    rw [hdev, hd, Option.map_some]
    dsimp only
    rw [htwice]
    split_ifs
    · exact .refuses rfl
    · exact .accepts ()

theorem devices_agree (h : List.Forall₂ DeviceEntry.Same ds es) :
    Agrees (firstRefusal (deviceOnSite (.client rules)) ds) (Devices.checkDevices rules es) := by
  induction h with
  | nil => exact .accepts ()
  | @cons d e ds es hd hrest ih =>
    rw [firstRefusal, deviceOnSite, Devices.checkDevices, hd.bus, transportOf_client]
    cases rules.transport e.bus with
    | none => exact .refuses rfl
    | some transport =>
      have hrule : ((SiteRules.client rules).dialects.find? fun rule => rule.dialect = d.dialect ∧ transport ∈ rule.transports) =
          (rules.dialect e.dialect transport).map fun rule =>
            ⟨rule.dialect.toNat, rule.transports, rule.options, rule.minPollMs.toNat⟩ := by
        unfold Devices.SiteRules.dialect SiteRules.client
        rw [List.find?_map]
        congr 1
        apply congrArg (fun p => List.find? p rules.dialects)
        funext rule
        simp [hd.dialect, UInt16.toNat_inj]
      dsimp only
      rw [hrule, Option.or_assoc]
      apply (addr_agrees hd hrest transport).seq
      intro _ _
      cases rules.dialect e.dialect transport with
      | none => exact .refuses rfl
      | some rule =>
        rw [Option.map_some, Option.or_assoc]
        apply (options_agree hd rule).seq
        intro _ _
        exact (dev_agrees hd hrest).seq fun _ _ => ih

end

section

variable {s : BusesAndDevicesWrite} {es : List (Devices.DeviceEntry (Option DevId))}

theorem find_same {ds : List (DeviceEntry (Option ℤ))} (h : List.Forall₂ DeviceEntry.Same ds es) (dev : DevId) :
    Option.Rel DeviceEntry.Same (ds.find? (·.dev = some (asNumber dev))) (es.find? (·.devId = some dev)) := by
  induction h with
  | nil => exact .none
  | @cons d e ds es hd hrest ih =>
    rw [List.find?_cons, List.find?_cons, decide_eq_decide.mpr (dev_same hd dev)]
    cases decide (e.devId = some dev) with
    | true => exact .some hd
    | false => exact ih

theorem chainFrom_agrees (h : List.Forall₂ DeviceEntry.Same s.devices es) (start : Option DevId) (depth : ℕ) (left : ℕ)
    (seen : List DevId) (held : ℕ) (next : Option DevId) :
    Agrees (chainFrom s (start.map asNumber) depth left (seen.map asNumber) held (next.map asNumber))
      (Devices.chainFrom es start depth left seen held next) := by
  induction left generalizing seen held next with
  | zero => exact .refuses rfl
  | succ left ih =>
    cases next with
    | none =>
      rw [Option.map_none, chainFrom, Devices.chainFrom]
      simp only [gt_iff_lt, Nat.cast_lt]
      split_ifs
      · exact .refuses rfl
      · exact .accepts ()
    | some parent =>
      have hpassed : (some (asNumber parent) = start.map asNumber ∨ asNumber parent ∈ seen.map asNumber) ↔
          (start = some parent ∨ parent ∈ seen) := by
        rw [List.mem_map_of_injective asNumber_inj]
        apply or_congr_left
        rw [← Option.map_some, (Option.map_injective asNumber_inj).eq_iff, eq_comm]
      rw [Option.map_some, chainFrom, Devices.chainFrom]
      simp only [hpassed]
      split_ifs
      · exact .refuses rfl
      · have hfind := find_same h parent
        revert hfind
        generalize s.devices.find? _ = found, es.find? _ = found'
        intro hfind
        cases hfind with
        | none => exact .refuses rfl
        | @some above above' habove =>
          have hnext := ih (seen ++ [parent]) (held + 1) above'.parent
          rw [List.map_append] at hnext
          dsimp only
          rw [habove.parent]
          exact hnext

theorem chains_agree {ds : List (DeviceEntry (Option ℤ))} {fs : List (Devices.DeviceEntry (Option DevId))}
    (h : List.Forall₂ DeviceEntry.Same s.devices es) (hds : List.Forall₂ DeviceEntry.Same ds fs) :
    Agrees (ds.findSome? (chain s (.client rules))) (fs.forM (Devices.checkChain es rules.maxTopologyDepth)) := by
  induction hds with
  | nil => exact .accepts ()
  | @cons d f ds fs hd hrest ih =>
    have hchain := chainFrom_agrees h f.dev rules.maxTopologyDepth maxConfigDevices [] 1 f.parent
    rw [← hd.dev, ← hd.parent] at hchain
    have hcons : (d :: ds).findSome? (chain s (.client rules)) =
        (chain s (.client rules) d).or (ds.findSome? (chain s (.client rules))) := by
      rw [List.findSome?_cons]
      cases chain s (.client rules) d <;> rfl
    rw [hcons]
    exact Agrees.seq hchain fun _ _ => ih

theorem site_agrees {r : Devices.BusesAndDevicesWrite} (h : s.Same r) (hset : ∀ e ∈ r.buses, e.Set) :
    Agrees (siteRefusal s (.client rules)) (r.check rules) := by
  have hcount : Agrees (if s.devices.length > (SiteRules.client rules).maxDevices ∨ s.devices.length > maxConfigDevices then
      some (.key .tooMany "buses and devices devices") else none) (Devices.checkCount rules r.devices.length) := by
    unfold Devices.checkCount SiteRules.client
    rw [h.devices.length_eq]
    simp only [gt_iff_lt, Nat.cast_lt]
    split_ifs
    · exact .refuses rfl
    · exact .accepts ()
  apply (buses_agree h.buses hset).seq
  intro _ _
  apply hcount.seq
  intro _ _
  apply (devices_agree h.devices).seq
  intro _ _
  exact chains_agree h.devices h.devices

end

end

end Km43.Ts
