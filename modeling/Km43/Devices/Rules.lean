import Km43.Library.Fallible
import Km43.Devices.Entries

namespace Km43.Devices

open Library

structure BoardBus where
  bus : UInt8
  transport : Transport
  deriving DecidableEq

structure DialectRule where
  dialect : UInt16
  transports : List Transport
  options : List DeviceOption
  minPollMs : UInt32
  deriving DecidableEq

structure SiteRules where
  buses : List BoardBus
  dialects : List DialectRule
  maxDevices : ℕ
  maxTopologyDepth : ℕ

namespace SiteRules

def transport (rules : SiteRules) (bus : UInt8) : Option Transport :=
  (rules.buses.find? fun board => board.bus = bus).map (·.transport)

def dialect (rules : SiteRules) (dialect : UInt16) (transport : Transport) : Option DialectRule :=
  rules.dialects.find? fun rule => rule.dialect = dialect ∧ transport ∈ rule.transports

end SiteRules

def BusEntry.check (entry : BusEntry) (transport : Transport) : Except ConfigError Unit :=
  let refuse (key : BusesAndDevicesKey) := .error (.notOnTransport entry.bus key.key)
  if entry.rate.isNone ∧ entry.dataBits.isNone ∧ entry.parity.isNone ∧ entry.stopBits.isNone then
    .error (.nothingSet BusesAndDevicesKey.bus.key)
  else if entry.rate.isSome ∧ ¬transport.hasRate then refuse .rate
  else if transport.isSerialLine then .ok ()
  else if entry.dataBits.isSome then refuse .dataBits
  else if entry.parity.isSome then refuse .parity
  else if entry.stopBits.isSome then refuse .stopBits
  else .ok ()

def DeviceOptions.check (options : DeviceOptions) (rule : DialectRule) : Except ConfigError Unit :=
  match options.set.find? (· ∉ rule.options) with
  | some option => .error (.optionNotInDialect option rule.dialect)
  | .none =>
    match options.pollPeriodMs with
    | some period =>
      if period < rule.minPollMs then .error (.pollTooShort rule.dialect rule.minPollMs) else .ok ()
    | .none => .ok ()

def checkBuses (rules : SiteRules) : List BusEntry → Except ConfigError Unit
  | [] => .ok ()
  | entry :: later =>
    match rules.transport entry.bus with
    | none => .error (.unknownBus entry.bus)
    | some transport =>
      if later.any (·.bus = entry.bus) then .error (.busTwice entry.bus)
      else do
        entry.check transport
        checkBuses rules later

variable {δ : Type}

/-- An address exactly where the transport addresses, and never one of a later device. -/
def checkAddr (device : DeviceEntry δ) (later : List (DeviceEntry δ)) (transport : Transport) :
    Except ConfigError Unit :=
  match device.addr, transport.addressed with
  | none, true => .error (.addrRequired device.bus)
  | some _, false => .error (.addrNotAddressed device.bus)
  | none, false => .ok ()
  | some addr, true =>
    if later.any fun other => other.bus = device.bus ∧ other.addr = some addr then
      .error (.addrTwice device.bus)
    else .ok ()

theorem checkAddr_ok (device : DeviceEntry δ) (later : List (DeviceEntry δ)) (transport : Transport) :
    checkAddr device later transport = .ok () ↔ device.addr.isSome = transport.addressed ∧
      ∀ e ∈ later, ∀ addr, device.addr = some addr → ¬(e.bus = device.bus ∧ e.addr = some addr) := by
  unfold checkAddr
  cases ha : device.addr <;> cases transport.addressed <;> simp

variable [DevSlot δ]

def DeviceEntry.devId (d : DeviceEntry δ) : Option DevId := DevSlot.dev d.dev

def checkDevTwice (device : DeviceEntry δ) (later : List (DeviceEntry δ)) : Except ConfigError Unit :=
  match device.devId with
  | some dev => if later.any (·.devId = some dev) then .error (.devTwice dev.get) else .ok ()
  | none => .ok ()

def checkDevices (rules : SiteRules) : List (DeviceEntry δ) → Except ConfigError Unit
  | [] => .ok ()
  | device :: later =>
    match rules.transport device.bus with
    | none => .error (.unknownBus device.bus)
    | some transport => do
      checkAddr device later transport
      match rules.dialect device.dialect transport with
      | none => .error (.dialectNotCarried device.dialect device.bus)
      | some rule => do
        device.options.check rule
        checkDevTwice device later
        checkDevices rules later

/-- The walk up a parent chain, `left` links from giving up, `seen` the parents it passed. -/
def chainFrom (devices : List (DeviceEntry δ)) (start : Option DevId) (depth : ℕ) :
    ℕ → List DevId → ℕ → Option DevId → Except ConfigError Unit
  | 0, _, _, _ => .error (.parentLoop (start.elim 0 DevId.get))
  | _ + 1, _, held, none =>
    if held > depth then .error (.tooDeep (start.elim 0 DevId.get)) else .ok ()
  | left + 1, seen, held, some parent =>
    if start = some parent ∨ parent ∈ seen then .error (.parentLoop parent.get)
    else
      match devices.find? (·.devId = some parent) with
      | none => .error (.parentNotListed parent.get)
      | some above => chainFrom devices start depth left (seen ++ [parent]) (held + 1) above.parent

def checkChain (devices : List (DeviceEntry δ)) (depth : ℕ) (device : DeviceEntry δ) :
    Except ConfigError Unit :=
  chainFrom devices device.devId depth maxConfigDevices [] 1 device.parent

def checkCount (rules : SiteRules) (count : ℕ) : Except ConfigError Unit :=
  if count > rules.maxDevices ∨ count > maxConfigDevices then
    .error (.tooMany BusesAndDevicesKey.devices.key)
  else .ok ()

def BusesAndDevices.check (s : BusesAndDevices δ) (rules : SiteRules) : Except ConfigError Unit := do
  checkBuses rules s.buses
  checkCount rules s.devices.length
  checkDevices rules s.devices
  s.devices.forM (checkChain s.devices rules.maxTopologyDepth)

/-- What the board and the dialects allow one device, whatever stands beside it. -/
def DeviceFits (rules : SiteRules) (d : DeviceEntry δ) : Prop :=
  ∃ transport, rules.transport d.bus = some transport ∧ d.addr.isSome = transport.addressed ∧
    ∃ rule, rules.dialect d.dialect transport = some rule ∧ d.options.check rule = .ok ()

def Apart (d e : DeviceEntry δ) : Prop :=
  (∀ addr, d.addr = some addr → ¬(e.bus = d.bus ∧ e.addr = some addr)) ∧
    ∀ dev, d.devId = some dev → e.devId ≠ some dev

/-- What a section that passes its check is, in whatever order its entries stand. -/
structure Legal (rules : SiteRules) (s : BusesAndDevices δ) : Prop where
  buses_apart : s.buses.Pairwise fun a b => b.bus ≠ a.bus
  buses_fit : ∀ b ∈ s.buses, ∃ transport, rules.transport b.bus = some transport ∧
    b.check transport = .ok ()
  count : s.devices.length ≤ rules.maxDevices
  devices_apart : s.devices.Pairwise Apart
  devices_fit : ∀ d ∈ s.devices, DeviceFits rules d
  chains : ∀ d ∈ s.devices, checkChain s.devices rules.maxTopologyDepth d = .ok ()

theorem checkBuses_ok (rules : SiteRules) (buses : List BusEntry) :
    checkBuses rules buses = .ok () ↔ buses.Pairwise (fun a b => b.bus ≠ a.bus) ∧
      ∀ b ∈ buses, ∃ transport, rules.transport b.bus = some transport ∧
        b.check transport = .ok () := by
  induction buses with
  | nil => simp [checkBuses]
  | cons entry later ih =>
    rw [checkBuses, List.pairwise_cons, List.forall_mem_cons]
    cases ht : rules.transport entry.bus with
    | none => simp
    | some transport =>
      simp only [List.any_eq_true, decide_eq_true_eq, Option.some.injEq, exists_eq_left']
      split_ifs with htwice
      · obtain ⟨other, hmem, hbus⟩ := htwice
        simp only [false_iff, not_and]
        exact fun h => absurd hbus (h.1 other hmem)
      · simp only [seq_ok, ih]
        have hfresh : ∀ b ∈ later, b.bus ≠ entry.bus := fun b hb h => htwice ⟨b, hb, h⟩
        tauto

theorem checkDevTwice_ok (device : DeviceEntry δ) (later : List (DeviceEntry δ)) :
    checkDevTwice device later = .ok () ↔
      ∀ e ∈ later, ∀ dev, device.devId = some dev → e.devId ≠ some dev := by
  unfold checkDevTwice
  cases hd : device.devId <;> simp

theorem checkDevices_ok (rules : SiteRules) (devices : List (DeviceEntry δ)) :
    checkDevices rules devices = .ok () ↔
      devices.Pairwise Apart ∧ ∀ d ∈ devices, DeviceFits rules d := by
  induction devices with
  | nil => simp [checkDevices]
  | cons device later ih =>
    rw [checkDevices, List.pairwise_cons, List.forall_mem_cons]
    have hapart : (∀ e ∈ later, Apart device e) ↔
        (∀ e ∈ later, ∀ addr, device.addr = some addr → ¬(e.bus = device.bus ∧ e.addr = some addr)) ∧
          ∀ e ∈ later, ∀ dev, device.devId = some dev → e.devId ≠ some dev :=
      ⟨fun h => ⟨fun e he => (h e he).1, fun e he => (h e he).2⟩,
        fun h e he => ⟨h.1 e he, h.2 e he⟩⟩
    cases ht : rules.transport device.bus with
    | none => simp [DeviceFits, ht]
    | some transport =>
      simp only [seq_ok, checkAddr_ok, hapart]
      cases hr : rules.dialect device.dialect transport with
      | none => simp [DeviceFits, ht, hr]
      | some rule =>
        have hfits : DeviceFits rules device ↔
            device.addr.isSome = transport.addressed ∧ device.options.check rule = .ok () := by
          simp [DeviceFits, ht, hr]
        simp only [seq_ok, checkDevTwice_ok, ih, hfits]
        tauto

theorem BusesAndDevices.check_ok (s : BusesAndDevices δ) (rules : SiteRules) :
    s.check rules = .ok () ↔ Legal rules s := by
  have hcount : checkCount rules s.devices.length = .ok () ↔ s.devices.length ≤ rules.maxDevices := by
    have := s.devices_le
    unfold checkCount
    split_ifs <;> simp only [false_iff, true_iff] <;> omega
  unfold BusesAndDevices.check
  simp only [seq_ok, checkBuses_ok, checkDevices_ok, forM_ok, hcount]
  constructor
  · rintro ⟨⟨hb, hbf⟩, hc, ⟨hd, hdf⟩, hch⟩
    exact ⟨hb, hbf, hc, hd, hdf, hch⟩
  · intro h
    exact ⟨⟨h.buses_apart, h.buses_fit⟩, h.count, ⟨h.devices_apart, h.devices_fit⟩, h.chains⟩

end Km43.Devices
