import Km43.Devices.Rules

namespace Km43.Devices

open Library

structure Accepted where
  body : BusesAndDevicesRead
  allocator : DevAllocator
  deriving DecidableEq

def BusesAndDevices.sort (s : BusesAndDevicesRead) : BusesAndDevicesRead where
  buses := s.buses.insertionSort fun a b => a.bus ≤ b.bus
  devices := s.devices.insertionSort fun a b => a.dev.toNat ≤ b.dev.toNat
  buses_le := by rw [List.length_insertionSort]; exact s.buses_le
  devices_le := by rw [List.length_insertionSort]; exact s.devices_le

def DevAllocator.checkAhead (a : DevAllocator) (held : BusesAndDevicesRead) :
    Except ConfigError Unit :=
  match a.next with
  | none => .ok ()
  | some next =>
    if held.devices.any fun was => next.toNat ≤ was.dev.toNat then .error (.allocatorBehind next.get)
    else .ok ()

def assignDev (held : BusesAndDevicesRead) (allocator : DevAllocator)
    (device : DeviceEntry (Option DevId)) : Except ConfigError (DevId × DevAllocator) :=
  match device.dev with
  | none => allocator.allocate
  | some dev =>
    match held.devices.find? (·.dev = dev) with
    | none => .error (.unknownDev dev.get)
    | some was =>
      if was.product ≠ device.product ∨ was.dialect ≠ device.dialect then
        .error (.deviceChanged dev.get)
      else .ok (dev, allocator)

def assign (held : BusesAndDevicesRead) : List (DeviceEntry (Option DevId)) →
    BusesAndDevicesRead → DevAllocator → Except ConfigError (BusesAndDevicesRead × DevAllocator)
  | [], body, allocator => .ok (body, allocator)
  | device :: rest, body, allocator => do
    let (dev, allocator) ← assignDev held allocator device
    let body ← body.pushDevice (device.withDev dev)
    assign held rest body allocator

def BusesAndDevicesWrite.accept (w : BusesAndDevicesWrite) (rules : SiteRules)
    (held : BusesAndDevicesRead) (allocator : DevAllocator) : Except ConfigError Accepted := do
  w.check rules
  allocator.checkAhead held
  let body ← w.buses.foldlM BusesAndDevices.pushBus BusesAndDevices.empty
  let (body, allocator) ← assign held w.devices body allocator
  .ok ⟨body.sort, allocator⟩

def DevAllocator.bound (a : DevAllocator) : ℕ := a.next.elim (2 ^ 16) DevId.toNat

theorem DevAllocator.checkAhead_ok (a : DevAllocator) (held : BusesAndDevicesRead) :
    a.checkAhead held = .ok () ↔ ∀ was ∈ held.devices, was.dev.toNat < a.bound := by
  unfold checkAhead bound
  cases a.next with
  | none =>
    simp only [Option.elim_none, true_iff]
    exact fun was _ => was.dev.toNat_lt
  | some next => simp

theorem DevAllocator.allocate_ok {a b : DevAllocator} {dev : DevId} :
    a.allocate = .ok (dev, b) ↔ dev.toNat = a.bound ∧ b.bound = a.bound + 1 := by
  obtain ⟨next⟩ := a
  obtain ⟨next'⟩ := b
  cases next with
  | none =>
    have := dev.toNat_lt
    simp only [allocate, bound, Option.elim_none, reduceCtorEq, false_iff]
    omega
  | some given =>
    have hlt := given.toNat_lt
    have hsucc : given.raw + 1 = 0 ↔ given.toNat + 1 = 2 ^ 16 := by
      rw [← UInt16.toNat_inj, UInt16.toNat_add, UInt16.toNat_one, UInt16.toNat_zero]
      simp only [DevId.toNat] at hlt ⊢
      omega
    have hnat : given.raw + 1 ≠ 0 → (given.raw + 1).toNat = given.toNat + 1 := by
      intro h
      rw [UInt16.toNat_add, UInt16.toNat_one]
      rw [ne_eq, hsucc] at h
      simp only [DevId.toNat] at hlt h ⊢
      omega
    simp only [allocate, bound, Option.elim_some, Except.ok.injEq, Prod.mk.injEq,
      DevAllocator.mk.injEq, DevId.toNat_inj, eq_comm (a := dev)]
    refine and_congr_right fun _ => ?_
    cases next' with
    | none =>
      simp only [Option.elim_none]
      split_ifs with h
      · simp [← hsucc.mp h]
      · simp only [false_iff]
        exact fun heq => h (hsucc.mpr heq.symm)
    | some next' =>
      simp only [Option.elim_some]
      have hlt' := next'.toNat_lt
      split_ifs with h
      · simp only [false_iff]
        have := hsucc.mp h
        omega
      · rw [Option.some.injEq, ← DevId.toNat_inj, DevId.toNat, hnat h, eq_comm]

/-- The entries with their ids: an edit keeps the one it names, each other takes the next. -/
inductive Assigned (held : BusesAndDevicesRead) : DevAllocator →
    List (DeviceEntry (Option DevId)) → List (DeviceEntry DevId) → DevAllocator → Prop
  | nil (a : DevAllocator) : Assigned held a [] [] a
  | edit {a b : DevAllocator} {w : DeviceEntry (Option DevId)} {dev : DevId}
      {was : DeviceEntry DevId} {ws : List (DeviceEntry (Option DevId))}
      {ds : List (DeviceEntry DevId)} (names : w.dev = some dev)
      (found : held.devices.find? (·.dev = dev) = some was) (product : was.product = w.product)
      (dialect : was.dialect = w.dialect) (rest : Assigned held a ws ds b) :
      Assigned held a (w :: ws) (w.withDev dev :: ds) b
  | add {a b c : DevAllocator} {w : DeviceEntry (Option DevId)} {dev : DevId}
      {ws : List (DeviceEntry (Option DevId))} {ds : List (DeviceEntry DevId)}
      (names : w.dev = none) (given : a.allocate = .ok (dev, b)) (rest : Assigned held b ws ds c) :
      Assigned held a (w :: ws) (w.withDev dev :: ds) c

theorem Assigned.length {held : BusesAndDevicesRead} {a b : DevAllocator}
    {ws : List (DeviceEntry (Option DevId))} {ds : List (DeviceEntry DevId)}
    (h : Assigned held a ws ds b) : ds.length = ws.length := by
  induction h with
  | nil => rfl
  | edit _ _ _ _ _ ih | add _ _ _ ih => simp [ih]

theorem assignDev_ok {held : BusesAndDevicesRead} {a b : DevAllocator}
    {w : DeviceEntry (Option DevId)} {dev : DevId} :
    assignDev held a w = .ok (dev, b) ↔
      (w.dev = none ∧ a.allocate = .ok (dev, b)) ∨
        (w.dev = some dev ∧ a = b ∧ ∃ was, held.devices.find? (·.dev = dev) = some was ∧
          was.product = w.product ∧ was.dialect = w.dialect) := by
  unfold assignDev
  cases hw : w.dev with
  | none => simp
  | some named =>
    simp only [reduceCtorEq, false_and, false_or, Option.some.injEq]
    cases hf : held.devices.find? (·.dev = named) with
    | none =>
      simp only [reduceCtorEq, false_iff, not_and, not_exists]
      rintro rfl - was hwas
      rw [hf] at hwas
      cases hwas
    | some was =>
      constructor
      · intro h
        dsimp only at h
        split_ifs at h with hchanged
        · obtain ⟨rfl, rfl⟩ := Prod.mk.inj (Except.ok.inj h)
          simp only [ne_eq, not_or, not_not] at hchanged
          exact ⟨rfl, rfl, was, hf, hchanged⟩
      · rintro ⟨rfl, rfl, was', hf', hproduct, hdialect⟩
        obtain rfl := Option.some.inj (hf.symm.trans hf')
        simp [hproduct, hdialect]

theorem BusesAndDevices.pushDevice_ok {δ : Type} {s t : BusesAndDevices δ} {d : DeviceEntry δ} :
    s.pushDevice d = .ok t ↔ t.buses = s.buses ∧ t.devices = s.devices ++ [d] := by
  have hle := t.devices_le
  unfold pushDevice
  split_ifs with h
  · constructor
    · rintro ⟨⟩
      exact ⟨rfl, rfl⟩
    · rintro ⟨hb, hd⟩
      obtain ⟨buses, devices, _, _⟩ := t
      simp only at hb hd
      subst hb hd
      rfl
  · simp only [false_iff, not_and]
    rintro - hd
    rw [hd, List.length_append, List.length_singleton] at hle
    omega

theorem BusesAndDevices.pushBus_ok {δ : Type} {s t : BusesAndDevices δ} {b : BusEntry} :
    s.pushBus b = .ok t ↔ t.buses = s.buses ++ [b] ∧ t.devices = s.devices := by
  have hle := t.buses_le
  unfold pushBus
  split_ifs with h
  · constructor
    · rintro ⟨⟩
      exact ⟨rfl, rfl⟩
    · rintro ⟨hb, hd⟩
      obtain ⟨buses, devices, _, _⟩ := t
      simp only at hb hd
      subst hb hd
      rfl
  · simp only [false_iff, not_and]
    rintro hb
    rw [hb, List.length_append, List.length_singleton] at hle
    omega

theorem pushBuses_ok {δ : Type} {s t : BusesAndDevices δ} {bs : List BusEntry} :
    bs.foldlM BusesAndDevices.pushBus s = .ok t ↔
      t.buses = s.buses ++ bs ∧ t.devices = s.devices := by
  induction bs generalizing s with
  | nil =>
    obtain ⟨buses, devices, _, _⟩ := t
    obtain ⟨buses', devices', _, _⟩ := s
    simp [pure, Except.pure, eq_comm]
  | cons b bs ih =>
    rw [List.foldlM_cons, bind_ok]
    simp only [BusesAndDevices.pushBus_ok, ih]
    constructor
    · rintro ⟨u, ⟨hb, hd⟩, hb', hd'⟩
      simp [hb', hb, hd', hd]
    · rintro ⟨hb, hd⟩
      have hle := t.buses_le
      rw [hb, List.length_append, List.length_cons] at hle
      have hdle := t.devices_le
      refine ⟨⟨s.buses ++ [b], t.devices, ?_, hdle⟩, ⟨rfl, hd⟩, by simp [hb], rfl⟩
      rw [List.length_append, List.length_singleton]
      omega

theorem assign_ok {held s t : BusesAndDevicesRead} {ws : List (DeviceEntry (Option DevId))}
    {a b : DevAllocator} : assign held ws s a = .ok (t, b) ↔
      ∃ ds, Assigned held a ws ds b ∧ t.buses = s.buses ∧ t.devices = s.devices ++ ds := by
  induction ws generalizing s a with
  | nil =>
    obtain ⟨buses, devices, _, _⟩ := t
    obtain ⟨buses', devices', _, _⟩ := s
    constructor
    · rintro ⟨⟩
      exact ⟨[], .nil _, rfl, by simp⟩
    · rintro ⟨ds, ⟨⟩, hb, hd⟩
      simp only at hb hd
      subst hb
      simp [assign, hd]
  | cons w ws ih =>
    rw [assign, bind_ok]
    simp only [Prod.exists, bind_ok, BusesAndDevices.pushDevice_ok, ih, assignDev_ok]
    constructor
    · rintro ⟨dev, c, hdev, u, ⟨hb, hd⟩, ds, hds, hb', hd'⟩
      refine ⟨w.withDev dev :: ds, ?_, hb'.trans hb, by simp [hd', hd]⟩
      rcases hdev with ⟨hnone, hgiven⟩ | ⟨hsome, rfl, was, hfound, hproduct, hdialect⟩
      · exact .add hnone hgiven hds
      · exact .edit hsome hfound hproduct hdialect hds
    · rintro ⟨ds, hds, hb, hd⟩
      have hle := t.devices_le
      have hroom (dev : DevId) (rest : List (DeviceEntry DevId)) (h : ds = w.withDev dev :: rest) :
          (s.devices ++ [w.withDev dev]).length ≤ maxConfigDevices := by
        rw [hd, h, List.length_append, List.length_cons] at hle
        rw [List.length_append, List.length_singleton]
        omega
      cases hds with
      | edit names found product dialect rest =>
        exact ⟨_, _, .inr ⟨names, rfl, _, found, product, dialect⟩,
          ⟨s.buses, _, s.buses_le, hroom _ _ rfl⟩, ⟨rfl, rfl⟩, _, rest, hb, by simp [hd]⟩
      | add names given rest =>
        exact ⟨_, _, .inl ⟨names, given⟩,
          ⟨s.buses, _, s.buses_le, hroom _ _ rfl⟩, ⟨rfl, rfl⟩, _, rest, hb, by simp [hd]⟩

theorem BusesAndDevicesWrite.accept_ok {w : BusesAndDevicesWrite} {rules : SiteRules}
    {held : BusesAndDevicesRead} {allocator : DevAllocator} {a : Accepted} :
    w.accept rules held allocator = .ok a ↔
      Legal rules w ∧ (∀ was ∈ held.devices, was.dev.toNat < allocator.bound) ∧
        ∃ ds, Assigned held allocator w.devices ds a.allocator ∧
          a.body.buses = w.buses.insertionSort (fun a b => a.bus ≤ b.bus) ∧
          a.body.devices = ds.insertionSort fun a b => a.dev.toNat ≤ b.dev.toNat := by
  unfold accept
  rw [seq_ok, seq_ok, BusesAndDevices.check_ok, DevAllocator.checkAhead_ok]
  simp only [bind_ok, Prod.exists, pushBuses_ok, assign_ok]
  refine and_congr_right fun _ => and_congr_right fun _ => ?_
  constructor
  · rintro ⟨s, ⟨hb, hd⟩, t, b, ⟨ds, hds, hb', hd'⟩, ⟨⟩⟩
    exact ⟨ds, hds, congrArg _ (hb'.trans hb), congrArg _ (hd'.trans (by rw [hd]; rfl))⟩
  · rintro ⟨ds, hds, hb, hd⟩
    have hlen : ds.length ≤ maxConfigDevices := hds.length.trans_le w.devices_le
    refine ⟨⟨w.buses, [], w.buses_le, Nat.zero_le _⟩, ⟨rfl, rfl⟩,
      ⟨w.buses, ds, w.buses_le, hlen⟩, a.allocator, ⟨ds, hds, rfl, rfl⟩, ?_⟩
    obtain ⟨⟨buses, devices, _, _⟩, allocator'⟩ := a
    simp only at hb hd
    subst hb hd
    rfl

end Km43.Devices
