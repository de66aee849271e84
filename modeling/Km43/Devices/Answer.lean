import Km43.Devices.Classes
import Km43.Devices.Ids

namespace Km43.Devices

open Library Cbor

section

variable {δ ε : Type} [DevSlot δ] [DevSlot ε] {rules : SiteRules} {s : BusesAndDevices ε} {t : BusesAndDevices δ}

theorem SiteRule.renamed (back : DeviceEntry δ → DeviceEntry ε) (hfields : ∀ d, back d = d.withDev (back d).dev)
    (hbuses : t.buses = s.buses) (hdevices : s.devices = t.devices.map back)
    (hkeeps : ∀ d ∈ t.devices, ∀ dev, (back d).devId = some dev → d.devId = some dev)
    (honce : t.devices.Pairwise fun a b => ∀ dev, a.devId = some dev → b.devId ≠ some dev)
    (h : SiteRule rules s) : SiteRule rules t := by
  have hmem : ∀ d ∈ t.devices, back d ∈ s.devices := by
    intro d hd
    rw [hdevices]
    exact List.mem_map_of_mem hd
  have hbus : ∀ d, (back d).bus = d.bus := fun d => by rw [hfields d, DeviceEntry.withDev_bus]
  have haddr : ∀ d, (back d).addr = d.addr := fun d => by rw [hfields d, DeviceEntry.withDev_addr]
  have hdialect : ∀ d, (back d).dialect = d.dialect := fun d => by rw [hfields d, DeviceEntry.withDev_dialect]
  have hparent : ∀ d, (back d).parent = d.parent := fun d => by rw [hfields d, DeviceEntry.withDev_parent]
  have hoptions : ∀ d, (back d).options = d.options := fun d => by rw [hfields d, DeviceEntry.withDev_options]
  have hlisted : ∀ d ∈ t.devices, ∀ dev, d.parent = some dev →
      ∃ e ∈ t.devices, e.devId = some dev ∧ (back e).devId = some dev := by
    intro d hd dev hdev
    obtain ⟨x, hx, hkey⟩ := h.parents_listed (back d) (hmem d hd) dev ((hparent d).trans hdev)
    rw [hdevices] at hx
    obtain ⟨e, he, rfl⟩ := List.mem_map.mp hx
    exact ⟨e, he, hkeeps e he dev hkey, hkey⟩
  have habove : ∀ a ∈ t.devices, ∀ b, (ancestry t.devices).Above a b → (ancestry s.devices).Above (back a) (back b) := by
    rintro a ha b ⟨hb, dev, hdev, hkey⟩
    obtain ⟨e, he, hkey', hback⟩ := hlisted a ha dev hdev
    obtain rfl : e = b := Ancestry.KeysApart.same (t := ancestry t.devices) honce he hb hkey' hkey
    exact ⟨hmem _ hb, dev, (hparent a).trans hdev, hback⟩
  constructor
  case buses_once =>
    rw [hbuses]
    exact h.buses_once
  case buses_fit =>
    rw [hbuses]
    exact h.buses_fit
  case few =>
    have hfew := h.few
    rw [hdevices, List.length_map] at hfew
    exact hfew
  case placed =>
    intro d hd
    have hplaced := h.placed (back d) (hmem d hd)
    rw [hbus, haddr, hdialect, hoptions] at hplaced
    exact hplaced
  case addrs_once =>
    have haddrs := h.addrs_once
    rw [hdevices, List.pairwise_map] at haddrs
    apply haddrs.imp
    intro a b hab
    rw [hbus, hbus, haddr, haddr] at hab
    exact hab
  case devs_once => exact honce
  case parents_listed =>
    intro d hd dev hdev
    obtain ⟨e, he, hkey, -⟩ := hlisted d hd dev hdev
    exact ⟨e, he, hkey⟩
  case no_return =>
    intro d hd hloop
    have hlift : ∀ b, Relation.TransGen (ancestry t.devices).Above d b →
        b ∈ t.devices ∧ Relation.TransGen (ancestry s.devices).Above (back d) (back b) := by
      intro b hb
      induction hb with
      | single hab => exact ⟨hab.1, .single (habove d hd _ hab)⟩
      | tail _ hbc ih => exact ⟨hbc.1, ih.2.tail (habove _ ih.1 _ hbc)⟩
    exact h.no_return (back d) (hmem d hd) (hlift d hloop).2
  case shallow =>
    intro chain hchain hlinks
    have hback : (chain.map back).IsChain (ancestry s.devices).Above := by
      rw [List.isChain_map]
      apply List.IsChain.imp_of_mem_imp _ hlinks
      intro a b ha _ hab
      exact habove a (hchain a ha) b hab
    have hlen := h.shallow (chain.map back) (List.forall_mem_map.mpr fun d hd => hmem d (hchain d hd)) hback
    rw [List.length_map] at hlen
    exact hlen

end

namespace Assigned

variable {held : BusesAndDevicesRead} {a b : DevAllocator} {ws : List (DeviceEntry (Option DevId))}
  {ds : List (DeviceEntry DevId)}

def written (bound : ℕ) (d : DeviceEntry DevId) : DeviceEntry (Option DevId) :=
  d.withDev (if d.dev.toNat < bound then some d.dev else none)

theorem written_entries (h : Assigned held a ws ds b) {bound : ℕ} (hbound : bound ≤ a.bound)
    (hheld : ∀ was ∈ held.devices, was.dev.toNat < bound) : ws = ds.map (written bound) := by
  induction h with
  | nil => rfl
  | @edit a b w dev was ws ds names found product dialect rest ih =>
    have hdev : was.dev = dev := by simpa using List.find?_some found
    have hold : dev.toNat < bound := by
      rw [← hdev]
      exact hheld was (List.mem_of_find?_eq_some found)
    rw [List.map_cons, ← ih hbound, written, DeviceEntry.withDev_dev, if_pos hold, ← names]
    rfl
  | @add a b c w dev ws ds names given rest ih =>
    obtain ⟨hdev, hnext⟩ := DevAllocator.allocate_ok.mp given
    have hnew : ¬dev.toNat < bound := by omega
    rw [List.map_cons, ← ih (by omega), written, DeviceEntry.withDev_dev, if_neg hnew, ← names]
    rfl

end Assigned

/-- What an answer makes of a write's entry: its fields, under the id it names or one not given before. -/
structure EntryOf (before after : DevAllocator) (w : DeviceEntry (Option DevId)) (d : DeviceEntry DevId) : Prop where
  fields : d = w.withDev d.dev
  id : w.dev = some d.dev ∨ w.dev = none ∧ before.bound ≤ d.dev.toNat ∧ d.dev.toNat < after.bound

theorem Assigned.entries {held : BusesAndDevicesRead} {a b : DevAllocator} {ws : List (DeviceEntry (Option DevId))}
    {ds : List (DeviceEntry DevId)} (h : Assigned held a ws ds b) {before : DevAllocator} (hbefore : before.bound ≤ a.bound) :
    List.Forall₂ (EntryOf before b) ws ds := by
  induction h with
  | nil => exact .nil
  | edit names found product dialect rest ih => exact .cons ⟨rfl, .inl names⟩ (ih hbefore)
  | add names given rest ih =>
    obtain ⟨hdev, hnext⟩ := DevAllocator.allocate_ok.mp given
    have hle := rest.bound_le
    refine .cons ⟨rfl, .inr ⟨names, ?_, ?_⟩⟩ (ih (by omega)) <;> rw [DeviceEntry.withDev_dev] <;> omega

def BusesAndDevicesRead.asWrite (s : BusesAndDevicesRead) : BusesAndDevicesWrite where
  buses := s.buses
  devices := s.devices.map fun d => d.withDev (some d.dev)
  buses_le := s.buses_le
  devices_le := by
    rw [List.length_map]
    exact s.devices_le

theorem BusesAndDevicesRead.asWrite_body (s : BusesAndDevicesRead) : s.asWrite.body = s.body := by
  simp only [BusesAndDevices.body, asWrite, List.map_map]
  rfl

theorem rises_pairwise {α : Type} {rank : α → ℕ} {xs : List α} (h : xs.Pairwise fun a b => rank a < rank b) :
    BusesAndDevices.rises rank xs = true := by
  induction xs with
  | nil => rfl
  | cons x xs ih =>
    obtain ⟨hx, hxs⟩ := List.pairwise_cons.mp h
    cases xs with
    | nil => rfl
    | cons y ys =>
      have hy := hx y (List.mem_cons_self ..)
      have hrest := ih hxs
      unfold BusesAndDevices.rises at hrest ⊢
      simp only [Bool.not_eq_true', List.any_eq_false] at hrest ⊢
      intro p hp
      rcases List.mem_cons.mp hp with rfl | hp
      · simpa using hy
      · exact hrest p hp

theorem BusesAndDevices.ascending_ok {s : BusesAndDevicesRead}
    (hbuses : s.buses.Pairwise fun x y => x.bus.toNat < y.bus.toNat)
    (hdevices : s.devices.Pairwise fun x y => x.dev.toNat < y.dev.toNat) : s.ascending = .ok () := by
  have hb : rises (·.bus.toNat) s.buses = true := rises_pairwise hbuses
  have hd : rises devRank s.devices = true := rises_pairwise hdevices
  unfold ascending
  rw [if_neg (by simp [DevSlot.answer]), if_neg (by simp [hb]), if_neg (by simp [hd])]

theorem sort_ascends {α : Type} (rank : α → ℕ) {xs : List α} (h : xs.Pairwise fun a b => rank a ≠ rank b) :
    (xs.insertionSort fun a b => rank a ≤ rank b).Pairwise fun a b => rank a < rank b := by
  have hsorted := List.pairwise_insertionSort (fun a b => rank a ≤ rank b) xs
  have hapart := h.perm (List.perm_insertionSort (fun a b => rank a ≤ rank b) xs).symm Ne.symm
  exact (hsorted.and hapart).imp fun h => lt_of_le_of_ne h.1 h.2

/-- Everything the controller needs of a section it answers a write with. -/
structure Answerable (rules : SiteRules) (before : DevAllocator) (w : BusesAndDevicesWrite) (a : Accepted) : Prop where
  checks : a.body.check rules = .ok ()
  buses_ascend : a.body.buses.Pairwise fun x y => x.bus.toNat < y.bus.toNat
  devices_ascend : a.body.devices.Pairwise fun x y => x.dev.toNat < y.dev.toNat
  buses : a.body.buses.Perm w.buses
  devices : ∃ ds, a.body.devices.Perm ds ∧ List.Forall₂ (EntryOf before a.allocator) w.devices ds
  answers : ∃ answer, a.body.encode maxBusesAndDevicesBytes = .ok answer ∧ BusesAndDevices.decode answer = .ok a.body ∧
    ∃ again, BusesAndDevices.decode answer = .ok again ∧
      BusesAndDevicesWrite.accept again rules a.body a.allocator = .ok a

namespace BusesAndDevicesWrite

variable {w : BusesAndDevicesWrite} {rules : SiteRules} {held : BusesAndDevicesRead} {allocator : DevAllocator}
  {a : Accepted}

theorem accept_rule (h : w.accept rules held allocator = .ok a) : SiteRule rules a.body := by
  obtain ⟨hlegal, hahead, ds, hds, hbuses, hdevices⟩ := accept_ok.mp h
  have hlen : ds.length ≤ maxConfigDevices := hds.length.trans_le w.devices_le
  have hdistinct := hds.distinct hlegal.devices_apart hahead
  have hrule : SiteRule rules (⟨w.buses, ds, w.buses_le, hlen⟩ : BusesAndDevicesRead) := by
    apply SiteRule.renamed (Assigned.written allocator.bound) (fun _ => rfl) rfl _ _ _ (legal_site.mp hlegal)
    · exact hds.written_entries le_rfl hahead
    · intro d _ dev hdev
      change (if d.dev.toNat < allocator.bound then some d.dev else none) = some dev at hdev
      split_ifs at hdev
      exact hdev
    · have hpair := List.pairwise_map.mp hdistinct
      apply hpair.imp
      rintro d e hne dev hd he
      exact hne (Option.some.inj (hd.trans he.symm))
  apply hrule.perm
  · rw [hbuses]
    exact (List.perm_insertionSort _ _).symm
  · rw [hdevices]
    exact (List.perm_insertionSort _ _).symm

theorem accept_ascends (h : w.accept rules held allocator = .ok a) :
    (a.body.buses.Pairwise fun x y => x.bus.toNat < y.bus.toNat) ∧
      a.body.devices.Pairwise fun x y => x.dev.toNat < y.dev.toNat := by
  obtain ⟨hlegal, hahead, ds, hds, hbuses, hdevices⟩ := accept_ok.mp h
  constructor
  · rw [hbuses]
    refine sort_ascends (fun b : BusEntry => b.bus.toNat) ?_
    apply (legal_site.mp hlegal).buses_once.imp
    intro x y hne heq
    exact hne (UInt8.toNat_inj.mp heq)
  · rw [hdevices]
    refine sort_ascends (fun d : DeviceEntry DevId => d.dev.toNat) ?_
    apply (List.pairwise_map.mp (hds.distinct hlegal.devices_apart hahead)).imp
    intro x y hne heq
    exact hne (DevId.toNat_inj.mp heq)

theorem Assigned.again {held : BusesAndDevicesRead} {b : DevAllocator} (hkeys : (ancestry held.devices).KeysApart)
    {ds : List (DeviceEntry DevId)} (hds : ∀ d ∈ ds, d ∈ held.devices) :
    Assigned held b (ds.map fun d => d.withDev (some d.dev)) ds b := by
  induction ds with
  | nil => exact .nil b
  | cons d ds ih =>
    have hfind : held.devices.find? (·.dev = d.dev) = some d := by
      have hkey := hkeys.find (hds d (List.mem_cons_self ..)) (rfl : d.devId = some d.dev)
      simpa [Ancestry.find, ancestry, DeviceEntry.devId, DevSlot.dev] using hkey
    exact .edit rfl hfind rfl rfl (ih fun e he => hds e (List.mem_cons_of_mem _ he))

theorem accept_again (h : w.accept rules held allocator = .ok a) :
    a.body.asWrite.accept rules a.body a.allocator = .ok a := by
  obtain ⟨hbuses, hdevices⟩ := accept_ascends h
  have hrule : SiteRule rules a.body.asWrite := by
    have hback : ∀ d : DeviceEntry (Option DevId), d.withDev (d.dev.getD DevId.placeholder) =
        d.withDev (d.withDev (d.dev.getD DevId.placeholder)).dev := fun _ => rfl
    apply SiteRule.renamed _ hback rfl _ _ _ (accept_rule h)
    · rw [BusesAndDevicesRead.asWrite, List.map_map]
      exact (List.map_id _).symm
    · intro d hd dev hdev
      obtain ⟨e, -, rfl⟩ := List.mem_map.mp hd
      exact hdev
    · have honce := (accept_rule h).devs_once
      rw [BusesAndDevicesRead.asWrite, List.pairwise_map]
      exact honce
  apply accept_ok.mpr
  refine ⟨legal_site.mpr hrule, ?_, a.body.devices, Assigned.again (accept_rule h).devs_once fun d hd => hd, ?_, ?_⟩
  · intro was hwas
    obtain ⟨-, hahead, ds, hds, -, hsorted⟩ := accept_ok.mp h
    rw [hsorted, List.mem_insertionSort] at hwas
    obtain ⟨-, -, -, ⟨-, old, hold, hdev, -⟩ | ⟨-, -, hlt⟩⟩ := hds.mem hwas
    · rw [← hdev]
      exact (hahead old hold).trans_le hds.bound_le
    · exact hlt
  · exact (List.Pairwise.insertionSort_eq (hbuses.imp fun h => UInt8.le_iff_toNat_le.mpr h.le)).symm
  · exact (List.Pairwise.insertionSort_eq (hdevices.imp fun h => h.le)).symm

end BusesAndDevicesWrite

/-- An accepted write leaves a section the controller can answer with, and that the client can write back. -/
theorem accepted_answers (w : BusesAndDevicesWrite) (rules : SiteRules) (held : BusesAndDevicesRead)
    (allocator : DevAllocator) (a : Accepted) (h : w.accept rules held allocator = .ok a) :
    Answerable rules allocator w a := by
  have hrule := BusesAndDevicesWrite.accept_rule h
  have hagain := BusesAndDevicesWrite.accept_again h
  obtain ⟨hbuses, hdevices⟩ := BusesAndDevicesWrite.accept_ascends h
  have hset : ∀ e ∈ a.body.buses, e.Set := by
    intro e he
    obtain ⟨transport, -, hfits⟩ := hrule.buses_fit e he
    exact hfits.sets
  obtain ⟨-, -, ds, hds, hbuses', hdevices'⟩ := BusesAndDevicesWrite.accept_ok.mp h
  refine ⟨(BusesAndDevices.check_ok _ _).mpr (legal_site.mpr hrule), hbuses, hdevices, ?_, ⟨ds, ?_, hds.entries le_rfl⟩,
    a.body.body.item.spelling, ?_, ?_, a.body.asWrite, ?_, hagain⟩
  · rw [hbuses']
    exact List.perm_insertionSort _ _
  · rw [hdevices']
    exact List.perm_insertionSort _ _
  · exact BusesAndDevices.encode_ok _ (BusesAndDevices.ascending_ok hbuses hdevices) a.body.body_length
  · exact BusesAndDevices.decode_body hset (BusesAndDevices.ascending_ok hbuses hdevices)
  · rw [← BusesAndDevicesRead.asWrite_body]
    exact BusesAndDevices.decode_body hset (if_pos (by simp [DevSlot.answer]))

theorem device_few : 1 ≤ maxConfigDevices := by decide

theorem devices_few : 2 ≤ maxConfigDevices := by decide

theorem buses_few : 2 ≤ maxConfigBuses := by decide

theorem firstDev_nonzero : (1 : UInt16) ≠ 0 := by decide

theorem secondDev_nonzero : (2 : UInt16) ≠ 0 := by decide

theorem thirdDev_nonzero : (3 : UInt16) ≠ 0 := by decide

theorem slowRate_nonzero : (9600 : UInt32) ≠ 0 := by decide

theorem meterAddr_bounded : ([0x28] : Bytes) ≠ [] ∧ ([0x28] : Bytes).length ≤ maxAddr := by decide

def firstDev : DevId := ⟨1, firstDev_nonzero⟩

def secondDev : DevId := ⟨2, secondDev_nonzero⟩

def slowBus (bus : UInt8) : BusEntry := ⟨bus, some ⟨9600, slowRate_nonzero⟩, none, none, none⟩

def boardEntry (role : UInt16) : DeviceEntry (Option DevId) := ⟨some firstDev, 1, none, 7, 3, role, none, .none⟩

def meterEntry : DeviceEntry (Option DevId) :=
  ⟨none, 2, some ⟨[0x28], meterAddr_bounded⟩, 8, 4, 2, some firstDev, .none⟩

def boardHeld : BusesAndDevicesRead := ⟨[], [(boardEntry 2).withDev firstDev], Nat.zero_le _, device_few⟩

/-- The meter is added before the board, whose role is edited, and the buses stand the higher first. -/
def meterWrite : BusesAndDevicesWrite := ⟨[slowBus 3, slowBus 2], [meterEntry, boardEntry 5], buses_few, devices_few⟩

def meterSite : SiteRules :=
  ⟨[⟨1, .internal⟩, ⟨2, .rs485⟩, ⟨3, .can⟩], [⟨3, [.internal], [], 0⟩, ⟨4, [.rs485], [], 0⟩], 16, 4⟩

def meterAccepted : Accepted :=
  ⟨⟨[slowBus 2, slowBus 3], [(boardEntry 5).withDev firstDev, meterEntry.withDev secondDev], buses_few, devices_few⟩,
    ⟨some ⟨3, thirdDev_nonzero⟩⟩⟩

theorem accepted_answers_meter : Answerable meterSite ⟨some secondDev⟩ meterWrite meterAccepted :=
  accepted_answers meterWrite meterSite boardHeld ⟨some secondDev⟩ meterAccepted (by decide)

end Km43.Devices
