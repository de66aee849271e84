import Km43.Library.Machine
import Km43.Devices.Accept

namespace Km43.Devices

open Library

namespace Assigned

variable {held : BusesAndDevicesRead} {a b : DevAllocator} {ws : List (DeviceEntry (Option DevId))}
  {ds : List (DeviceEntry DevId)}

theorem bound_le (h : Assigned held a ws ds b) : a.bound ≤ b.bound := by
  induction h with
  | nil => exact le_rfl
  | edit _ _ _ _ _ ih => exact ih
  | add _ given _ ih =>
    have := (DevAllocator.allocate_ok.mp given).2
    omega

theorem mem (h : Assigned held a ws ds b) {d : DeviceEntry DevId} (hd : d ∈ ds) :
    ∃ w ∈ ws, d = w.withDev d.dev ∧
      ((w.dev = some d.dev ∧ ∃ was ∈ held.devices, was.dev = d.dev ∧ was.product = d.product ∧
          was.dialect = d.dialect) ∨
        (w.dev = none ∧ a.bound ≤ d.dev.toNat ∧ d.dev.toNat < b.bound)) := by
  induction h with
  | nil => cases hd
  | edit names found product dialect rest ih =>
    rcases List.mem_cons.mp hd with rfl | hd
    · have hdev := List.find?_some found
      exact ⟨_, List.mem_cons_self .., rfl, .inl ⟨names, _, List.mem_of_find?_eq_some found,
        by simpa using hdev, product, dialect⟩⟩
    · obtain ⟨w, hw, hrest⟩ := ih hd
      exact ⟨w, List.mem_cons_of_mem _ hw, hrest⟩
  | add names given rest ih =>
    obtain ⟨hdev, hbound⟩ := DevAllocator.allocate_ok.mp given
    have hle := rest.bound_le
    rcases List.mem_cons.mp hd with rfl | hd
    · refine ⟨_, List.mem_cons_self .., rfl, .inr ⟨names, hdev.ge, ?_⟩⟩
      rw [DeviceEntry.withDev_dev, hdev]
      omega
    · obtain ⟨w, hw, heq, hedit | ⟨hnone, hlow, hhigh⟩⟩ := ih hd
      · exact ⟨w, List.mem_cons_of_mem _ hw, heq, .inl hedit⟩
      · exact ⟨w, List.mem_cons_of_mem _ hw, heq, .inr ⟨hnone, by omega, hhigh⟩⟩

theorem distinct (h : Assigned held a ws ds b) (hws : ws.Pairwise Apart)
    (hahead : ∀ was ∈ held.devices, was.dev.toNat < a.bound) : (ds.map (·.dev)).Nodup := by
  induction h with
  | nil => exact .nil
  | @edit a b w dev was ws ds names found product dialect rest ih =>
    obtain ⟨happart, hws⟩ := List.pairwise_cons.mp hws
    rw [List.map_cons, List.nodup_cons]
    refine ⟨fun hmem => ?_, ih hws hahead⟩
    obtain ⟨e, he, heq⟩ := List.mem_map.mp hmem
    rw [DeviceEntry.withDev_dev] at heq
    obtain ⟨w', hw', -, ⟨hlisted, -⟩ | ⟨-, hlow, -⟩⟩ := rest.mem he
    · exact (happart w' hw').2 dev names (hlisted.trans (congrArg some heq))
    · have hheld := hahead was (List.mem_of_find?_eq_some found)
      have hdev : was.dev = dev := by simpa using List.find?_some found
      rw [hdev] at hheld
      rw [heq] at hlow
      omega
  | @add a b c w dev ws ds names given rest ih =>
    obtain ⟨hdev, hbound⟩ := DevAllocator.allocate_ok.mp given
    rw [List.map_cons, List.nodup_cons]
    refine ⟨fun hmem => ?_,
      ih (List.pairwise_cons.mp hws).2 fun was hwas => (hahead was hwas).trans (by omega)⟩
    obtain ⟨e, he, heq⟩ := List.mem_map.mp hmem
    rw [DeviceEntry.withDev_dev] at heq
    obtain ⟨w', hw', -, ⟨-, was, hwas, hold, -⟩ | ⟨-, hlow, -⟩⟩ := rest.mem he
    · have hheld := hahead was hwas
      rw [hold, heq] at hheld
      omega
    · rw [heq] at hlow
      omega

theorem names_held (h : Assigned held a ws ds b) {w : DeviceEntry (Option DevId)} (hw : w ∈ ws)
    {dev : DevId} (hdev : w.dev = some dev) : ∃ was ∈ held.devices, was.dev = dev := by
  induction h with
  | nil => cases hw
  | edit names found product dialect rest ih =>
    rcases List.mem_cons.mp hw with rfl | hw
    · obtain rfl := Option.some.inj (names.symm.trans hdev)
      exact ⟨_, List.mem_of_find?_eq_some found, by simpa using List.find?_some found⟩
    · exact ih hw
  | add names given rest ih =>
    rcases List.mem_cons.mp hw with rfl | hw
    · rw [names] at hdev
      cases hdev
    · exact ih hw

theorem unlisted (h : Assigned held a ws ds b) (listed : List (Option DevId))
    (hws : ∀ w ∈ ws, w.dev ≠ none → w.dev ∈ listed)
    (hlisted : ∀ dev, some dev ∈ listed → dev.toNat < a.bound) :
    ((ds.map (·.dev)).filter fun dev => some dev ∉ listed).map DevId.toNat =
      List.range' a.bound (b.bound - a.bound) ∧ b.bound - a.bound = ws.countP (·.dev.isNone) := by
  induction h with
  | nil => simp
  | edit names found product dialect rest ih =>
    obtain ⟨hrange, hcount⟩ := ih (fun w hw => hws w (List.mem_cons_of_mem _ hw)) hlisted
    have hin := hws _ (List.mem_cons_self ..) (by simp [names])
    rw [names] at hin
    rw [List.map_cons, List.filter_cons_of_neg (by simp [hin]),
      List.countP_cons_of_neg (by simp [names])]
    exact ⟨hrange, hcount⟩
  | @add a b c w dev ws ds names given rest ih =>
    obtain ⟨hdev, hbound⟩ := DevAllocator.allocate_ok.mp given
    have hle := rest.bound_le
    obtain ⟨hrange, hcount⟩ := ih (fun w hw => hws w (List.mem_cons_of_mem _ hw))
      fun dev hd => (hlisted dev hd).trans (by omega)
    have hout : some dev ∉ listed := fun hin => by
      have := hlisted dev hin
      omega
    have hsucc : c.bound - a.bound = c.bound - b.bound + 1 := by omega
    rw [List.map_cons, List.filter_cons_of_pos (by simp [hout]),
      List.countP_cons_of_pos (by simp [names]), hsucc, List.range'_succ, ← hbound, ← hcount]
    exact ⟨by rw [List.map_cons, DeviceEntry.withDev_dev, hdev, hrange], rfl⟩

end Assigned

structure Store where
  held : BusesAndDevicesRead
  allocator : DevAllocator

/-- The ids of an accepted section that its write did not list: those of the devices it added. -/
def BusesAndDevicesWrite.given (w : BusesAndDevicesWrite) (a : Accepted) : List DevId :=
  (a.body.devices.map (·.dev)).filter fun dev => some dev ∉ w.devices.map (·.dev)

namespace Store

def first : Store := ⟨.empty, .first⟩

def write : Machine Store (BusesAndDevicesWrite × SiteRules) (Except ConfigError (List DevId)) :=
  fun s (w, rules) =>
    match w.accept rules s.held s.allocator with
    | .error why => (s, .error why)
    | .ok a => (⟨a.body, a.allocator⟩, .ok (w.given a))

def ids : Except ConfigError (List DevId) → List ℕ
  | .error _ => []
  | .ok given => given.map DevId.toNat

theorem write_refused {s : Store} {w : BusesAndDevicesWrite} {rules : SiteRules} {why : ConfigError}
    (h : w.accept rules s.held s.allocator = .error why) :
    write s (w, rules) = (s, .error why) := by simp only [write, h]

theorem write_accepted {s : Store} {w : BusesAndDevicesWrite} {rules : SiteRules} {a : Accepted}
    (h : w.accept rules s.held s.allocator = .ok a) :
    write s (w, rules) = (⟨a.body, a.allocator⟩, .ok (w.given a)) := by simp only [write, h]

end Store

theorem BusesAndDevicesWrite.given_eq {w : BusesAndDevicesWrite} {rules : SiteRules}
    {held : BusesAndDevicesRead} {allocator : DevAllocator} {a : Accepted}
    (h : w.accept rules held allocator = .ok a) :
    (w.given a).map DevId.toNat =
        List.range' allocator.bound (a.allocator.bound - allocator.bound) ∧
      a.allocator.bound - allocator.bound = w.devices.countP (·.dev.isNone) := by
  obtain ⟨-, hahead, ds, hds, -, hdevices⟩ := accept_ok.mp h
  have hlisted : ∀ dev, some dev ∈ w.devices.map (·.dev) → dev.toNat < allocator.bound := by
    intro dev hdev
    obtain ⟨entry, hentry, hnames⟩ := List.mem_map.mp hdev
    obtain ⟨was, hwas, rfl⟩ := hds.names_held hentry hnames
    exact hahead was hwas
  obtain ⟨hrange, hcount⟩ := hds.unlisted (w.devices.map (·.dev))
    (fun entry hentry _ => List.mem_map_of_mem hentry) hlisted
  refine ⟨?_, hcount⟩
  have hperm : ((w.given a).map DevId.toNat).Perm
      (List.range' allocator.bound (a.allocator.bound - allocator.bound)) := by
    rw [← hrange, given, hdevices]
    exact (((List.perm_insertionSort _ ds).map _).filter _).map _
  have hsorted : ((w.given a).map DevId.toNat).Pairwise (· ≤ ·) := by
    rw [given, hdevices, List.pairwise_map]
    refine List.Pairwise.filter _ (List.pairwise_map.mpr ?_)
    exact List.pairwise_insertionSort (fun a b : DeviceEntry DevId => a.dev.toNat ≤ b.dev.toNat) ds
  exact hperm.eq_of_pairwise (fun _ _ _ _ => le_antisymm) hsorted List.pairwise_le_range'

theorem DevAllocator.bound_le (a : DevAllocator) : a.bound ≤ 2 ^ 16 := by
  unfold bound
  cases a.next with
  | none => exact le_rfl
  | some next => exact next.toNat_lt.le

namespace Store

theorem counts : Machine.Counts write (·.allocator.bound) ids := by
  refine ⟨fun s i => ?_, fun s i => ?_⟩ <;> obtain ⟨w, rules⟩ := i <;>
    cases h : w.accept rules s.held s.allocator with
    | error why => simp [write_refused h, ids]
    | ok a =>
      simp only [write_accepted h, ids]
      obtain ⟨-, -, ds, hds, -⟩ := BusesAndDevicesWrite.accept_ok.mp h
      first
        | exact hds.bound_le
        | rw [(BusesAndDevicesWrite.given_eq h).1]

theorem write_mem {s : Store} {i : BusesAndDevicesWrite × SiteRules} {d : DeviceEntry DevId}
    (hd : d ∈ (write s i).1.held.devices) :
    (∃ was ∈ s.held.devices, was.dev = d.dev ∧ was.product = d.product ∧ was.dialect = d.dialect) ∨
      (s.allocator.bound ≤ d.dev.toNat ∧ d.dev.toNat < (write s i).1.allocator.bound) := by
  obtain ⟨w, rules⟩ := i
  cases h : w.accept rules s.held s.allocator with
  | error why =>
    rw [write_refused h] at hd
    exact .inl ⟨d, hd, rfl, rfl, rfl⟩
  | ok a =>
    rw [write_accepted h] at hd ⊢
    obtain ⟨-, -, ds, hds, -, hdevices⟩ := BusesAndDevicesWrite.accept_ok.mp h
    rw [hdevices, List.mem_insertionSort] at hd
    obtain ⟨-, -, -, ⟨-, hwas⟩ | ⟨-, hnew⟩⟩ := hds.mem hd
    · exact .inl hwas
    · exact .inr hnew

structure Sound (s : Store) : Prop where
  below : ∀ d ∈ s.held.devices, d.dev.toNat < s.allocator.bound
  distinct : (s.held.devices.map (·.dev)).Nodup

theorem write_sound (s : Store) (i : BusesAndDevicesWrite × SiteRules) (hs : s.Sound) :
    (write s i).1.Sound := by
  refine ⟨fun d hd => ?_, ?_⟩
  · rcases write_mem hd with ⟨was, hwas, hdev, -⟩ | ⟨-, hnew⟩
    · rw [← hdev]
      exact (hs.below was hwas).trans_le (counts.le s i)
    · exact hnew
  · obtain ⟨w, rules⟩ := i
    cases h : w.accept rules s.held s.allocator with
    | error why =>
      rw [write_refused h]
      exact hs.distinct
    | ok a =>
      obtain ⟨hlegal, hahead, ds, hds, -, hdevices⟩ := BusesAndDevicesWrite.accept_ok.mp h
      rw [write_accepted h]
      simp only [hdevices]
      exact ((List.perm_insertionSort _ ds).map _).nodup_iff.mpr
        (hds.distinct hlegal.devices_apart hahead)

theorem final_sound (writes : List (BusesAndDevicesWrite × SiteRules)) :
    (write.final first writes).Sound :=
  Machine.final_invariant (fun s i hs _ => write_sound s i hs) ⟨by simp [first, BusesAndDevices.empty], .nil⟩
    fun i (_ : i ∈ writes) => trivial

theorem final_mem (s : Store) (writes : List (BusesAndDevicesWrite × SiteRules))
    {d : DeviceEntry DevId} (hd : d ∈ (write.final s writes).held.devices)
    (hold : d.dev.toNat < s.allocator.bound) :
    ∃ was ∈ s.held.devices, was.dev = d.dev ∧ was.product = d.product ∧ was.dialect = d.dialect := by
  induction writes using List.reverseRecOn generalizing d with
  | nil => exact ⟨d, hd, rfl, rfl, rfl⟩
  | append_singleton writes i ih =>
    rw [Machine.final_append] at hd
    rcases write_mem hd with ⟨was, hwas, hdev, hproduct, hdialect⟩ | ⟨hnew, -⟩
    · obtain ⟨was', hwas', hdev', hproduct', hdialect'⟩ := ih hwas (hdev ▸ hold)
      exact ⟨was', hwas', hdev'.trans hdev, hproduct'.trans hproduct, hdialect'.trans hdialect⟩
    · have := counts.final_le s writes
      omega

theorem ids_given_once (writes : List (BusesAndDevicesWrite × SiteRules)) :
    let s := write.final first writes
    let given := (write.outputs first writes).flatMap ids
    given.Pairwise (· < ·) ∧
    (∀ d ∈ s.held.devices, ∀ next, s.allocator.next = some next → d.dev.toNat < next.toNat) ∧
    (∀ later, ∀ d ∈ s.held.devices, ∀ d' ∈ (write.final s later).held.devices, d'.dev = d.dev →
      d'.product = d.product ∧ d'.dialect = d.dialect) ∧
    ∀ w rules,
      (0xFFFF ∈ given → (∃ d ∈ w.devices, d.dev = none) →
        ∃ why, w.accept rules s.held s.allocator = .error why) ∧
      (∀ why, w.accept rules s.held s.allocator = .error why →
        write s (w, rules) = (s, .error why)) ∧
      ∀ a, w.accept rules s.held s.allocator = .ok a →
        (w.given a).length = w.devices.countP (·.dev.isNone) := by
  intro s given
  have hs : s.Sound := final_sound writes
  refine ⟨counts.ascends first writes, fun d hd next hnext => ?_, fun later d hd d' hd' hdev => ?_,
    fun w rules => ⟨fun hlast hadds => ?_, fun why => write_refused, fun a ha => ?_⟩⟩
  · simpa [DevAllocator.bound, hnext] using hs.below d hd
  · obtain ⟨was, hwas, hsame, hproduct, hdialect⟩ :=
      final_mem s later hd' (hdev ▸ hs.below d hd)
    have heq : was = d := List.inj_on_of_nodup_map hs.distinct hwas hd (hsame.trans hdev)
    exact ⟨heq ▸ hproduct.symm, heq ▸ hdialect.symm⟩
  · cases h : w.accept rules s.held s.allocator with
    | error why => exact ⟨why, rfl⟩
    | ok a =>
      obtain ⟨d, hd, hnone⟩ := hadds
      have hspent := (counts.mem hlast).2
      have hmax := a.allocator.bound_le
      have hcount := (BusesAndDevicesWrite.given_eq h).2
      have hpos : 0 < w.devices.countP (·.dev.isNone) :=
        List.countP_pos_iff.mpr ⟨d, hd, by simp [hnone]⟩
      change 0xFFFF < s.allocator.bound at hspent
      omega
  · obtain ⟨hids, hcount⟩ := BusesAndDevicesWrite.given_eq ha
    rw [← hcount, ← List.length_map DevId.toNat, hids, List.length_range']

end Store

end Km43.Devices
