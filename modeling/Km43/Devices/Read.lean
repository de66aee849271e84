import Km43.Library.Fallible
import Km43.Devices.Shape

namespace Km43.Devices

open Library Cbor CborReader

variable {d : ℕ} {δ : Type}

namespace BusSlots

theorem Known.cases {k : ℤ} (h : Known k) : k = 1 ∨ k = 2 ∨ k = 3 ∨ k = 4 ∨ k = 5 := by
  obtain ⟨hlow, hhigh⟩ := h
  omega

theorem fills : Fills take Known (fun s k => s.has k) fun _ s => s := by
  refine ⟨fun k s i s' hk h => ?_, fun k s i hk => ?_, fun _ _ _ _ _ => Iff.rfl⟩
  · rcases hk.cases with rfl | rfl | rfl | rfl | rfl
    all_goals
      simp only [take] at h
      refine slotted_fills h rfl fun v j hj => ?_
      rcases hj.cases with rfl | rfl | rfl | rfl | rfl <;> rfl
  · unfold take
    split <;> first | rfl | exact absurd (by simp [Known]) hk

theorem steps : Steps Malformed d step take Known fun _ s => s := by
  refine ⟨fun k s hk => ?_, fun k s hk => ?_⟩
  · rcases hk.cases with rfl | rfl | rfl | rfl | rfl
    · exact field_reads (.u8 malformed_cbor) _ _ _
    · exact field_reads (.u32 malformed_cbor) _ _ _
    · exact field_reads (.u8 malformed_cbor) _ _ _
    · exact field_reads (enumerated_reads _ _) _ _ _
    · exact field_reads (.u8 malformed_cbor) _ _ _
  · unfold step
    split <;> first | rfl | exact absurd (by simp [Known]) hk

theorem reads : Reads Malformed (d + 1) read ofItem := by
  refine .mapFrom malformed_cbor steps fills fun j hj => ?_
  rcases hj.cases with rfl | rfl | rfl | rfl | rfl <;> simp [has, empty]

theorem entry_malformed {s : BusSlots} {invalid : Invalid} {why : ConfigError}
    (h : s.entry invalid = .error why) : Malformed why := by
  rcases bind_error.mp h with hb | ⟨bus, -, h⟩
  · exact required_malformed hb
  · split_ifs at h
    cases h
    rfl

end BusSlots

theorem BusEntry.decode_reads (invalid : Invalid) :
    Reads Malformed (d + 1) (BusEntry.decode invalid) (BusEntry.ofItem invalid) :=
  BusSlots.reads.checked _ fun _ _ => BusSlots.entry_malformed

namespace OptionSlots

theorem Known.cases {k : ℤ} (h : Known k) : k = 1 ∨ k = 2 ∨ k = 3 ∨ k = 4 := by
  obtain ⟨hlow, hhigh⟩ := h
  omega

theorem tryFrom_unknown {k : ℤ} (h : ¬Known k) : DeviceOption.tryFrom k = none := by
  unfold Known at h
  unfold DeviceOption.tryFrom
  split_ifs <;> first | rfl | omega

def pass (number : ℤ) (s : OptionSlots) : OptionSlots :=
  { s with invalid := s.invalid.note (.unknownOption number) (unknownOption_answer number) }

theorem fills : Fills take Known (fun s k => s.has k) pass := by
  refine ⟨fun k s i s' hk h => ?_, fun k s i hk => ?_, fun k s hk j hj => ?_⟩
  · rcases hk.cases with rfl | rfl | rfl | rfl
    all_goals
      simp only [take, DeviceOption.tryFrom, OfNat.ofNat_ne_one, Int.reduceEq, if_true, if_false] at h
      refine slotted_fills h rfl fun v j hj => ?_
      rcases hj.cases with rfl | rfl | rfl | rfl <;> rfl
  · rw [take, tryFrom_unknown hk, pass]
  · rcases hj.cases with rfl | rfl | rfl | rfl <;> rfl

theorem steps : Steps Malformed d step take Known pass := by
  refine ⟨fun k s hk => ?_, fun k s hk => ?_⟩
  · rcases hk.cases with rfl | rfl | rfl | rfl
    · exact field_reads (enumerated_reads _ _) _ _ _
    · exact field_reads (enumerated_reads _ _) _ _ _
    · exact field_reads (.bool malformed_cbor) _ _ _
    · exact field_reads (.u32 malformed_cbor) _ _ _
  · rw [step, tryFrom_unknown hk]
    rfl

theorem start_malformed {invalid : Invalid} {pairs : ℕ} {why : ConfigError}
    (h : start invalid pairs = .error why) : Malformed why := by
  unfold start at h
  split_ifs at h
  cases h
  rfl

theorem reads (invalid : Invalid) : Reads Malformed (d + 1) (read invalid) (ofItem invalid) := by
  refine .map malformed_cbor steps fills (start invalid) (fun _ _ => start_malformed) fun n s h j hj => ?_
  unfold start at h
  split_ifs at h
  cases h
  rcases hj.cases with rfl | rfl | rfl | rfl <;> simp [has]

end OptionSlots

theorem DeviceOptions.decode_reads (invalid : Invalid) :
    Reads Malformed (d + 1) (DeviceOptions.decode invalid) (DeviceOptions.ofItem invalid) :=
  (OptionSlots.reads invalid).mapped _

namespace DeviceSlots

theorem Known.cases {k : ℤ} (h : Known k) :
    k = 1 ∨ k = 2 ∨ k = 3 ∨ k = 4 ∨ k = 5 ∨ k = 6 ∨ k = 7 ∨ k = 8 := by
  obtain ⟨hlow, hhigh⟩ := h
  omega

theorem fills : Fills take Known (fun s k => s.has k) fun _ s => s := by
  refine ⟨fun k s i s' hk h => ?_, fun k s i hk => ?_, fun _ _ _ _ _ => Iff.rfl⟩
  · rcases hk.cases with rfl | rfl | rfl | rfl | rfl | rfl | rfl | rfl
    case' inr.inr.inr.inr.inr.inr.inr =>
      obtain ⟨read, -, h⟩ := Option.bind_eq_some_iff.mp (by simpa only [take] using h)
    all_goals
      try simp only [take] at h
      refine slotted_fills h rfl fun v j hj => ?_
      rcases hj.cases with rfl | rfl | rfl | rfl | rfl | rfl | rfl | rfl <;> rfl
  · unfold take
    split <;> first | rfl | exact absurd (by simp [Known]) hk

theorem steps : Steps Malformed (d + 1) step take Known fun _ s => s := by
  refine ⟨fun k s hk => ?_, fun k s hk => ?_⟩
  · rcases hk.cases with rfl | rfl | rfl | rfl | rfl | rfl | rfl | rfl
    · exact field_reads (.u16 malformed_cbor) _ _ _
    · exact field_reads (.u8 malformed_cbor) _ _ _
    · exact field_reads (.bytesValue malformed_cbor) _ _ _
    · exact field_reads (.u16 malformed_cbor) _ _ _
    · exact field_reads (.u16 malformed_cbor) _ _ _
    · exact field_reads (.u16 malformed_cbor) _ _ _
    · exact field_reads (.u16 malformed_cbor) _ _ _
    · have h := (DeviceOptions.decode_reads (d := d) s.invalid).andThen
        (fun read => once s.options .options read.1)
        (fun read slot => { s with options := slot, invalid := read.2 })
        fun _ _ => once_malformed
      have hspec : take 8 s = fun i => (DeviceOptions.ofItem s.invalid i).bind fun read =>
          (once s.options .options read.1).toOption.map fun slot =>
            { s with options := slot, invalid := read.2 } := by
        funext i
        simp only [take]
        refine congrArg _ (funext fun read => ?_)
        cases hs : s.options <;> simp [slotted, once] <;> rfl
      rw [hspec]
      exact h
  · unfold step
    split <;> first | rfl | exact absurd (by simp [Known]) hk

theorem reads (invalid : Invalid) : Reads Malformed (d + 2) (read invalid) (ofItem invalid) := by
  refine .mapFrom malformed_cbor steps fills fun j hj => ?_
  rcases hj.cases with rfl | rfl | rfl | rfl | rfl | rfl | rfl | rfl <;> simp [has, empty]

end DeviceSlots

namespace DeviceSlots

variable [DevSlot δ]

theorem devSlot_malformed {dev : Option UInt16} {invalid : Invalid} {why : ConfigError}
    (h : devSlot (δ := δ) dev invalid = .error why) : Malformed why := by
  cases dev with
  | none =>
    rcases bind_error.mp h with h | ⟨slot, -, h⟩
    · exact DevSlot.fromDecoded_answer _ _ h
    · cases h
  | some raw =>
    rcases bind_error.mp h with h | ⟨slot, -, h⟩
    · exact DevSlot.fromDecoded_answer _ _ h
    · cases h

theorem entry_malformed {s : DeviceSlots} {why : ConfigError}
    (h : s.entry (δ := δ) = .error why) : Malformed why := by
  rcases bind_error.mp h with h | ⟨product, -, h⟩
  · exact required_malformed h
  rcases bind_error.mp h with h | ⟨dialect, -, h⟩
  · exact required_malformed h
  rcases bind_error.mp h with h | ⟨role, -, h⟩
  · exact required_malformed h
  rcases bind_error.mp h with h | ⟨bus, -, h⟩
  · exact required_malformed h
  rcases bind_error.mp h with h | ⟨dev, -, h⟩
  · exact devSlot_malformed h
  · cases h

end DeviceSlots

theorem DeviceEntry.decode_reads [DevSlot δ] (invalid : Invalid) :
    Reads Malformed (d + 2) (DeviceEntry.decode (δ := δ) invalid) (DeviceEntry.ofItem invalid) :=
  (DeviceSlots.reads invalid).checked _ fun _ _ => DeviceSlots.entry_malformed

namespace BodySlots

theorem Known.cases {k : ℤ} (h : Known k) : k = 1 ∨ k = 2 := by
  obtain ⟨hlow, hhigh⟩ := h
  omega

theorem busItem_reads (s : BodySlots δ) : Reads Malformed (d + 1) (busItem s) (takeBus s) :=
  (BusEntry.decode_reads s.invalid).mapped _

theorem pushBus_slots (s : BodySlots δ) (entry : BusEntry × Invalid) :
    (s.pushBus entry).buses = s.buses ∧ (s.pushBus entry).devices = s.devices := by
  unfold pushBus
  split <;> exact ⟨rfl, rfl⟩

theorem pushDevice_slots (s : BodySlots δ) (entry : DeviceEntry δ × Invalid) :
    (s.pushDevice entry).buses = s.buses ∧ (s.pushDevice entry).devices = s.devices := by
  unfold pushDevice
  split <;> exact ⟨rfl, rfl⟩

theorem once_slotted {α : Type} (slot : Option α) (key : BusesAndDevicesKey) (value : α)
    (fill : Option α → BodySlots δ) (f : BodySlots δ → Option (BodySlots δ)) :
    ((once slot key value).toOption.bind fun slot => f (fill slot)) =
      (slotted (some value) slot fill).bind f := by
  cases slot <;> rfl

variable [DevSlot δ]

theorem deviceItem_reads (s : BodySlots δ) : Reads Malformed (d + 2) (deviceItem s) (takeDevice s) :=
  (DeviceEntry.decode_reads s.invalid).mapped _

omit [DevSlot δ] in
theorem takeBus_slots {s s' : BodySlots δ} {i : Item} (h : takeBus s i = some s') :
    s'.buses = s.buses ∧ s'.devices = s.devices := by
  obtain ⟨entry, -, rfl⟩ := Option.map_eq_some_iff.mp h
  exact pushBus_slots s entry

theorem takeDevice_slots {s s' : BodySlots δ} {i : Item} (h : takeDevice s i = some s') :
    s'.buses = s.buses ∧ s'.devices = s.devices := by
  obtain ⟨entry, -, rfl⟩ := Option.map_eq_some_iff.mp h
  exact pushDevice_slots s entry

omit [DevSlot δ] in
theorem foldItems_slots {f : BodySlots δ → Item → Option (BodySlots δ)}
    (hf : ∀ s i s', f s i = some s' → s'.buses = s.buses ∧ s'.devices = s.devices)
    {items : List Item} {s s' : BodySlots δ} (h : foldItems f items s = some s') :
    s'.buses = s.buses ∧ s'.devices = s.devices := by
  induction items generalizing s with
  | nil =>
    obtain rfl := Option.some.inj h
    exact ⟨rfl, rfl⟩
  | cons i items ih =>
    obtain ⟨s₁, h₁, h⟩ := Option.bind_eq_some_iff.mp h
    obtain ⟨hb, hd⟩ := hf s i s₁ h₁
    obtain ⟨hb', hd'⟩ := ih h
    exact ⟨hb'.trans hb, hd'.trans hd⟩

theorem fills : Fills (take (δ := δ)) Known (fun s k => s.has k) fun _ s => s := by
  refine ⟨fun k s i s' hk h => ?_, fun k s i hk => ?_, fun _ _ _ _ _ => Iff.rfl⟩
  · rcases hk.cases with rfl | rfl
    · simp only [take, Option.bind_eq_some_iff] at h
      obtain ⟨s₁, hs₁, items, -, h⟩ := h
      obtain ⟨hb, hd⟩ := foldItems_slots (fun _ _ _ => takeBus_slots) h
      obtain ⟨hempty, u, -, rfl⟩ := slotted_some.mp hs₁
      refine ⟨by simp [has, hempty], fun j hj => ?_⟩
      rcases hj.cases with rfl | rfl <;> simp [has, hb, hd]
    · simp only [take, Option.bind_eq_some_iff] at h
      obtain ⟨s₁, hs₁, items, -, h⟩ := h
      obtain ⟨hb, hd⟩ := foldItems_slots (fun _ _ _ => takeDevice_slots) h
      obtain ⟨hempty, u, -, rfl⟩ := slotted_some.mp hs₁
      refine ⟨by simp [has, hempty], fun j hj => ?_⟩
      rcases hj.cases with rfl | rfl <;> simp [has, hb, hd]
  · unfold take
    split <;> first | rfl | exact absurd (by simp [Known]) hk

theorem steps : Steps Malformed (d + 3) (step (δ := δ)) take Known fun _ s => s := by
  refine ⟨fun k s hk => ?_, fun k s hk => ?_⟩
  · rcases hk.cases with rfl | rfl
    · have h := Reads.guarded (once s.buses .buses ()) (fun _ => once_malformed) fun buses =>
        Reads.array malformed_cbor (d := d + 2) busItem_reads { s with buses := buses }
      have hspec : take 1 s = fun i => (once s.buses .buses ()).toOption.bind fun buses =>
          i.items?.bind fun items => foldItems takeBus items { s with buses := buses } := by
        funext i
        exact (once_slotted s.buses .buses () (fun slot => { s with buses := slot })
          fun s => i.items?.bind fun items => foldItems takeBus items s).symm
      rw [hspec]
      exact h
    · have h := Reads.guarded (once s.devices .devices ()) (fun _ => once_malformed) fun devices =>
        Reads.array malformed_cbor (d := d + 2) deviceItem_reads { s with devices := devices }
      have hspec : take 2 s = fun i => (once s.devices .devices ()).toOption.bind fun devices =>
          i.items?.bind fun items => foldItems takeDevice items { s with devices := devices } := by
        funext i
        exact (once_slotted s.devices .devices () (fun slot => { s with devices := slot })
          fun s => i.items?.bind fun items => foldItems takeDevice items s).symm
      rw [hspec]
      exact h
  · unfold step
    split <;> first | rfl | exact absurd (by simp [Known]) hk

theorem reads : Reads Malformed (d + 4) (read (δ := δ)) ofItem := by
  refine .mapFrom malformed_cbor steps fills fun j hj => ?_
  rcases hj.cases with rfl | rfl <;> simp [has, empty]

end BodySlots

theorem BusesAndDevices.decode_eq [DevSlot δ] (b : Bytes) :
    (∃ i s, i.Legal maxDepth ∧ i.spelling = b ∧ BodySlots.ofItem (δ := δ) i = some s ∧
      decode b = s.result) ∨
    ((∀ i, i.Legal maxDepth → i.spelling = b → BodySlots.ofItem (δ := δ) i = none) ∧
      ∃ why, decode (δ := δ) b = .error why ∧ Malformed why) := by
  have hreads : Reads Malformed maxDepth (BodySlots.read (δ := δ)) BodySlots.ofItem :=
    BodySlots.reads (d := 4)
  rcases hreads.run b with ⟨i, s, hi, hb, hs, r, hok, hfinish⟩ | ⟨hnone, hbad⟩
  · refine .inl ⟨i, s, hi, hb, hs, ?_⟩
    simp only [decode, hok, hfinish, Except.mapError, bind, Except.bind]
  · refine .inr ⟨hnone, ?_⟩
    rcases hbad with ⟨why, hr, hwhy⟩ | ⟨s, r, hok, why, hfinish⟩
    · exact ⟨why, by simp only [decode, hr, bind, Except.bind], hwhy⟩
    · exact ⟨.cbor why, by simp only [decode, hok, hfinish, Except.mapError, bind, Except.bind]; rfl, rfl⟩

end Km43.Devices
