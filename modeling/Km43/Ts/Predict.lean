import Km43.Ts.Schema

namespace Km43.Ts

open Library Cbor
open Devices (DevId ConfigError)

theorem BusesAndDevices.body_carried {s : BusesAndDevicesWrite} (h : s.Carried) : s.body.Carried := by
  have hnat : ∀ {v : ℤ}, Carries v → v.toNat ≤ Devices.wire := by
    intro v hv
    have := hv.2
    omega
  have hopt : ∀ {o : Option ℤ}, (∀ v ∈ o, Carries v) → ∀ n ∈ o.map Int.toNat, n ≤ Devices.wire := by
    intro o ho n hn
    obtain ⟨v, hv, rfl⟩ := Option.map_eq_some_iff.mp hn
    exact hnat (ho v hv)
  refine ⟨?_, ?_, ?_, ?_⟩
  · intro e he
    obtain ⟨b, hb, rfl⟩ := List.mem_map.mp he
    have hb := h.buses b hb
    exact ⟨hnat hb.bus, hopt hb.rate, hopt hb.dataBits, hopt hb.parity, hopt hb.stopBits⟩
  · intro e he
    obtain ⟨d, hd, rfl⟩ := List.mem_map.mp he
    have hd := h.devices d hd
    refine ⟨hopt hd.dev, hnat hd.bus, hd.addr, hnat hd.product, hnat hd.dialect, hnat hd.role, hopt hd.parent, ?_⟩
    unfold DeviceEntry.body
    cases ho : d.options with
    | none => exact ⟨by simp [Devices.OptionBody.none], by simp [Devices.OptionBody.none], by simp [Devices.OptionBody.none]⟩
    | some o =>
      have ho := hd.options o ho
      exact ⟨hopt ho.currentDirection, hopt ho.pylontechVersion, hopt ho.pollPeriodMs⟩
  · rw [body, List.length_map]
    exact h.buses_le
  · rw [body, List.length_map]
    exact h.devices_le

section

variable {s : BusesAndDevicesWrite} {refusal : BusesAndDevicesRefusal}

/-- A loop that refuses: not every entry was let through, and the answer is the one of each refusal of the loop. -/
theorem loop_refused {α : Type} {xs : List α} {f : α → Option BusesAndDevicesRefusal} {answer : Devices.SectionRefusal}
    (hf : ∀ x refusal, f x = some refusal → sectionAnswer refusal = answer) (h : xs.findSome? f = some refusal) :
    (¬∀ x ∈ xs, f x = none) ∧ sectionAnswer refusal = answer := by
  obtain ⟨x, hx, hrefusal⟩ := List.exists_of_findSome?_eq_some h
  refine ⟨fun hall => ?_, hf x refusal hrefusal⟩
  rw [hall x hx] at hrefusal
  cases hrefusal

theorem busShape_malformed (b : BusEntry) (refusal : BusesAndDevicesRefusal) (h : busShape b = some refusal) :
    sectionAnswer refusal = .malformedFrame := by
  unfold busShape at h
  split_ifs at h <;> cases h <;> rfl

theorem deviceShape_malformed (d : DeviceEntry (Option ℤ)) (refusal : BusesAndDevicesRefusal)
    (h : deviceShape d = some refusal) : sectionAnswer refusal = .malformedFrame := by
  unfold deviceShape at h
  dsimp only at h
  split_ifs at h <;> cases h <;> rfl

theorem busValues_invalid (b : BusEntry) (refusal : BusesAndDevicesRefusal) (h : busValues b = some refusal) :
    sectionAnswer refusal = .invalid := by
  unfold busValues at h
  split_ifs at h <;> cases h <;> rfl

theorem deviceValues_invalid (d : DeviceEntry (Option ℤ)) (refusal : BusesAndDevicesRefusal)
    (h : deviceValues d = some refusal) : sectionAnswer refusal = .invalid := by
  unfold deviceValues at h
  split_ifs at h <;> cases h <;> rfl

def Shaped (s : BusesAndDevicesWrite) : Prop := (∀ b ∈ s.buses, busShape b = none) ∧ ∀ d ∈ s.devices, deviceShape d = none

/-- The values of a section whose structure is right, short of its count of devices. -/
def Valued (s : BusesAndDevicesWrite) : Prop :=
  (s.buses.length ≤ maxConfigBuses ∧ ∀ b ∈ s.buses, busValues b = none) ∧ ∀ d ∈ s.devices, deviceValues d = none

theorem schema_cases (s : BusesAndDevicesWrite) :
    (¬Shaped s ∧ ∃ refusal, schemaRefusal s = some refusal ∧ sectionAnswer refusal = .malformedFrame) ∨
    (Shaped s ∧ ¬Valued s ∧ ∃ refusal, schemaRefusal s = some refusal ∧ sectionAnswer refusal = .invalid) ∨
    (Shaped s ∧ Valued s ∧ schemaRefusal s = none) := by
  unfold schemaRefusal Shaped Valued
  cases hbuses : s.buses.findSome? busShape with
  | some refusal =>
    obtain ⟨hnot, hanswer⟩ := loop_refused busShape_malformed hbuses
    exact .inl ⟨fun h => hnot h.1, refusal, rfl, hanswer⟩
  | none =>
    cases hdevices : s.devices.findSome? deviceShape with
    | some refusal =>
      obtain ⟨hnot, hanswer⟩ := loop_refused deviceShape_malformed hdevices
      exact .inl ⟨fun h => hnot h.2, refusal, rfl, hanswer⟩
    | none =>
      have hshaped := And.intro (List.findSome?_eq_none_iff.mp hbuses) (List.findSome?_eq_none_iff.mp hdevices)
      rw [Option.none_or, Option.none_or]
      split_ifs with hmany
      · exact .inr (.inl ⟨hshaped, fun h => absurd h.1.1 (Nat.not_le.mpr hmany), _, rfl, rfl⟩)
      · cases hbuses' : s.buses.findSome? busValues with
        | some refusal =>
          obtain ⟨hnot, hanswer⟩ := loop_refused busValues_invalid hbuses'
          exact .inr (.inl ⟨hshaped, fun h => hnot h.1.2, refusal, rfl, hanswer⟩)
        | none =>
          cases hdevices' : s.devices.findSome? deviceValues with
          | some refusal =>
            obtain ⟨hnot, hanswer⟩ := loop_refused deviceValues_invalid hdevices'
            exact .inr (.inl ⟨hshaped, fun h => hnot h.2, refusal, rfl, hanswer⟩)
          | none =>
            refine .inr (.inr ⟨hshaped, ⟨⟨Nat.not_lt.mp hmany, ?_⟩, ?_⟩, rfl⟩)
            · exact List.findSome?_eq_none_iff.mp hbuses'
            · exact List.findSome?_eq_none_iff.mp hdevices'

end

section

variable {α β : Type}

theorem exists_forall₂ {R : α → β → Prop} {P : β → Prop} {xs : List α} (h : ∀ x ∈ xs, ∃ y, R x y ∧ P y) :
    ∃ ys, List.Forall₂ R xs ys ∧ ∀ y ∈ ys, P y := by
  induction xs with
  | nil => exact ⟨[], .nil, by simp⟩
  | cons x xs ih =>
    obtain ⟨hx, hxs⟩ := List.forall_mem_cons.mp h
    obtain ⟨y, hy, hP⟩ := hx
    obtain ⟨ys, hys, hPs⟩ := ih hxs
    exact ⟨y :: ys, .cons hy hys, List.forall_mem_cons.mpr ⟨hP, hPs⟩⟩

theorem exists_option {o : Option α} {f : β → α} (h : ∀ v ∈ o, ∃ w, v = f w) : ∃ o' : Option β, o = o'.map f := by
  cases o with
  | none => exact ⟨none, rfl⟩
  | some v =>
    obtain ⟨w, rfl⟩ := h v rfl
    exact ⟨some w, rfl⟩

end

section

variable {v : ℤ}

theorem fits_bounds {o : Option ℤ} {max : ℤ} (h : fits o max) : ∀ v ∈ o, 0 ≤ v ∧ v ≤ max := by
  cases o with
  | none => simp
  | some v => simpa [fits] using h

theorem number_u8 (h : 0 ≤ v ∧ v ≤ 0xFF) : ∃ n : UInt8, v = n.toNat := by
  refine ⟨UInt8.ofNat v.toNat, ?_⟩
  rw [UInt8.toNat_ofNat']
  omega

theorem number_u16 (h : 0 ≤ v ∧ v ≤ 0xFFFF) : ∃ n : UInt16, v = n.toNat := by
  refine ⟨UInt16.ofNat v.toNat, ?_⟩
  rw [UInt16.toNat_ofNat']
  omega

theorem number_u32 (h : 0 ≤ v ∧ v ≤ 0xFFFFFFFF) : ∃ n : UInt32, v = n.toNat := by
  refine ⟨UInt32.ofNat v.toNat, ?_⟩
  rw [UInt32.toNat_ofNat']
  omega

theorem number_dev (h : 0 ≤ v ∧ v ≤ 0xFFFF) (hzero : v ≠ 0) : ∃ dev : DevId, v = asNumber dev := by
  obtain ⟨n, rfl⟩ := number_u16 h
  refine ⟨⟨n, ?_⟩, rfl⟩
  rintro rfl
  exact hzero rfl

end

/-- A bus entry that both loops over the buses let through is one the controller's types hold. -/
theorem bus_same {b : BusEntry} (hshape : busShape b = none) (hvalues : busValues b = none) :
    ∃ e, b.Same e ∧ e.Set := by
  obtain ⟨⟨hbus, hrate, hdata, hstop⟩, hparity, hset⟩ := (busShape_none b).mp hshape
  obtain ⟨hrate', hdata', hstop'⟩ := (busValues_none b).mp hvalues
  obtain ⟨bus, hbus⟩ := number_u8 (fits_bounds hbus _ rfl)
  have hrates : ∀ v ∈ b.rate, ∃ rate : Devices.Rate, v = rate.raw.toNat := by
    intro v hv
    obtain ⟨n, rfl⟩ := number_u32 (fits_bounds hrate v hv)
    refine ⟨⟨n, ?_⟩, rfl⟩
    rintro rfl
    exact hrate' _ hv rfl
  have hbits : ∀ v ∈ b.dataBits, ∃ bits : Devices.DataBits, v = bits.wire.toNat := by
    intro v hv
    rcases hdata' v hv with rfl | rfl
    · exact ⟨.seven, rfl⟩
    · exact ⟨.eight, rfl⟩
  have hparities : ∀ v ∈ b.parity, ∃ parity : Devices.Parity, v = parity.byte.toNat := by
    intro v hv
    have hknown := hparity v hv
    simp only [isParity, decide_eq_true_eq] at hknown
    rcases hknown with rfl | rfl | rfl
    · exact ⟨.none, rfl⟩
    · exact ⟨.even, rfl⟩
    · exact ⟨.odd, rfl⟩
  have hstops : ∀ v ∈ b.stopBits, ∃ bits : Devices.StopBits, v = bits.wire.toNat := by
    intro v hv
    rcases hstop' v hv with rfl | rfl
    · exact ⟨.one, rfl⟩
    · exact ⟨.two, rfl⟩
  obtain ⟨rate, hrate⟩ := exists_option hrates
  obtain ⟨dataBits, hdata⟩ := exists_option hbits
  obtain ⟨parity, hparity⟩ := exists_option hparities
  obtain ⟨stopBits, hstop⟩ := exists_option hstops
  refine ⟨⟨bus, rate, dataBits, parity, stopBits⟩, ⟨hbus, hrate, hdata, hparity, hstop⟩, ?_⟩
  rw [hrate, hdata, hparity, hstop] at hset
  simp only [Option.isSome_map] at hset
  exact hset

theorem options_same {options : Option DeviceOptions} (hperiod : fits (options.bind (·.pollPeriodMs)) 0xFFFFFFFF)
    (hversion : ∀ v ∈ options.bind (·.pylontechVersion), isPylontechVersion v)
    (hdirection : ∀ v ∈ options.bind (·.currentDirection), isDirection v)
    (hsign : options.bind (·.currentDirection) ≠ some 3) : ∃ o, OptionsSame options o := by
  have hdirections : ∀ v ∈ options.bind (·.currentDirection), ∃ d : Devices.CurrentDirection, v = d.direction.byte.toNat := by
    intro v hv
    have hknown := hdirection v hv
    simp only [isDirection, decide_eq_true_eq] at hknown
    rcases hknown with rfl | rfl | rfl
    · exact ⟨.positiveIsIn, rfl⟩
    · exact ⟨.positiveIsOut, rfl⟩
    · exact absurd hv hsign
  have hversions : ∀ v ∈ options.bind (·.pylontechVersion), ∃ version : Devices.PylontechVersion, v = version.byte.toNat := by
    intro v hv
    have hknown := hversion v hv
    simp only [isPylontechVersion, decide_eq_true_eq] at hknown
    rcases hknown with rfl | rfl
    · exact ⟨.v12, rfl⟩
    · exact ⟨.v13, rfl⟩
  obtain ⟨direction, hdirection⟩ := exists_option hdirections
  obtain ⟨version, hversion⟩ := exists_option hversions
  obtain ⟨period, hperiod⟩ := exists_option fun v hv => number_u32 (fits_bounds hperiod v hv)
  exact ⟨⟨direction, version, options.bind (·.veDirect3v3), period⟩, hdirection, hversion, rfl, hperiod⟩

theorem device_same {d : DeviceEntry (Option ℤ)} (hshape : deviceShape d = none) (hvalues : deviceValues d = none) :
    ∃ e, d.Same e ∧ True := by
  obtain ⟨⟨hbus, ⟨hdev, hproduct, hdialect, hrole, hparent⟩, hperiod⟩, hversion, hdirection⟩ :=
    (deviceShape_none d).mp hshape
  obtain ⟨hdev', haddr, hparent', hsign⟩ := (deviceValues_none d).mp hvalues
  obtain ⟨bus, hbus⟩ := number_u8 (fits_bounds hbus _ rfl)
  obtain ⟨product, hproduct⟩ := number_u16 (fits_bounds hproduct _ rfl)
  obtain ⟨dialect, hdialect⟩ := number_u16 (fits_bounds hdialect _ rfl)
  obtain ⟨role, hrole⟩ := number_u16 (fits_bounds hrole _ rfl)
  obtain ⟨dev, hdev⟩ := exists_option fun v hv => number_dev (fits_bounds hdev v hv) (hdev' v hv)
  obtain ⟨parent, hparent⟩ := exists_option fun v hv => number_dev (fits_bounds hparent v hv) (hparent' v hv)
  have haddrs : ∀ raw ∈ d.addr, ∃ addr : Devices.Addr, raw = addr.bytes := by
    intro raw hraw
    obtain ⟨hpos, hle⟩ := haddr raw hraw
    exact ⟨⟨raw, List.length_pos_iff.mp hpos, hle⟩, rfl⟩
  obtain ⟨addr, haddr⟩ := exists_option haddrs
  obtain ⟨options, hoptions⟩ := options_same hperiod hversion hdirection hsign
  exact ⟨⟨dev, bus, addr, product, dialect, role, parent, options⟩,
    ⟨hdev, hbus, haddr, hproduct, hdialect, hrole, hparent, hoptions⟩, trivial⟩

theorem section_same {s : BusesAndDevicesWrite} (hshaped : Shaped s) (hvalued : Valued s)
    (hdevices : s.devices.length ≤ maxConfigDevices) :
    ∃ r : Devices.BusesAndDevicesWrite, s.Same r ∧ ∀ e ∈ r.buses, e.Set := by
  obtain ⟨es, hes, hset⟩ := exists_forall₂ fun b hb => bus_same (hshaped.1 b hb) (hvalued.1.2 b hb)
  obtain ⟨fs, hfs, -⟩ := exists_forall₂ fun d hd => device_same (hshaped.2 d hd) (hvalued.2 d hd)
  exact ⟨⟨es, fs, hes.length_eq ▸ hvalued.1.1, hfs.length_eq ▸ hdevices⟩, ⟨hes, hfs⟩, hset⟩

theorem numbers_body {α : Type} {o : Option ℤ} {o' : Option α} {f : α → ℕ} (h : o = o'.map fun a => (f a : ℤ)) :
    o.map Int.toNat = o'.map f := by
  rw [h, Option.map_map]
  cases o' <;> simp

theorem OptionsSame.body {options : Option DeviceOptions} {o : Devices.DeviceOptions} (h : OptionsSame options o) :
    options.elim .none DeviceOptions.body = o.body := by
  have hbody : options.elim .none DeviceOptions.body = (⟨(options.bind (·.currentDirection)).map Int.toNat,
      (options.bind (·.pylontechVersion)).map Int.toNat, options.bind (·.veDirect3v3),
      (options.bind (·.pollPeriodMs)).map Int.toNat⟩ : Devices.OptionBody) := by
    cases options <;> rfl
  rw [hbody, numbers_body h.currentDirection, numbers_body h.pylontechVersion, h.veDirect3v3,
    numbers_body h.pollPeriodMs]
  rfl

theorem map_same {α β γ : Type} {R : α → β → Prop} {f : α → γ} {g : β → γ} {xs : List α} {ys : List β}
    (h : List.Forall₂ R xs ys) (hfg : ∀ x y, R x y → f x = g y) : xs.map f = ys.map g := by
  induction h with
  | nil => rfl
  | cons hxy _ ih => rw [List.map_cons, List.map_cons, hfg _ _ hxy, ih]

theorem BusEntry.Same.body {b : BusEntry} {e : Devices.BusEntry} (h : b.Same e) : b.body = e.body := by
  unfold BusEntry.body Devices.BusEntry.body
  rw [h.bus, Int.toNat_natCast, numbers_body h.rate, numbers_body h.dataBits, numbers_body h.parity,
    numbers_body h.stopBits]

theorem DeviceEntry.Same.body {d : DeviceEntry (Option ℤ)} {e : Devices.DeviceEntry (Option DevId)} (h : d.Same e) :
    d.body = e.body := by
  unfold DeviceEntry.body Devices.DeviceEntry.body
  rw [h.bus, h.addr, h.product, h.dialect, h.role, h.options.body, numbers_body h.dev, numbers_body h.parent]
  simp only [Int.toNat_natCast]
  rfl

theorem BusesAndDevices.Same.body {s : BusesAndDevicesWrite} {r : Devices.BusesAndDevicesWrite} (h : s.Same r) :
    s.body = r.body := by
  unfold BusesAndDevices.body Devices.BusesAndDevices.body
  rw [map_same h.buses fun _ _ hb => hb.body, map_same h.devices fun _ _ hd => hd.body]

theorem numbers_carried {α : Type} {o : Option ℤ} {o' : Option α} {f : α → ℕ} (h : o = o'.map fun a => (f a : ℤ))
    (hf : ∀ a, f a ≤ Devices.wire) : ∀ v ∈ o, Carries v := by
  intro v hv
  rw [h] at hv
  obtain ⟨a, -, rfl⟩ := Option.map_eq_some_iff.mp hv
  exact carries_nat.mpr (hf a)

theorem BusEntry.Same.carried {b : BusEntry} {e : Devices.BusEntry} (h : b.Same e) : b.Carried where
  bus := h.bus ▸ carries_nat.mpr (Devices.wire_u8 _)
  rate := numbers_carried h.rate fun rate => Devices.wire_u32 rate.raw
  dataBits := numbers_carried h.dataBits fun bits => Devices.wire_u8 bits.wire
  parity := numbers_carried h.parity fun parity => Devices.wire_u8 parity.byte
  stopBits := numbers_carried h.stopBits fun bits => Devices.wire_u8 bits.wire

theorem OptionsSame.carried {options : Option DeviceOptions} {o : Devices.DeviceOptions} (h : OptionsSame options o) :
    ∀ held ∈ options, held.Carried := by
  rintro held rfl
  refine ⟨?_, ?_, ?_⟩
  · exact numbers_carried h.currentDirection fun d => Devices.wire_u8 d.direction.byte
  · exact numbers_carried h.pylontechVersion fun v => Devices.wire_u8 v.byte
  · exact numbers_carried h.pollPeriodMs fun p => Devices.wire_u32 p

theorem DeviceEntry.Same.carried {d : DeviceEntry (Option ℤ)} {e : Devices.DeviceEntry (Option DevId)} (h : d.Same e) :
    d.Carried where
  dev := numbers_carried h.dev fun dev => Devices.wire_u16 dev.raw
  bus := h.bus ▸ carries_nat.mpr (Devices.wire_u8 _)
  addr raw hraw := by
    rw [h.addr] at hraw
    obtain ⟨addr, -, rfl⟩ := Option.map_eq_some_iff.mp hraw
    exact addr.bounded.2.trans (by decide)
  product := h.product ▸ carries_nat.mpr (Devices.wire_u16 _)
  dialect := h.dialect ▸ carries_nat.mpr (Devices.wire_u16 _)
  role := h.role ▸ carries_nat.mpr (Devices.wire_u16 _)
  parent := numbers_carried h.parent fun dev => Devices.wire_u16 dev.raw
  options := h.options.carried

theorem left_related {α β : Type} {R : α → β → Prop} {xs : List α} {ys : List β} (h : List.Forall₂ R xs ys) :
    ∀ x ∈ xs, ∃ y, R x y := by
  induction h with
  | nil => simp
  | cons hxy _ ih => exact List.forall_mem_cons.mpr ⟨⟨_, hxy⟩, ih⟩

theorem BusesAndDevices.Same.carried {s : BusesAndDevicesWrite} {r : Devices.BusesAndDevicesWrite} (h : s.Same r) :
    s.Carried where
  buses b hb := by
    obtain ⟨e, he⟩ := left_related h.buses b hb
    exact he.carried
  devices d hd := by
    obtain ⟨e, he⟩ := left_related h.devices d hd
    exact he.carried
  buses_le := h.buses.length_eq ▸ r.buses_le.trans (by decide)
  devices_le := h.devices.length_eq ▸ r.devices_le.trans (by decide)

section

variable {rules : SiteRules} {refusal : BusesAndDevicesRefusal}

theorem firstRefusal_invalid {α : Type} {f : α → List α → Option BusesAndDevicesRefusal} {xs : List α}
    (hf : ∀ x later refusal, f x later = some refusal → sectionAnswer refusal = .invalid)
    (h : firstRefusal f xs = some refusal) : sectionAnswer refusal = .invalid := by
  induction xs with
  | nil => cases h
  | cons x xs ih =>
    rcases Option.or_eq_some_iff.mp h with h | ⟨-, h⟩
    · exact hf x xs refusal h
    · exact ih h

theorem busOnSite_invalid (b : BusEntry) (later : List BusEntry) (refusal : BusesAndDevicesRefusal)
    (h : busOnSite rules b later = some refusal) : sectionAnswer refusal = .invalid := by
  unfold busOnSite at h
  split at h
  · cases h
    rfl
  · split_ifs at h
    · cases h
      rfl
    · unfold settingsOnSite at h
      split_ifs at h <;> cases h <;> rfl

/-- A section past its cap of devices is refused, whatever else is wrong with it, with outcome 3. -/
theorem siteRefusal_many (rules : SiteRules) {s : BusesAndDevicesWrite} (hmany : maxConfigDevices < s.devices.length) :
    ∃ refusal, siteRefusal s rules = some refusal ∧ sectionAnswer refusal = .invalid := by
  unfold siteRefusal
  cases hbuses : firstRefusal (busOnSite rules) s.buses with
  | some refusal => exact ⟨refusal, rfl, firstRefusal_invalid busOnSite_invalid hbuses⟩
  | none =>
    rw [if_pos (.inr hmany)]
    exact ⟨_, rfl, rfl⟩

end

section

variable {s : BusesAndDevicesWrite}

theorem structured_iff (hs : s.Carried) : Devices.Structured s.body.item.spelling ↔ Shaped s := by
  have hlegal := Devices.Body.item_legal (BusesAndDevices.body_carried hs)
  unfold Shaped
  rw [← section_fits hs]
  constructor
  · rintro ⟨i, hi, hspell, hfits⟩
    obtain rfl := Item.spelling_inj hi hlegal hspell
    exact hfits
  · intro hfits
    exact ⟨_, hlegal, rfl, hfits⟩

theorem inSchema_iff (hs : s.Carried) :
    Devices.InSchema s.body.item.spelling ↔ Valued s ∧ s.devices.length ≤ maxConfigDevices := by
  have hlegal := Devices.Body.item_legal (BusesAndDevices.body_carried hs)
  have hwithin : Devices.InSchema s.body.item.spelling ↔ Devices.sectionRule.Within s.body.item := by
    constructor
    · rintro ⟨i, hi, hspell, hwithin⟩
      obtain rfl := Item.spelling_inj hi hlegal hspell
      exact hwithin
    · intro hwithin
      exact ⟨_, hlegal, rfl, hwithin⟩
  rw [hwithin, section_within hs]
  unfold Valued
  tauto

def controller (bytes : Bytes) (rules : Devices.SiteRules) : Except ConfigError Unit := do
  let r ← Devices.BusesAndDevices.decode (δ := Option DevId) bytes
  r.check rules

theorem client_agrees (s : BusesAndDevicesWrite) (rules : Devices.SiteRules) {bytes : Bytes}
    (hbytes : encodeBusesAndDevices s = .ok bytes) :
    Agrees (checkBusesAndDevices s (.client rules)) (controller bytes rules) := by
  obtain ⟨hs, rfl⟩ := (encodeBusesAndDevices_ok s bytes).mp hbytes
  have hclass := Devices.BusesAndDevicesWrite.decode_cases s.body.item.spelling
  rw [structured_iff hs, inSchema_iff hs] at hclass
  unfold checkBusesAndDevices controller
  rcases schema_cases s with ⟨hshaped, refusal, hrefusal, hanswer⟩ | ⟨hshaped, hvalued, refusal, hrefusal, hanswer⟩ |
    ⟨hshaped, hvalued, hrefusal⟩
  · rcases hclass with ⟨-, why, herror, hwhy⟩ | ⟨h, -⟩ | ⟨h, -⟩
    · rw [hrefusal, herror]
      exact .refuses (hanswer.trans hwhy.symm)
    · exact absurd h hshaped
    · exact absurd h hshaped
  · rcases hclass with ⟨h, -⟩ | ⟨-, -, why, herror, hwhy⟩ | ⟨-, h, -⟩
    · exact absurd hshaped h
    · rw [hrefusal, herror]
      exact .refuses (hanswer.trans hwhy.symm)
    · exact absurd h.1 hvalued
  · rw [hrefusal, Option.none_or]
    by_cases hfew : s.devices.length ≤ maxConfigDevices
    · obtain ⟨r, hsame, hset⟩ := section_same hshaped hvalued hfew
      have hdecode := Devices.BusesAndDevices.decode_body hset (if_pos (by simp [Devices.DevSlot.answer]))
      rw [hsame.body, hdecode]
      exact site_agrees hsame hset
    · obtain ⟨refusal, hsite, hanswer⟩ := siteRefusal_many (.client rules) (Nat.not_le.mp hfew)
      rcases hclass with ⟨h, -⟩ | ⟨-, -, why, herror, hwhy⟩ | ⟨-, h, -⟩
      · exact absurd hshaped h
      · rw [hsite, herror]
        exact .refuses (hanswer.trans hwhy.symm)
      · exact absurd h.2 hfew

theorem accepted_carried {s : BusesAndDevicesWrite} {rules : SiteRules} (h : checkBusesAndDevices s rules = none) :
    s.Carried := by
  obtain ⟨hschema, hsite⟩ := Option.or_eq_none_iff.mp h
  rcases schema_cases s with ⟨-, refusal, hrefusal, -⟩ | ⟨-, -, refusal, hrefusal, -⟩ | ⟨hshaped, hvalued, -⟩
  · rw [hschema] at hrefusal
    cases hrefusal
  · rw [hschema] at hrefusal
    cases hrefusal
  · by_cases hfew : s.devices.length ≤ maxConfigDevices
    · obtain ⟨r, hsame, -⟩ := section_same hshaped hvalued hfew
      exact hsame.carried
    · obtain ⟨refusal, hrefusal, -⟩ := siteRefusal_many rules (Nat.not_le.mp hfew)
      rw [hsite] at hrefusal
      cases hrefusal

/-- The client's check predicts the controller's: it lets a write through exactly where the controller would, and
names the answer of every body that can be sent. -/
theorem client_check_predicts (s : BusesAndDevicesWrite) (rules : Devices.SiteRules) :
    (checkBusesAndDevices s (.client rules) = none ↔
      ∃ bytes r, encodeBusesAndDevices s = .ok bytes ∧ Devices.BusesAndDevices.decode (δ := Option DevId) bytes = .ok r ∧
        r.check rules = .ok ()) ∧
    ∀ refusal, checkBusesAndDevices s (.client rules) = some refusal → ∀ bytes, encodeBusesAndDevices s = .ok bytes →
      ∃ why, controller bytes rules = .error why ∧ why.answer = sectionAnswer refusal := by
  refine ⟨⟨?_, ?_⟩, ?_⟩
  · intro hcheck
    have hbytes := (encodeBusesAndDevices_ok s _).mpr ⟨accepted_carried hcheck, rfl⟩
    obtain ⟨_, hok⟩ := (client_agrees s rules hbytes).accepted hcheck
    obtain ⟨r, hdecode, hr⟩ := bind_ok.mp hok
    exact ⟨_, r, hbytes, hdecode, hr⟩
  · rintro ⟨bytes, r, hbytes, hdecode, hr⟩
    exact (client_agrees s rules hbytes).of_accepted (bind_ok.mpr ⟨r, hdecode, hr⟩)
  · intro refusal hcheck bytes hbytes
    exact (client_agrees s rules hbytes).refused hcheck

end

end Km43.Ts
