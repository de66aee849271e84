import Km43.Devices.Answer
import Km43.Ts.Decode
import Km43.Ts.Predict

namespace Km43.Ts

open Cbor CborReader Library
open Devices (DevId DevSlot ConfigError sectionRule)

section

variable {δ : Type} [DevSlot δ] {d : ℕ} {k : ℤ} {seen : List ℤ} {t : BodySlots} {s : Devices.BodySlots δ}

theorem BodySlots.step_reads (hδ : Slotted δ) (d : ℕ) (hk : k ∉ seen) (h : t.Same seen s) :
    Reads (d + 3) (fun s t => t.Same (k :: seen) s) (step (DevSlot.answer δ) k t) (Devices.BodySlots.take k s) := by
  by_cases hknown : Devices.BodySlots.Known k
  · rcases hknown.cases with rfl | rfl
    · have hnone : s.buses = none := by
        rw [← Option.not_isSome_iff_eq_none]
        exact fun hmet => hk (h.busesMet hmet)
      have hspec : Devices.BodySlots.take 1 s = fun i => i.items?.bind fun items =>
          foldItems Devices.BodySlots.takeBus items { s with buses := some () } := by
        funext i
        simp [Devices.BodySlots.take, slotted, hnone]
      have hstart : Same (1 :: seen) { t with buses := true } { s with buses := some () } :=
        ⟨h.told, fun _ => .head _, fun hmet => .tail _ (h.devicesMet hmet), rfl, h.devices, h.sameBuses, h.sameDevices,
          h.busCount, h.deviceCount⟩
      rw [hspec]
      exact array_reads (d := d + 2) (fun s t h => busItem_reads h (d + 1)) hstart
    · have hnone : s.devices = none := by
        rw [← Option.not_isSome_iff_eq_none]
        exact fun hmet => hk (h.devicesMet hmet)
      have hspec : Devices.BodySlots.take 2 s = fun i => i.items?.bind fun items =>
          foldItems Devices.BodySlots.takeDevice items { s with devices := some () } := by
        funext i
        simp [Devices.BodySlots.take, slotted, hnone]
      have hstart : Same (2 :: seen) { t with devices := true } { s with devices := some () } :=
        ⟨h.told, fun hmet => .tail _ (h.busesMet hmet), fun _ => .head _, h.buses, rfl, h.sameBuses, h.sameDevices,
          h.busCount, h.deviceCount⟩
      rw [hspec]
      exact array_reads (d := d + 2) (fun s t h => deviceItem_reads hδ h d) hstart
  · have hspec : Devices.BodySlots.take k s = fun _ => some s := by
      funext i
      exact Devices.BodySlots.fills.passes k s i hknown
    have hrun : step (DevSlot.answer δ) k t = (do skip; pure t) := by
      unfold step
      split <;> first | rfl | exact absurd (by simp [Devices.BodySlots.Known]) hknown
    rw [hspec, hrun]
    apply pass_reads
    exact ⟨h.told, fun hmet => .tail _ (h.busesMet hmet), fun hmet => .tail _ (h.devicesMet hmet), h.buses, h.devices,
      h.sameBuses, h.sameDevices, h.busCount, h.deviceCount⟩

end

section

variable {δ : Type} [DevSlot δ]

/-- Either both read one item to the end of the body, or there is none the client's reader takes. -/
theorem readBody_cases (hδ : Slotted δ) (body : Bytes) :
    (∃ i s t seen, i.Legal maxDepth ∧ i.spelling = body ∧ narrow i = true ∧
      Devices.BodySlots.ofItem (δ := δ) i = some s ∧ BodySlots.Same seen t s ∧
      readBody (DevSlot.answer δ) body = t.result) ∨
    ((∀ i, i.Legal maxDepth → i.spelling = body → narrow i = true → Devices.BodySlots.ofItem (δ := δ) i = none) ∧
      ∃ why, readBody (DevSlot.answer δ) body = .error why ∧ sectionAnswer why = .malformedFrame) := by
  have hempty : BodySlots.Same [] .empty (Devices.BodySlots.empty (δ := δ)) :=
    ⟨⟨iff_of_true rfl rfl, by simp [BodySlots.empty]⟩, by simp [Devices.BodySlots.empty],
      by simp [Devices.BodySlots.empty], rfl, rfl, fun _ => .nil, fun _ => .nil, rfl, rfl⟩
  have hreads : Reads maxDepth _ (entries (BodySlots.step (DevSlot.answer δ)) .empty) _ :=
    entries_reads (d := 7) (R := fun seen (s : Devices.BodySlots δ) t => BodySlots.Same seen t s)
      (fun k seen s t hk h => BodySlots.step_reads hδ 4 hk h) hempty
  have hrun : readBody (DevSlot.answer δ) body = ((entries (BodySlots.step (DevSlot.answer δ)) .empty ⟨body, 0⟩) >>=
      fun p => if p.2.rest ≠ [] then throw (.cbor .trailingBytes) else p.1.result) := by
    change (entries (BodySlots.step (DevSlot.answer δ)) .empty ⟨body, 0⟩ >>= fun p => (do finish; pure p.1 : Read _) p.2) >>=
      (fun q => q.1.result) = _
    cases entries (BodySlots.step (DevSlot.answer δ)) .empty ⟨body, 0⟩ with
    | error why => rfl
    | ok p =>
      obtain ⟨t, ⟨rest, depth⟩⟩ := p
      cases rest <;> rfl
  have hmakes := hreads body 0 rfl
  rw [hrun]
  generalize hread : (narrowStep maxDepth body).bind _ = read at hmakes
  generalize entries (BodySlots.step (DevSlot.answer δ)) .empty ⟨body, 0⟩ = run at hmakes
  have hspec : ∀ i, Devices.BodySlots.ofItem (δ := δ) i = (i.pairs?.bind fun pairs =>
      (foldPairs Devices.BodySlots.take pairs .empty).map fun s => (pairs.length, s)).map (·.2) := by
    intro i
    rw [Devices.BodySlots.ofItem]
    cases i.pairs? with
    | none => rfl
    | some pairs =>
      dsimp only [Option.bind_some]
      cases foldPairs (Devices.BodySlots.take (δ := δ)) pairs .empty <;> rfl
  cases hmakes with
  | refuses hwhy =>
    refine .inr ⟨fun i hi hspell hnarrow => ?_, _, rfl, hwhy⟩
    have hstep := narrowStep_ok.mpr ⟨⟨hi, by rw [List.append_nil, hspell]⟩, hnarrow⟩
    rw [hstep, Option.bind_some, Option.map_eq_none_iff] at hread
    dsimp only at hread
    rw [hspec, hread, Option.map_none]
  | @takes p t rest h =>
    obtain ⟨q, hstep, hread⟩ := Option.bind_eq_some_iff.mp hread
    obtain ⟨⟨hi, hbody⟩, hnarrow⟩ := narrowStep_ok.mp (show narrowStep maxDepth body = some (q.1, q.2) from hstep)
    obtain ⟨p', hp', heq⟩ := Option.map_eq_some_iff.mp hread
    obtain ⟨rfl, rfl⟩ := Prod.mk.inj heq
    obtain ⟨seen, hsame, -⟩ := h
    by_cases hrest : q.2 = []
    · refine .inl ⟨q.1, p'.2, t, seen, hi, ?_, hnarrow, ?_, hsame, ?_⟩
      · rw [hbody, hrest, List.append_nil]
      · dsimp only at hp'
        rw [hspec, hp', Option.map_some]
      · simp [hrest, bind, Except.bind]
    · refine .inr ⟨fun i hi' hspell _ => ?_, .cbor .trailingBytes, ?_, rfl⟩
      · have hsplit : i.spelling ++ [] = q.1.spelling ++ q.2 := by rw [List.append_nil, hspell, hbody]
        have hrest' := (itemStep_exact maxDepth).prefix_free hi' hi hsplit
        exact absurd hrest'.2.symm hrest
      · simp [hrest, bind, Except.bind, throw, throwThe, MonadExceptOf.throw]

end

/-- Both readers took the bytes, for values that match, or both refused them with one answer. -/
inductive Alike {α β : Type} (R : α → β → Prop) : Except ConfigError α → Except BusesAndDevicesRefusal β → Prop
  | accepts {a : α} {b : β} (h : R a b) : Alike R (.ok a) (.ok b)
  | refuses {why : ConfigError} {refusal : BusesAndDevicesRefusal} (h : sectionAnswer refusal = why.answer) :
    Alike R (.error why) (.error refusal)

section

variable {δ : Type} [DevSlot δ] {seen : List ℤ} {t : BodySlots} {s : Devices.BodySlots δ}

theorem BodySlots.Same.results (h : t.Same seen s) :
    (∃ why refusal, s.result = .error why ∧ t.result = .error refusal ∧ sectionAnswer refusal = why.answer) ∨
    (s.invalid.Clean ∧ s.result = (s.body.ascending >>= fun _ => .ok s.body) ∧ t.result = .ok t.body) := by
  unfold Devices.BodySlots.result BodySlots.result
  rw [h.buses, h.devices]
  cases s.buses with
  | none => exact .inl ⟨_, _, rfl, rfl, rfl⟩
  | some buses =>
    cases s.devices with
    | none => exact .inl ⟨_, _, rfl, rfl, rfl⟩
    | some devices =>
      rcases s.invalid.result_cases with ⟨hclean, hok⟩ | ⟨hdirty, why, herror, hwhy⟩
      · have hnone := h.told.clean.mp hclean
        refine .inr ⟨hclean, ?_, ?_⟩
        · simp [Devices.required, hok, bind, Except.bind]
        · simp [hnone]
      · obtain ⟨refusal, hsome⟩ := Option.ne_none_iff_exists'.mp (mt h.told.clean.mpr hdirty)
        refine .inl ⟨why, refusal, ?_, ?_, (h.told.answer refusal hsome).trans hwhy.symm⟩
        · simp [Devices.required, herror, bind, Except.bind]
        · simp [hsome]

end

def DeviceEntry.asWrite (d : DeviceEntry ℤ) : DeviceEntry (Option ℤ) :=
  ⟨some d.dev, d.bus, d.addr, d.product, d.dialect, d.role, d.parent, d.options⟩

def BusesAndDevicesRead.asWrite (s : BusesAndDevicesRead) : BusesAndDevicesWrite :=
  ⟨s.buses, s.devices.map DeviceEntry.asWrite⟩

section

variable {α β : Type} {R : α → β → Prop} {xs : List α} {ys : List β}

theorem pairs_same (h : List.Forall₂ R xs ys) :
    List.Forall₂ (fun p q => R p.1 q.1 ∧ R p.2 q.2) (xs.zip xs.tail) (ys.zip ys.tail) := by
  induction h with
  | nil => exact .nil
  | cons hxy hrest ih =>
    cases hrest with
    | nil => exact .nil
    | cons hnext hlast => exact .cons ⟨hxy, hnext⟩ ih

theorem falls_rises {number : α → ℤ} {rank : β → ℕ} (h : List.Forall₂ R xs ys)
    (hnumber : ∀ x y, R x y → number x = rank y) : falls number xs = !Devices.BusesAndDevices.rises rank ys := by
  unfold falls Devices.BusesAndDevices.rises
  rw [Bool.not_not]
  apply any_same (pairs_same h)
  rintro p q ⟨hfirst, hsecond⟩
  rw [decide_eq_decide, hnumber _ _ hfirst, hnumber _ _ hsecond, ge_iff_le, Int.ofNat_le]

end

theorem answered_same {ds : List (DeviceEntry (Option ℤ))} {es : List (Devices.DeviceEntry DevId)}
    (h : List.Forall₂ (fun d e => DeviceEntry.Same d (e.withDev e.devId)) ds es) :
    ∃ devices, answered ds = .ok devices ∧
      List.Forall₂ (fun d e => DeviceEntry.Same (DeviceEntry.asWrite d) (e.withDev (some e.dev))) devices es := by
  induction h with
  | nil => exact ⟨[], rfl, .nil⟩
  | @cons d e ds es hd hrest ih =>
    obtain ⟨devices, hok, hsame⟩ := ih
    have hdev : d.dev = some (asNumber e.dev) := hd.dev
    refine ⟨⟨asNumber e.dev, d.bus, d.addr, d.product, d.dialect, d.role, d.parent, d.options⟩ :: devices, ?_, ?_⟩
    · rw [answered, hdev, hok]
      rfl
    · refine .cons ⟨rfl, hd.bus, hd.addr, hd.product, hd.dialect, hd.role, hd.parent, hd.options⟩ hsame

theorem write_alike {seen : List ℤ} {t : BodySlots} {s : Devices.BodySlots (Option DevId)} (h : t.Same seen s) :
    Alike (fun r b => BusesAndDevices.Same b r) s.result t.result := by
  rcases h.results with ⟨why, refusal, hwhy, hrefusal, hanswer⟩ | ⟨hclean, hok, hread⟩
  · rw [hwhy, hrefusal]
    exact .refuses hanswer
  · have hasc : s.body.ascending = .ok () := if_pos (by simp [DevSlot.answer])
    rw [hok, hread, hasc]
    exact .accepts ⟨h.sameBuses hclean, h.sameDevices hclean⟩

def ordered (s : BusesAndDevicesWrite) : Except BusesAndDevicesRefusal BusesAndDevicesRead := do
  let devices ← answered s.devices
  if falls (·.bus) s.buses then .error (.key .outOfOrder "bus entry bus")
  else if falls (·.dev) devices then .error (.key .outOfOrder "device entry dev")
  else .ok ⟨s.buses, devices⟩

theorem answer_alike {seen : List ℤ} {t : BodySlots} {s : Devices.BodySlots DevId} (h : t.Same seen s) :
    Alike (fun r b => BusesAndDevices.Same (BusesAndDevicesRead.asWrite b) (Devices.BusesAndDevicesRead.asWrite r)) s.result
      (t.result >>= ordered) := by
  rcases h.results with ⟨why, refusal, hwhy, hrefusal, hanswer⟩ | ⟨hclean, hok, hread⟩
  · rw [hwhy, hrefusal]
    exact .refuses hanswer
  · obtain ⟨devices, hdevices, hsame⟩ := answered_same (h.sameDevices hclean)
    have hbuses := h.sameBuses hclean
    have hbusOrder : falls (·.bus) t.body.buses = !Devices.BusesAndDevices.rises (·.bus.toNat) s.body.buses :=
      falls_rises hbuses fun _ _ hb => hb.bus
    have hdevOrder : falls (·.dev) devices = !Devices.BusesAndDevices.rises Devices.BusesAndDevices.devRank s.body.devices := by
      apply falls_rises hsame
      intro d e hd
      exact Option.some.inj hd.dev
    have hanswer : DevSlot.answer DevId = true := rfl
    have hordered : ordered t.body = if falls (·.bus) t.body.buses then .error (.key .outOfOrder "bus entry bus")
        else if falls (·.dev) devices then .error (.key .outOfOrder "device entry dev") else .ok ⟨t.body.buses, devices⟩ := by
      unfold ordered
      rw [hdevices]
      rfl
    rw [hok, hread]
    change Alike _ _ (ordered t.body)
    rw [hordered, hbusOrder, hdevOrder]
    unfold Devices.BusesAndDevices.ascending
    rw [hanswer]
    cases Devices.BusesAndDevices.rises (·.bus.toNat) s.body.buses with
    | false => exact .refuses rfl
    | true =>
      cases Devices.BusesAndDevices.rises Devices.BusesAndDevices.devRank s.body.devices with
      | false => exact .refuses rfl
      | true => exact .accepts ⟨hbuses, by simpa [BusesAndDevicesRead.asWrite, Devices.BusesAndDevicesRead.asWrite] using hsame⟩

section

variable {d : ℕ} {k : ℤ} {i : Item}

theorem answered_device {invalid : Devices.Invalid} (hi : i.Legal d)
    (h : (Devices.DeviceEntry.ofItem (δ := DevId) invalid i).isSome) : Devices.deviceRule.Fits i := by
  rw [← Devices.DeviceEntry.ofItem_isSome hi invalid]
  obtain ⟨e, he⟩ := Option.isSome_iff_exists.mp h
  obtain ⟨s, hs, hentry⟩ := Option.bind_eq_some_iff.mp he
  rw [Devices.DeviceEntry.ofItem, hs, Option.bind_some, Devices.DeviceSlots.entry_isSome]
  have hfilled : s.product.isSome ∧ s.dialect.isSome ∧ s.role.isSome ∧ s.bus.isSome := by
    by_contra hmissing
    have hnone := deviceEntry_missing (δ := DevId) (s := s) ?_ answer_slotted
    · rw [hnone] at hentry
      cases hentry
    · simp only [← Option.not_isSome_iff_eq_none]
      tauto
  exact ⟨hfilled.2.2.2, hfilled.1, hfilled.2.1, hfilled.2.2.1⟩

theorem foldItems_takes {σ : Type} {f : σ → Item → Option σ} {P : Item → Prop} {items : List Item} {s s' : σ}
    (hf : ∀ i ∈ items, ∀ s, (f s i).isSome → P i) (h : foldItems f items s = some s') : ∀ i ∈ items, P i := by
  induction items generalizing s with
  | nil => simp
  | cons i items ih =>
    obtain ⟨s₁, hs₁, hrest⟩ := Option.bind_eq_some_iff.mp h
    have hnow := hf i (List.mem_cons_self ..) s (Option.isSome_iff_exists.mpr ⟨s₁, hs₁⟩)
    exact List.forall_mem_cons.mpr ⟨hnow, ih (fun j hj => hf j (List.mem_cons_of_mem _ hj)) hrest⟩

theorem take_twin (hi : i.Legal d) {s s₁ : Devices.BodySlots DevId} {s' : Devices.BodySlots (Option DevId)}
    (h : Devices.BodySlots.take k s i = some s₁) (hbuses : s'.buses = s.buses) (hdevices : s'.devices = s.devices) :
    ∃ s₁', Devices.BodySlots.take k s' i = some s₁' ∧ s₁'.buses = s₁.buses ∧ s₁'.devices = s₁.devices := by
  by_cases hk : Devices.BodySlots.Known k
  · rcases hk.cases with rfl | rfl
    · obtain ⟨s₂, hs₂, h⟩ := Option.bind_eq_some_iff.mp h
      obtain ⟨items, hitems, h⟩ := Option.bind_eq_some_iff.mp h
      obtain ⟨hnone, u, -, rfl⟩ := slotted_some.mp hs₂
      have hlegal := Item.items?_legal hi hitems
      have hfits := foldItems_takes (P := Devices.busRule.Fits) (fun j hj s hs => by
        rwa [Devices.BodySlots.takeBus, Option.isSome_map, Devices.BusEntry.ofItem_isSome (hlegal j hj)] at hs) h
      have htaken := (foldItems_isSome (fun j hj s => Devices.BodySlots.takeBus_isSome (hlegal j hj) s)
        { s' with buses := some () }).mpr hfits
      obtain ⟨s₁', hs₁'⟩ := Option.isSome_iff_exists.mp htaken
      obtain ⟨hb, hd⟩ := Devices.BodySlots.foldItems_slots (fun _ _ _ => Devices.BodySlots.takeBus_slots) h
      obtain ⟨hb', hd'⟩ := Devices.BodySlots.foldItems_slots (fun _ _ _ => Devices.BodySlots.takeBus_slots) hs₁'
      refine ⟨s₁', ?_, hb'.trans hb.symm, ?_⟩
      · simp [Devices.BodySlots.take, slotted, hbuses, hnone, hitems, hs₁']
      · rw [hd', hd]
        exact hdevices
    · obtain ⟨s₂, hs₂, h⟩ := Option.bind_eq_some_iff.mp h
      obtain ⟨items, hitems, h⟩ := Option.bind_eq_some_iff.mp h
      obtain ⟨hnone, u, -, rfl⟩ := slotted_some.mp hs₂
      have hlegal := Item.items?_legal hi hitems
      have hfits := foldItems_takes (P := Devices.deviceRule.Fits) (fun j hj s hs => by
        rw [Devices.BodySlots.takeDevice, Option.isSome_map] at hs
        exact answered_device (hlegal j hj) hs) h
      have htaken := (foldItems_isSome (fun j hj s => Devices.BodySlots.takeDevice_isSome (hlegal j hj) s)
        { s' with devices := some () }).mpr hfits
      obtain ⟨s₁', hs₁'⟩ := Option.isSome_iff_exists.mp htaken
      obtain ⟨hb, hd⟩ := Devices.BodySlots.foldItems_slots (fun _ _ _ => Devices.BodySlots.takeDevice_slots) h
      obtain ⟨hb', hd'⟩ := Devices.BodySlots.foldItems_slots (fun _ _ _ => Devices.BodySlots.takeDevice_slots) hs₁'
      refine ⟨s₁', ?_, ?_, hd'.trans hd.symm⟩
      · simp [Devices.BodySlots.take, slotted, hdevices, hnone, hitems, hs₁']
      · rw [hb', hb]
        exact hbuses
  · rw [Devices.BodySlots.fills.passes k s i hk] at h
    obtain rfl := Option.some.inj h
    exact ⟨s', Devices.BodySlots.fills.passes k s' i hk, hbuses, hdevices⟩

theorem pairs_twin {pairs : List (Key × Item)} (hlegal : ∀ p ∈ pairs, p.2.Legal d) {s s₁ : Devices.BodySlots DevId}
    {t : Devices.BodySlots (Option DevId)} (h : foldPairs Devices.BodySlots.take pairs s = some s₁)
    (hbuses : t.buses = s.buses) (hdevices : t.devices = s.devices) :
    ∃ s₁', foldPairs Devices.BodySlots.take pairs t = some s₁' ∧ s₁'.buses = s₁.buses ∧ s₁'.devices = s₁.devices := by
  induction pairs generalizing s t with
  | nil =>
    obtain rfl := Option.some.inj h
    exact ⟨t, rfl, hbuses, hdevices⟩
  | cons p pairs ih =>
    obtain ⟨key, v⟩ := p
    obtain ⟨k, hkey, h⟩ := Option.bind_eq_some_iff.mp h
    obtain ⟨s₂, hs₂, h⟩ := Option.bind_eq_some_iff.mp h
    obtain ⟨s₂', hs₂', hb, hd⟩ := take_twin (hlegal _ (List.mem_cons_self ..)) hs₂ hbuses hdevices
    obtain ⟨s₁', hs₁', hb', hd'⟩ := ih (fun q hq => hlegal q (List.mem_cons_of_mem _ hq)) h hb hd
    refine ⟨s₁', ?_, hb', hd'⟩
    rw [foldPairs, hkey, Option.bind_some, hs₂', Option.bind_some, hs₁']

theorem answered_fits (hi : i.Legal maxDepth) {s : Devices.BodySlots DevId} (h : Devices.BodySlots.ofItem i = some s)
    (hbuses : s.buses.isSome) (hdevices : s.devices.isSome) : sectionRule.Fits i := by
  rw [← Devices.BodySlots.ofItem_result hi]
  obtain ⟨pairs, hpairs, h⟩ := Option.bind_eq_some_iff.mp h
  obtain ⟨s', hs', hb, hd⟩ := pairs_twin (t := .empty) (Item.pairs?_legal hi hpairs).2 h rfl rfl
  refine ⟨s', ?_, ?_, ?_⟩
  · rw [Devices.BodySlots.ofItem, hpairs, Option.bind_some, hs']
  · rw [hb]
    exact hbuses
  · rw [hd]
    exact hdevices

end

section

variable {δ : Type} [DevSlot δ]

theorem bodies_alike (hδ : Slotted δ) (body : Bytes)
    (hnarrow : ∀ i s, i.Legal maxDepth → i.spelling = body → Devices.BodySlots.ofItem (δ := δ) i = some s →
      s.buses.isSome → s.devices.isSome → narrow i = true) :
    (∃ seen t s, BodySlots.Same (δ := δ) seen t s ∧ Devices.BusesAndDevices.decode body = s.result ∧
      readBody (DevSlot.answer δ) body = t.result) ∨
    (∃ why refusal, Devices.BusesAndDevices.decode (δ := δ) body = .error why ∧
      readBody (DevSlot.answer δ) body = .error refusal ∧ sectionAnswer refusal = why.answer) := by
  rcases Devices.BusesAndDevices.decode_eq (δ := δ) body with ⟨i, s, hi, hspell, hs, hdecode⟩ | ⟨hnone, why, herror, hwhy⟩
  · rcases readBody_cases hδ body with ⟨j, s', t, seen, hj, hspell', -, hs', hsame, hread⟩ | ⟨hnone, refusal, hread, hrefusal⟩
    · obtain rfl := Item.spelling_inj hj hi (hspell'.trans hspell.symm)
      obtain rfl := Option.some.inj (hs.symm.trans hs')
      exact .inl ⟨seen, t, s, hsame, hdecode, hread⟩
    · have hpartial : ¬(s.buses.isSome ∧ s.devices.isSome) := by
        rintro ⟨hbuses, hdevices⟩
        rw [hnone i hi hspell (hnarrow i s hi hspell hs hbuses hdevices)] at hs
        cases hs
      have hresult : ∃ why, s.result = .error why ∧ why.answer = .malformedFrame := by
        unfold Devices.BodySlots.result
        cases hbuses : s.buses with
        | none => exact ⟨_, rfl, rfl⟩
        | some buses =>
          cases hdevices : s.devices with
          | none => exact ⟨_, rfl, rfl⟩
          | some devices => exact absurd (by simp [hbuses, hdevices]) hpartial
      obtain ⟨why, herror, hwhy⟩ := hresult
      exact .inr ⟨why, refusal, hdecode.trans herror, hread, hrefusal.trans hwhy.symm⟩
  · rcases readBody_cases hδ body with ⟨j, s', t, seen, hj, hspell', -, hs', -, -⟩ | ⟨-, refusal, hread, hrefusal⟩
    · rw [hnone j hj hspell'] at hs'
      cases hs'
    · exact .inr ⟨why, refusal, herror, hread, hrefusal.trans hwhy.symm⟩

end

/-- The two bindings' readers of one body, as a write and as an answer. -/
structure ReadAlike (body : Bytes) : Prop where
  write : Alike (fun r s => BusesAndDevices.Same s r) (Devices.BusesAndDevices.decode (δ := Option DevId) body)
    (decodeBusesAndDevicesWrite body)
  answer : Alike (fun r s => BusesAndDevices.Same (BusesAndDevicesRead.asWrite s) (Devices.BusesAndDevicesRead.asWrite r))
    (Devices.BusesAndDevices.decode (δ := DevId) body) (decodeBusesAndDevicesRead body)

theorem ReadAlike.narrowed {body : Bytes} (h : ReadAlike body) {i : Item} (hi : i.Legal maxDepth) (hspell : i.spelling = body)
    (hfits : sectionRule.Fits i) : narrow i = true := by
  have hwrite := h.write
  rcases readBody_cases write_slotted body with ⟨j, s, t, seen, hj, hspell', hnarrow, -⟩ | ⟨-, refusal, hread, hrefusal⟩
  · obtain rfl := Item.spelling_inj hj hi (hspell'.trans hspell.symm)
    exact hnarrow
  · change Alike _ _ (readBody (DevSlot.answer (Option DevId)) body) at hwrite
    rw [hread] at hwrite
    rcases Devices.BusesAndDevicesWrite.decode_cases body with ⟨hbroken, -⟩ | ⟨-, -, why, herror, hwhy⟩ | ⟨-, -, s, hok⟩
    · exact absurd ⟨i, hi, hspell, hfits⟩ hbroken
    · rw [herror] at hwrite
      cases hwrite with
      | refuses h =>
        rw [hrefusal, hwhy] at h
        cases h
    · rw [hok] at hwrite
      cases hwrite

theorem readAlike_narrow {body : Bytes}
    (hnarrow : ∀ i, i.Legal maxDepth → i.spelling = body → sectionRule.Fits i → narrow i = true) : ReadAlike body := by
  constructor
  · have hbodies := bodies_alike write_slotted body fun i s hi hspell hs hbuses hdevices =>
      hnarrow i hi hspell ((Devices.BodySlots.ofItem_result hi).mp ⟨s, hs, hbuses, hdevices⟩)
    change Alike _ _ (readBody (DevSlot.answer (Option DevId)) body)
    rcases hbodies with ⟨seen, t, s, hsame, hdecode, hread⟩ | ⟨why, refusal, hdecode, hread, hanswer⟩
    · rw [hdecode, hread]
      exact write_alike hsame
    · rw [hdecode, hread]
      exact .refuses hanswer
  · have hbodies := bodies_alike answer_slotted body fun i s hi hspell hs hbuses hdevices =>
      hnarrow i hi hspell (answered_fits hi hs hbuses hdevices)
    change Alike _ _ (readBody (DevSlot.answer DevId) body >>= ordered)
    rcases hbodies with ⟨seen, t, s, hsame, hdecode, hread⟩ | ⟨why, refusal, hdecode, hread, hanswer⟩
    · rw [hdecode, hread]
      exact answer_alike hsame
    · rw [hdecode, hread]
      exact .refuses hanswer

/-- They part only over a section whose skipped values hold a map key no `i64` holds. -/
theorem readers_agree (body : Bytes) :
    ReadAlike body ↔ ¬∃ i, i.Legal maxDepth ∧ i.spelling = body ∧ sectionRule.Fits i ∧ narrow i = false := by
  constructor
  · rintro h ⟨i, hi, hspell, hfits, hwide⟩
    rw [h.narrowed hi hspell hfits] at hwide
    cases hwide
  · intro hnone
    refine readAlike_narrow fun i hi hspell hfits => ?_
    by_contra hwide
    exact hnone ⟨i, hi, hspell, hfits, Bool.eq_false_iff.mpr hwide⟩

theorem narrowAll_iff (items : List Item) : narrowAll items = true ↔ ∀ i ∈ items, narrow i = true := by
  induction items with
  | nil => simp [narrowAll]
  | cons i items ih => rw [narrowAll, Bool.and_eq_true, ih, List.forall_mem_cons]

theorem narrowPairs_iff (pairs : List (Key × Item)) :
    narrowPairs pairs = true ↔ ∀ p ∈ pairs, p.1.i64?.isSome ∧ narrow p.2 = true := by
  induction pairs with
  | nil => simp [narrowPairs]
  | cons p pairs ih =>
    obtain ⟨k, v⟩ := p
    rw [narrowPairs, Bool.and_eq_true, Bool.and_eq_true, ih, List.forall_mem_cons]

section

variable {k : ℕ} {i : Item} {ps qs : List (Key × Item)}

theorem narrow_pair (hk : k ≤ Cbor.CborReader.i64Max) (hi : narrow i = true) (hps : narrowPairs ps = true) :
    narrowPairs ((Key.ofNat k, i) :: ps) = true := by
  rw [narrowPairs, Key.ofNat_i64 hk, hi, hps]
  rfl

theorem narrow_append (hps : narrowPairs ps = true) (hqs : narrowPairs qs = true) : narrowPairs (ps ++ qs) = true := by
  rw [narrowPairs_iff] at hps hqs ⊢
  exact List.forall_mem_append.mpr ⟨hps, hqs⟩

theorem narrow_optional {α : Type} (hk : k ≤ Cbor.CborReader.i64Max) {o : Option α} {f : α → Item} (hf : ∀ a, narrow (f a) = true) :
    narrowPairs (optionalPair k o f) = true := by
  cases o with
  | none => rfl
  | some a => exact narrow_pair hk (hf a) rfl

end

theorem bus_narrow (b : Devices.BusBody) : narrow b.item = true := by
  apply narrow_pair (by decide) rfl
  apply narrow_append (narrow_optional (by decide) fun _ => rfl)
  apply narrow_append (narrow_optional (by decide) fun _ => rfl)
  apply narrow_append (narrow_optional (by decide) fun _ => rfl)
  exact narrow_optional (by decide) fun _ => rfl

theorem options_narrow (o : Devices.OptionBody) : narrow o.item = true := by
  apply narrow_append (narrow_optional (by decide) fun _ => rfl)
  apply narrow_append (narrow_optional (by decide) fun _ => rfl)
  apply narrow_append (narrow_optional (by decide) fun _ => rfl)
  exact narrow_optional (by decide) fun _ => rfl

theorem device_narrow (d : Devices.DeviceBody) : narrow d.item = true := by
  have hoptions : narrowPairs (Devices.DeviceBody.optionsPair d.options) = true := by
    unfold Devices.DeviceBody.optionsPair
    split_ifs
    · rfl
    · exact narrow_pair (by decide) (options_narrow _) rfl
  apply narrow_append (narrow_optional (by decide) fun _ => rfl)
  apply narrow_pair (by decide) rfl
  apply narrow_append (narrow_optional (by decide) fun _ => rfl)
  apply narrow_pair (by decide) rfl
  apply narrow_pair (by decide) rfl
  apply narrow_pair (by decide) rfl
  exact narrow_append (narrow_optional (by decide) fun _ => rfl) hoptions

theorem body_narrow (b : Devices.Body) : narrow b.item = true := by
  have hbuses : narrow (.ofItems (b.buses.map Devices.BusBody.item)) = true := by
    apply (narrowAll_iff _).mpr
    simp [bus_narrow]
  have hdevices : narrow (.ofItems (b.devices.map Devices.DeviceBody.item)) = true := by
    apply (narrowAll_iff _).mpr
    simp [device_narrow]
  exact narrow_pair (by decide) hbuses (narrow_pair (by decide) hdevices rfl)

theorem body_alike {δ : Type} (r : Devices.BusesAndDevices δ) [DevSlot δ] : ReadAlike r.body.item.spelling := by
  refine readAlike_narrow fun i hi hspell _ => ?_
  obtain rfl := Item.spelling_inj hi (Devices.Body.item_legal r.body_carried) hspell
  exact body_narrow r.body

theorem Alike.taken {α β : Type} {R : α → β → Prop} {x : Except ConfigError α} {y : Except BusesAndDevicesRefusal β}
    (h : Alike R x y) {a : α} (hx : x = .ok a) : ∃ b, y = .ok b ∧ R a b := by
  cases h with
  | accepts h =>
    obtain rfl := Except.ok.inj hx
    exact ⟨_, rfl, h⟩
  | refuses => cases hx

theorem BusesAndDevices.Same.written {s : BusesAndDevicesWrite} {r : Devices.BusesAndDevicesWrite} (h : s.Same r) :
    encodeBusesAndDevices s = .ok r.body.item.spelling := by
  refine (encodeBusesAndDevices_ok s _).mpr ⟨h.carried, ?_⟩
  rw [h.body]

theorem write_ascends (r : Devices.BusesAndDevicesWrite) : r.ascending = .ok () := if_pos (by simp [DevSlot.answer])

/-- One section in both bindings: either encoder writes the same bytes, and either reader reads it out of them. -/
theorem sections_cross :
    (∀ (s : BusesAndDevicesWrite) (r : Devices.BusesAndDevicesWrite), s.Same r → (∀ e ∈ r.buses, e.Set) →
      ∃ bytes, encodeBusesAndDevices s = .ok bytes ∧ (∀ capacity, bytes.length ≤ capacity → r.encode capacity = .ok bytes) ∧
        Devices.BusesAndDevices.decode bytes = .ok r ∧
        ∃ s', decodeBusesAndDevicesWrite bytes = .ok s' ∧ BusesAndDevices.Same s' r) ∧
    ∀ (s : BusesAndDevicesRead) (r : Devices.BusesAndDevicesRead),
      BusesAndDevices.Same (BusesAndDevicesRead.asWrite s) (Devices.BusesAndDevicesRead.asWrite r) →
      (∀ e ∈ r.buses, e.Set) → r.ascending = .ok () →
      ∃ bytes, encodeBusesAndDevices (BusesAndDevicesRead.asWrite s) = .ok bytes ∧
        (∀ capacity, bytes.length ≤ capacity → r.encode capacity = .ok bytes) ∧
        Devices.BusesAndDevices.decode bytes = .ok r ∧
        ∃ s', decodeBusesAndDevicesRead bytes = .ok s' ∧
          BusesAndDevices.Same (BusesAndDevicesRead.asWrite s') (Devices.BusesAndDevicesRead.asWrite r) := by
  constructor
  · intro s r h hset
    have hdecode := Devices.BusesAndDevices.decode_body hset (write_ascends r)
    exact ⟨_, h.written, fun _ => r.encode_ok (write_ascends r), hdecode, (body_alike r).write.taken hdecode⟩
  · intro s r h hset hasc
    have hdecode := Devices.BusesAndDevices.decode_body hset hasc
    have hwritten := h.written
    rw [Devices.BusesAndDevicesRead.asWrite_body] at hwritten
    exact ⟨_, hwritten, fun _ => r.encode_ok hasc, hdecode, (body_alike r).answer.taken hdecode⟩

theorem sections_cross_one :
    (∃ bytes, encodeBusesAndDevices ⟨[⟨1, some 9600, none, none, none⟩], [⟨none, 1, none, 2, 3, 4, none, none⟩]⟩ = .ok bytes ∧
      ∃ r, Devices.BusesAndDevices.decode (δ := Option DevId) bytes = .ok r ∧ r.buses.length = 1 ∧ r.devices.length = 1) ∧
    ∃ bytes, encodeBusesAndDevices (BusesAndDevicesRead.asWrite ⟨[], [⟨5, 1, none, 2, 3, 4, none, none⟩]⟩) = .ok bytes ∧
      ∃ r, Devices.BusesAndDevices.decode (δ := DevId) bytes = .ok r ∧ r.devices.length = 1 := by
  constructor
  · obtain ⟨bytes, hbytes, -, hdecode, -⟩ := sections_cross.1
      ⟨[⟨1, some 9600, none, none, none⟩], [⟨none, 1, none, 2, 3, 4, none, none⟩]⟩
      ⟨[⟨1, some ⟨9600, by decide⟩, none, none, none⟩], [⟨none, 1, none, 2, 3, 4, none, .none⟩], by decide, by decide⟩
      ⟨.cons ⟨rfl, rfl, rfl, rfl, rfl⟩ .nil, .cons ⟨rfl, rfl, rfl, rfl, rfl, rfl, rfl, ⟨rfl, rfl, rfl, rfl⟩⟩ .nil⟩
      (by simp [Devices.BusEntry.Set])
    exact ⟨bytes, hbytes, _, hdecode, rfl, rfl⟩
  · obtain ⟨bytes, hbytes, -, hdecode, -⟩ := sections_cross.2 ⟨[], [⟨5, 1, none, 2, 3, 4, none, none⟩]⟩
      ⟨[], [⟨⟨5, by decide⟩, 1, none, 2, 3, 4, none, .none⟩], by decide, by decide⟩
      ⟨.nil, .cons ⟨rfl, rfl, rfl, rfl, rfl, rfl, rfl, ⟨rfl, rfl, rfl, rfl⟩⟩ .nil⟩ (by simp) (by decide)
    exact ⟨bytes, hbytes, _, hdecode, rfl⟩

/-- A body is read alike exactly where it is no section that holds, in a value that is skipped, a map key wider than an
`i64`; a section of both bindings is written as the same bytes. -/
theorem bindings_agree_iff (body : Bytes) :
    (ReadAlike body ↔ ∀ i, i.Legal maxDepth → i.spelling = body → sectionRule.Fits i → narrow i = true) ∧
    (∀ (s : BusesAndDevicesWrite) (r : Devices.BusesAndDevicesWrite), s.Same r →
      ∃ bytes, encodeBusesAndDevices s = .ok bytes ∧ ∀ capacity, bytes.length ≤ capacity → r.encode capacity = .ok bytes) ∧
    ∀ (s : BusesAndDevicesRead) (r : Devices.BusesAndDevicesRead),
      BusesAndDevices.Same (BusesAndDevicesRead.asWrite s) (Devices.BusesAndDevicesRead.asWrite r) → r.ascending = .ok () →
      ∃ bytes, encodeBusesAndDevices (BusesAndDevicesRead.asWrite s) = .ok bytes ∧
        ∀ capacity, bytes.length ≤ capacity → r.encode capacity = .ok bytes := by
  refine ⟨⟨fun h i hi hspell hfits => h.narrowed hi hspell hfits, readAlike_narrow⟩, ?_, ?_⟩
  · intro s r h
    exact ⟨_, h.written, fun _ => r.encode_ok (write_ascends r)⟩
  · intro s r h hasc
    have hwritten := h.written
    rw [Devices.BusesAndDevicesRead.asWrite_body] at hwritten
    exact ⟨_, hwritten, fun _ => r.encode_ok hasc⟩

def skippedKey (n : ℕ) : Item := .ofPairs [(Key.ofNat 1, .ofItems []), (Key.ofNat 2, .ofItems []),
  (Key.ofNat 9, .ofPairs [(Key.ofNat n, .ofItems [])])]

theorem skippedKey_legal {n : ℕ} (h : n < 2 ^ 64) : (skippedKey n).Legal maxDepth := by
  have hshort : ∀ k ≤ 9, (Width.of k).Holds k := by decide
  simp [skippedKey, Item.ofPairs, Item.ofItems, Item.Legal, maxDepth, Key.Legal, Key.rank, Key.ofNat, hshort,
    Width.of_holds h]

theorem skippedKey_fits (n : ℕ) : sectionRule.Fits (skippedKey n) := by
  refine ⟨_, rfl, ?_, ⟨_, List.mem_cons_self, rfl⟩, _, .tail _ (.head _), rfl⟩
  simp only [List.forall_mem_cons, List.not_mem_nil, false_imp_iff, implies_true, and_true]
  exact ⟨⟨1, rfl, fun _ => ⟨[], rfl, by simp⟩, by simp⟩, ⟨2, rfl, by simp, fun _ => ⟨[], rfl, by simp⟩⟩,
    ⟨9, rfl, by simp, by simp⟩⟩

theorem skippedKey_within (n : ℕ) : sectionRule.Within (skippedKey n) := by
  refine ⟨_, rfl, ?_⟩
  simp only [List.forall_mem_cons, List.not_mem_nil, false_imp_iff, implies_true, and_true]
  refine ⟨?_, ?_, ?_⟩
  · rintro k ⟨⟩
    exact ⟨fun _ => ⟨[], rfl, by simp⟩, fun hk => absurd hk (by decide)⟩
  · rintro k ⟨⟩
    exact ⟨fun hk => absurd hk (by decide), fun _ => ⟨[], rfl, by simp⟩⟩
  · rintro k ⟨⟩
    exact ⟨fun hk => absurd hk (by decide), fun hk => absurd hk (by decide)⟩

def wideKey : Bytes := [0xA3, 0x01, 0x80, 0x02, 0x80, 0x09, 0xA1, 0x1B, 0x80, 0, 0, 0, 0, 0, 0, 0, 0x80]

theorem wideKey_spelled : (skippedKey (2 ^ 63)).spelling = wideKey := by decide

/-- A key of 2^63 in a skipped map: the controller takes the section, the client finds the frame malformed. -/
theorem wide_key_parts :
    (∃ r, Devices.BusesAndDevices.decode (δ := Option DevId) wideKey = .ok r) ∧
    (∃ why, decodeBusesAndDevicesWrite wideKey = .error why ∧ sectionAnswer why = .malformedFrame) ∧
    ¬∀ body, ReadAlike body := by
  have hlegal : (skippedKey (2 ^ 63)).Legal maxDepth := skippedKey_legal (by decide)
  have hwide : narrow (skippedKey (2 ^ 63)) = false := by decide
  refine ⟨?_, ?_, fun hall => ?_⟩
  · rcases Devices.BusesAndDevicesWrite.decode_cases wideKey with ⟨hbroken, -⟩ | ⟨-, houtside, -⟩ | ⟨-, -, hok⟩
    · exact absurd ⟨_, hlegal, wideKey_spelled, skippedKey_fits _⟩ hbroken
    · exact absurd ⟨_, hlegal, wideKey_spelled, skippedKey_within _⟩ houtside
    · exact hok
  · rcases readBody_cases write_slotted wideKey with ⟨i, s, t, seen, hi, hspell, hnarrow, -⟩ | ⟨-, hrefused⟩
    · obtain rfl := Item.spelling_inj hi hlegal (hspell.trans wideKey_spelled.symm)
      rw [hwide] at hnarrow
      cases hnarrow
    · exact hrefused
  · have hnarrow := (hall wideKey).narrowed hlegal wideKey_spelled (skippedKey_fits _)
    rw [hwide] at hnarrow
    cases hnarrow

theorem bindings_agree_narrow : ReadAlike (skippedKey (2 ^ 63 - 1)).spelling := by
  refine (bindings_agree_iff _).1.mpr fun i hi hspell _ => ?_
  obtain rfl := Item.spelling_inj hi (skippedKey_legal (by decide)) hspell
  decide

end Km43.Ts
