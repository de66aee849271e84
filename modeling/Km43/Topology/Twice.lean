import Km43.Topology.Order

namespace Km43.Topology

open Library Cbor CborReader Inventory

abbrev EntryId := UInt8 ⊕ UInt16

def Clash : Piece → Piece → Prop
  | .device a, .device b => Shares a b
  | .bus bus transport, .device d => d.bus = bus ∧ transport.addressed = true ∧ d.addr = none
  | .device d, .bus bus transport => d.bus = bus ∧ transport.addressed = true ∧ d.addr = none
  | _, _ => False

def lastOf (pieces : List Piece) (id : EntryId) : Option Piece := pieces.reverse.find? fun piece => piece.id? = some id

theorem lastOf_cons (piece : Piece) (pieces : List Piece) (id : EntryId) :
    lastOf (piece :: pieces) id = (lastOf pieces id).or (if piece.id? = some id then some piece else none) := by
  unfold lastOf
  rw [List.reverse_cons, List.find?_append]
  by_cases h : piece.id? = some id
  · simp [h]
  · simp [h]

theorem lastOf_mem {pieces : List Piece} {id : EntryId} {piece : Piece} (h : lastOf pieces id = some piece) :
    piece ∈ pieces ∧ piece.id? = some id :=
  ⟨List.mem_reverse.mp (List.mem_of_find?_eq_some h), by simpa using List.find?_some h⟩

theorem lastOf_snoc (pieces : List Piece) (piece : Piece) (id : EntryId) :
    lastOf (pieces ++ [piece]) id = if piece.id? = some id then some piece else lastOf pieces id := by
  unfold lastOf
  rw [List.reverse_append, List.reverse_singleton, List.singleton_append, List.find?_cons]
  by_cases h : piece.id? = some id
  · simp [h]
  · simp [h]

theorem lastOf_none {pieces : List Piece} {id : EntryId} : lastOf pieces id = none ↔ id ∉ idsOf pieces := by
  unfold lastOf idsOf
  simp [List.find?_eq_none, List.mem_filterMap]

/-- No piece clashes with the one that an entry listed only after it ends with. -/
def Settled (pieces : List Piece) : Prop :=
  ∀ before piece after, pieces = before ++ piece :: after → ∀ id last, lastOf pieces id = some last →
    id ∉ idsOf (before ++ [piece]) → ¬Clash piece last

def Good (entries : EntryId → Option Piece) : Prop :=
  ∀ i j p q, i ≠ j → entries i = some p → entries j = some q → ¬Clash p q

theorem Clash.symm {p q : Piece} (h : Clash p q) : Clash q p := by
  cases p with
  | device a =>
    cases q with
    | device b => exact Shares.symm h
    | bus b transport => exact h
    | nothing => exact h
  | bus b transport =>
    cases q with
    | device d => exact h
    | bus b' transport' => exact h
    | nothing => exact h
  | nothing => cases q <;> exact h

namespace ReceivedTopology

variable {capacity : ℕ} {t t' : ReceivedTopology capacity} {piece : Piece} {pieces : List Piece}

def entry (t : ReceivedTopology capacity) : EntryId → Option Piece
  | .inl bus => (t.buses bus).map (.bus bus)
  | .inr dev => (t.held.find? fun d => d.dev = dev).map .device

theorem entry_bus {bus : UInt8} {p : Piece} : t.entry (.inl bus) = some p ↔
    ∃ transport, t.buses bus = some transport ∧ p = .bus bus transport := by
  unfold entry
  rw [Option.map_eq_some_iff]
  apply exists_congr
  intro transport
  rw [eq_comm (a := p)]

theorem entry_device (hu : (t.held.map HeldDevice.dev).Nodup) {dev : UInt16} {p : Piece} :
    t.entry (.inr dev) = some p ↔ ∃ d ∈ t.held, d.dev = dev ∧ p = .device d := by
  unfold entry
  rw [Option.map_eq_some_iff]
  constructor
  · rintro ⟨d, hd, rfl⟩
    exact ⟨d, List.mem_of_find?_eq_some hd, by simpa using List.find?_some hd, rfl⟩
  · rintro ⟨d, hd, hdev, rfl⟩
    refine ⟨d, ?_, rfl⟩
    cases hfind : t.held.find? fun d => d.dev = dev with
    | none => exact absurd hdev (by simpa using List.find?_eq_none.mp hfind d hd)
    | some other =>
      have hother : other.dev = dev := by simpa using List.find?_some hfind
      have hmem := List.mem_of_find?_eq_some hfind
      exact congrArg some (List.inj_on_of_nodup_map hu hmem hd (hother.trans hdev.symm))

theorem placed_good (hu : (t.held.map HeldDevice.dev).Nodup) : Placed t.buses t.held ↔ Good t.entry := by
  constructor
  · rintro hplaced i j p q hij hp hq hclash
    cases i with
    | inl bus =>
      obtain ⟨transport, hbus, rfl⟩ := entry_bus.mp hp
      cases j with
      | inl other =>
        obtain ⟨transport', _, rfl⟩ := entry_bus.mp hq
        exact hclash
      | inr dev =>
        obtain ⟨d, hd, -, rfl⟩ := (entry_device hu).mp hq
        obtain ⟨rfl, haddressed, hnone⟩ := hclash
        have hsome := hplaced.addressed d hd transport hbus haddressed
        simp [hnone] at hsome
    | inr dev =>
      obtain ⟨d, hd, hdev, rfl⟩ := (entry_device hu).mp hp
      cases j with
      | inl bus =>
        obtain ⟨transport, hbus, rfl⟩ := entry_bus.mp hq
        obtain ⟨rfl, haddressed, hnone⟩ := hclash
        have hsome := hplaced.addressed d hd transport hbus haddressed
        simp [hnone] at hsome
      | inr other =>
        obtain ⟨d', hd', hdev', rfl⟩ := (entry_device hu).mp hq
        have hne : d ≠ d' := by
          rintro rfl
          exact hij (by rw [← hdev, ← hdev'])
        have hsymm : Std.Symm fun a b => ¬Shares a b := ⟨fun _ _ h hba => h hba.symm⟩
        exact hplaced.apart.forall hd hd' hne hclash
  · intro hgood
    constructor
    · intro d hd transport hbus haddressed
      cases haddr : d.addr with
      | some addr => rfl
      | none =>
        have hne : (Sum.inl d.bus : EntryId) ≠ .inr d.dev := nofun
        exact absurd ⟨rfl, haddressed, haddr⟩ (hgood _ _ _ _ hne (entry_bus.mpr ⟨transport, hbus, rfl⟩)
          ((entry_device hu).mpr ⟨d, hd, rfl, rfl⟩))
    · apply List.Nodup.pairwise_of_forall_ne (hu.of_map _)
      intro a ha b hb hab hshares
      have hne : (Sum.inr a.dev : EntryId) ≠ .inr b.dev := fun h =>
        hab (List.inj_on_of_nodup_map hu ha hb (Sum.inr.inj h))
      exact hgood _ _ _ _ hne ((entry_device hu).mpr ⟨a, ha, rfl, rfl⟩) ((entry_device hu).mpr ⟨b, hb, rfl, rfl⟩)
        hshares

theorem put_entry (hu : (t.held.map HeldDevice.dev).Nodup) (h : t.put piece = .ok t') (id : EntryId) :
    t'.entry id = if piece.id? = some id then some piece else t.entry id := by
  have hu' := put_unique hu h
  cases piece with
  | nothing =>
    cases h
    rfl
  | bus bus transport =>
    cases h
    cases id with
    | inl other =>
      by_cases hsame : bus = other
      · subst hsame
        simp [entry, holdBus, Piece.id?]
      · simp [entry, holdBus, Piece.id?, hsame, Function.update_of_ne (Ne.symm hsame)]
    | inr dev => rfl
  | device device =>
    obtain ⟨hstore, -, hbuses⟩ := holdDevice_ok h
    have hmem : ∀ d, d ∈ t'.held ↔ d = device ∨ d ∈ t.held ∧ d.dev ≠ device.dev := fun d =>
      SlotTable.store_mem_iff hu hstore
    cases id with
    | inl bus => simp [entry, hbuses, Piece.id?]
    | inr dev =>
      apply Option.ext
      intro p
      rw [entry_device hu']
      by_cases hsame : device.dev = dev
      · subst hsame
        rw [if_pos (show (Piece.device device).id? = some (.inr device.dev) from rfl), Option.some.injEq]
        constructor
        · rintro ⟨d, hd, hdev, rfl⟩
          rcases (hmem d).mp hd with rfl | ⟨-, hne⟩
          · rfl
          · exact absurd hdev hne
        · rintro rfl
          exact ⟨device, (hmem device).mpr (.inl rfl), rfl, rfl⟩
      · rw [if_neg (by simpa [Piece.id?] using hsame), entry_device hu]
        constructor
        · rintro ⟨d, hd, hdev, rfl⟩
          rcases (hmem d).mp hd with rfl | ⟨hd, -⟩
          · exact absurd hdev hsame
          · exact ⟨d, hd, hdev, rfl⟩
        · rintro ⟨d, hd, rfl, rfl⟩
          exact ⟨d, (hmem d).mpr (.inr ⟨hd, Ne.symm hsame⟩), rfl, rfl⟩

theorem putJudged_iff (hu : (t.held.map HeldDevice.dev).Nodup) : t.putJudged piece = .ok t' ↔
    t.put piece = .ok t' ∧ Good t'.entry := by
  rw [putJudged_ok]
  apply and_congr_right
  intro h
  exact placed_good (put_unique hu h)

def entryAfter (t : ReceivedTopology capacity) (pieces : List Piece) (id : EntryId) : Option Piece :=
  (lastOf pieces id).or (t.entry id)

theorem entryAfter_cons (hu : (t.held.map HeldDevice.dev).Nodup) (h : t.put piece = .ok t') (rest : List Piece) :
    t.entryAfter (piece :: rest) = t'.entryAfter rest := by
  funext id
  rw [entryAfter, entryAfter, lastOf_cons, put_entry hu h, Option.or_assoc]
  by_cases hid : piece.id? = some id
  · simp [hid]
  · simp [hid]

theorem pieces_entry (hu : (t.held.map HeldDevice.dev).Nodup) (h : pieces.foldlM putJudged t = .ok t') :
    t'.entry = t.entryAfter pieces ∧ ∀ before piece after, pieces = before ++ piece :: after →
      Good (t.entryAfter (before ++ [piece])) := by
  induction pieces generalizing t with
  | nil =>
    cases h
    exact ⟨rfl, by simp⟩
  | cons first rest ih =>
    obtain ⟨t₁, h₁, h⟩ := bind_ok.mp h
    obtain ⟨hput, hgood⟩ := (putJudged_iff hu).mp h₁
    obtain ⟨hentry, hall⟩ := ih (put_unique hu hput) h
    refine ⟨hentry.trans (entryAfter_cons hu hput rest).symm, fun before piece after hsplit => ?_⟩
    cases before with
    | nil =>
      obtain ⟨rfl, -⟩ := List.cons.inj hsplit
      rw [List.nil_append, entryAfter_cons hu hput]
      exact hgood
    | cons x before =>
      obtain ⟨rfl, hrest⟩ := List.cons.inj hsplit
      rw [List.cons_append, entryAfter_cons hu hput]
      exact hall before piece after hrest

theorem pieces_taken (hu : (t.held.map HeldDevice.dev).Nodup)
    (hheld : ∀ d, .device d ∈ pieces → d.dev ∈ t.held.map HeldDevice.dev)
    (hgood : ∀ before piece after, pieces = before ++ piece :: after → Good (t.entryAfter (before ++ [piece]))) :
    ∃ t', pieces.foldlM putJudged t = .ok t' ∧
      t'.devices.map (Option.map HeldDevice.dev) = t.devices.map (Option.map HeldDevice.dev) := by
  induction pieces generalizing t with
  | nil => exact ⟨t, rfl, rfl⟩
  | cons first rest ih =>
    obtain ⟨t₁, hput, hkeys⟩ : ∃ t₁, t.put first = .ok t₁ ∧
        t₁.devices.map (Option.map HeldDevice.dev) = t.devices.map (Option.map HeldDevice.dev) := by
      cases first with
      | bus bus transport => exact ⟨_, rfl, rfl⟩
      | nothing => exact ⟨t, rfl, rfl⟩
      | device device =>
        obtain ⟨devices, hstore, hkeys⟩ := SlotTable.store_kept (hheld device List.mem_cons_self)
        obtain ⟨t₁, ht₁⟩ : ∃ t₁, t.holdDevice device = .ok t₁ := by
          unfold holdDevice
          split
          · exact ⟨_, rfl⟩
          · rename_i hnone
            rw [hstore] at hnone
            cases hnone
        have hsame := (holdDevice_ok ht₁).1
        rw [hstore, Option.some.injEq] at hsame
        exact ⟨t₁, ht₁, hsame ▸ hkeys⟩
    have hfirst : Good t₁.entry := by
      have h := hgood [] first rest rfl
      rwa [List.nil_append, entryAfter_cons hu hput] at h
    have hdevs : t₁.held.map HeldDevice.dev = t.held.map HeldDevice.dev := by
      unfold held SlotTable.held
      rw [← List.reduceOption_map, hkeys, List.reduceOption_map]
    obtain ⟨t', hrest, hkeys'⟩ := ih (put_unique hu hput) (fun d hd => hdevs ▸ hheld d (List.mem_cons_of_mem _ hd))
      fun before piece after hsplit => by
        have h := hgood (first :: before) piece after (by rw [hsplit]; rfl)
        rwa [List.cons_append, entryAfter_cons hu hput] at h
    exact ⟨t', bind_ok.mpr ⟨t₁, (putJudged_iff hu).mpr ⟨hput, hfirst⟩, hrest⟩, hkeys'.trans hkeys⟩

theorem same_of_entry (hu : (t.held.map HeldDevice.dev).Nodup) (hrev : t'.rev = t.rev) (hentry : t'.entry = t.entry)
    (hkeys : t'.devices.map (Option.map HeldDevice.dev) = t.devices.map (Option.map HeldDevice.dev)) : t' = t := by
  have hdevs : t'.held.map HeldDevice.dev = t.held.map HeldDevice.dev := by
    unfold held SlotTable.held
    rw [← List.reduceOption_map, hkeys, List.reduceOption_map]
  have hu' : (t'.held.map HeldDevice.dev).Nodup := hdevs ▸ hu
  have hbuses : t'.buses = t.buses := by
    funext bus
    apply Option.map_injective (f := Piece.bus bus)
    · intro x y hxy
      exact (Piece.bus.inj hxy).2
    · exact congrFun hentry (.inl bus)
  have hdevices : t'.devices = t.devices := by
    apply List.ext_getElem?
    intro i
    have hkey := congrArg (fun l => l[i]?) hkeys
    simp only [List.getElem?_map] at hkey
    cases h : t.devices[i]? with
    | none =>
      rw [h] at hkey
      exact Option.map_eq_none_iff.mp hkey
    | some slot =>
      rw [h] at hkey
      obtain ⟨slot', h', hslot⟩ := Option.map_eq_some_iff.mp hkey
      rw [h']
      cases slot with
      | none =>
        rw [Option.map_none, Option.map_eq_none_iff] at hslot
        rw [hslot]
      | some d =>
        obtain ⟨d', rfl, hdev⟩ := Option.map_eq_some_iff.mp hslot
        have hd : d ∈ t.held := SlotTable.mem_held.mpr (List.mem_of_getElem? h)
        have hd' : d' ∈ t'.held := SlotTable.mem_held.mpr (List.mem_of_getElem? h')
        have hsame := congrFun hentry (.inr d.dev)
        rw [(entry_device hu').mpr ⟨d', hd', hdev, rfl⟩, (entry_device hu).mpr ⟨d, hd, rfl, rfl⟩] at hsame
        rw [Piece.device.inj (Option.some.inj hsame)]
  obtain ⟨rev, buses, devices, room⟩ := t
  obtain ⟨rev', buses', devices', room'⟩ := t'
  cases hrev
  cases hbuses
  cases hdevices
  rfl

theorem entryAfter_listed {id : EntryId} (h : id ∈ idsOf pieces) : t.entryAfter pieces id = lastOf pieces id := by
  cases hlast : lastOf pieces id with
  | none => exact absurd h (lastOf_none.mp hlast)
  | some p => rw [entryAfter, hlast, Option.some_or]

theorem entryAfter_unlisted {id : EntryId} (h : id ∉ idsOf pieces) : t.entryAfter pieces id = t.entry id := by
  rw [entryAfter, lastOf_none.mpr h, Option.none_or]

theorem mem_idsOf {id : EntryId} : id ∈ idsOf pieces ↔ ∃ p ∈ pieces, p.id? = some id := List.mem_filterMap

theorem settled_apart {before after : List Piece} (hsplit : pieces = before ++ piece :: after) (hsettled : Settled pieces)
    (hfirst : Good (t.entryAfter (before ++ [piece]))) {i j : EntryId} {p q : Piece}
    (hi : i ∈ idsOf (before ++ [piece])) (hj : j ∉ idsOf (before ++ [piece]))
    (hp : lastOf (before ++ [piece]) i = some p) (hq : t.entryAfter pieces j = some q) : ¬Clash p q := by
  by_cases hlisted : j ∈ idsOf pieces
  · rw [entryAfter_listed hlisted] at hq
    obtain ⟨b, a, hba⟩ := List.append_of_mem (lastOf_mem hp).1
    have hwhole : pieces = b ++ p :: (a ++ after) := by
      rw [hsplit, List.append_cons, hba, List.append_assoc]
      rfl
    refine hsettled b p (a ++ after) hwhole j q hq fun hmem => hj ?_
    rw [hba]
    obtain ⟨x, hx, hid⟩ := mem_idsOf.mp hmem
    refine mem_idsOf.mpr ⟨x, ?_, hid⟩
    rcases List.mem_append.mp hx with hx | hx
    · exact List.mem_append_left _ hx
    · obtain rfl := List.mem_singleton.mp hx
      simp
  · have hij : i ≠ j := by
      rintro rfl
      exact hj hi
    rw [entryAfter_unlisted hlisted] at hq
    exact hfirst i j p q hij ((entryAfter_listed hi).trans hp) ((entryAfter_unlisted hj).trans hq)

theorem pieces_twice (hs : t.Sound) (h : pieces.foldlM putJudged t = .ok t') :
    pieces.foldlM putJudged t' = .ok t' ↔ Settled pieces := by
  have hs' := pieces_sound hs h
  obtain ⟨hentry, hgood⟩ := pieces_entry hs.unique h
  constructor
  · intro htwice before piece after hsplit id last hlast hid hclash
    obtain ⟨a, ha⟩ : ∃ a, piece.id? = some a := by
      cases piece with
      | nothing => exact absurd hclash (by cases last <;> exact not_false)
      | bus bus transport => exact ⟨_, rfl⟩
      | device device => exact ⟨_, rfl⟩
    have hlisted : a ∈ idsOf (before ++ [piece]) := mem_idsOf.mpr ⟨piece, by simp, ha⟩
    have hne : a ≠ id := by
      rintro rfl
      exact hid hlisted
    refine (pieces_entry hs'.unique htwice).2 before piece after hsplit a id piece last hne ?_ ?_ hclash
    · rw [entryAfter_listed hlisted, lastOf_snoc, if_pos ha]
    · rw [entryAfter_unlisted hid, hentry, entryAfter, hlast, Option.some_or]
  · intro hsettled
    have hheld : ∀ d, .device d ∈ pieces → d.dev ∈ t'.held.map HeldDevice.dev := by
      intro d hd
      have hlisted : (.inr d.dev : EntryId) ∈ idsOf pieces := mem_idsOf.mpr ⟨_, hd, rfl⟩
      obtain ⟨p, hp⟩ : ∃ p, lastOf pieces (.inr d.dev) = some p := by
        rw [← Option.ne_none_iff_exists']
        exact fun hnone => lastOf_none.mp hnone hlisted
      have hheld : t'.entry (.inr d.dev) = some p := by
        rw [hentry, entryAfter_listed hlisted, hp]
      obtain ⟨d', hd', hdev, -⟩ := (entry_device hs'.unique).mp hheld
      exact List.mem_map.mpr ⟨d', hd', hdev⟩
    have hagain : ∀ before piece after, pieces = before ++ piece :: after → Good (t'.entryAfter (before ++ [piece])) := by
      intro before piece after hsplit i j p q hij hp hq
      have hfirst := hgood before piece after hsplit
      by_cases hi : i ∈ idsOf (before ++ [piece])
      · rw [entryAfter_listed hi] at hp
        by_cases hj : j ∈ idsOf (before ++ [piece])
        · rw [entryAfter_listed hj] at hq
          exact hfirst i j p q hij ((entryAfter_listed hi).trans hp) ((entryAfter_listed hj).trans hq)
        · rw [entryAfter_unlisted hj, hentry] at hq
          exact settled_apart hsplit hsettled hfirst hi hj hp hq
      · rw [entryAfter_unlisted hi] at hp
        by_cases hj : j ∈ idsOf (before ++ [piece])
        · rw [entryAfter_listed hj] at hq
          rw [hentry] at hp
          exact fun hclash => settled_apart hsplit hsettled hfirst hj hi hq hp hclash.symm
        · rw [entryAfter_unlisted hj] at hq
          exact (placed_good hs'.unique).mp hs'.placed i j p q hij hp hq
    obtain ⟨t'', htwice, hkeys⟩ := pieces_taken hs'.unique hheld hagain
    have hsame : t''.entry = t'.entry := by
      funext id
      rw [(pieces_entry hs'.unique htwice).1]
      by_cases hid : id ∈ idsOf pieces
      · rw [entryAfter_listed hid, hentry, entryAfter_listed hid]
      · rw [entryAfter_unlisted hid]
    rw [htwice, same_of_entry hs'.unique (pieces_from htwice).rev hsame hkeys]

theorem page_ok {payload : Bytes} {header : InventoryHeader} :
    t.page payload = (.ok header, t') ↔ t.taken payload = .ok (header, t') := by
  unfold page
  cases t.taken payload with
  | error why => simp
  | ok p =>
    obtain ⟨header', next⟩ := p
    simp

/-- A page that was accepted is accepted again at once, and changes nothing, exactly where no row of it clashes with
the one that a device listed only after it ends the page with. -/
theorem page_twice (hs : t.Sound) {payload : Bytes} {header : InventoryHeader}
    (h : t.page payload = (.ok header, t')) : t'.page payload = (.ok header, t') ↔ Settled (saidBy payload) := by
  obtain ⟨said, hpage, hput⟩ := taken_ok.mp (page_ok.mp h)
  rw [page_ok, taken_ok]
  cases said with
  | none =>
    cases hput
    rw [saidBy_none hpage]
    refine iff_of_true ⟨none, hpage, rfl⟩ ?_
    intro before piece after hsplit
    simp at hsplit
  | some pieces =>
    have honto : t'.onto header.rev = t' := by
      rw [onto, if_pos ((pieces_from hput).rev.trans (onto_rev t header.rev))]
    rw [saidBy_some hpage, ← pieces_twice (onto_sound hs header.rev) hput]
    constructor
    · rintro ⟨said, hpage', hput'⟩
      rw [hpage] at hpage'
      cases hpage'
      rwa [putPage, honto] at hput'
    · intro htwice
      exact ⟨some pieces, hpage, by rwa [putPage, honto]⟩

/-- After any run of pages: a page that is accepted is accepted again at once, and changes nothing, exactly where no
row of it clashes with the one that a device listed only after it ends the page with. -/
theorem page_twice_iff (capacity : ℕ) (pages : List Bytes) (payload : Bytes) (header : InventoryHeader)
    (h : ((reached capacity pages).page payload).1 = .ok header) :
    ((reached capacity pages).page payload).2.page payload = (.ok header, ((reached capacity pages).page payload).2) ↔
      Settled (saidBy payload) := by
  apply page_twice (reached_kept capacity pages).1
  rw [← h]

theorem settled_unclashed {pieces : List Piece} (h : ∀ p ∈ pieces, ∀ q ∈ pieces, p.id? ≠ q.id? → ¬Clash p q) :
    Settled pieces := by
  intro before p after hsplit id last hlast hid
  obtain ⟨hmem, hlisted⟩ := lastOf_mem hlast
  have hp : p ∈ pieces := by simp [hsplit]
  apply h p hp last hmem
  intro hsame
  exact hid (mem_idsOf.mpr ⟨p, by simp, hsame.trans hlisted⟩)

theorem page_twice_iff_amended : ∃ header, ((reached heldDevices []).page amendedPage).1 = .ok header ∧
    ((reached heldDevices []).page amendedPage).2.page amendedPage =
      (.ok header, ((reached heldDevices []).page amendedPage).2) := by
  have hok : ((reached heldDevices []).page amendedPage).1.isOk = true := by decide +kernel
  have hids : (saidBy amendedPage).map Piece.id? = [some (.inr 7), some (.inr 7)] := by decide +kernel
  have hone : ∀ p ∈ saidBy amendedPage, p.id? = some (.inr 7) := by
    intro p hp
    have hmem := List.mem_map_of_mem (f := Piece.id?) hp
    rw [hids] at hmem
    simpa using hmem
  cases h : ((reached heldDevices []).page amendedPage).1 with
  | error why =>
    rw [h] at hok
    cases hok
  | ok header =>
    refine ⟨header, rfl, (page_twice_iff heldDevices [] amendedPage header h).mpr ?_⟩
    apply settled_unclashed
    intro p hp q hq hother
    exact absurd ((hone p hp).trans (hone q hq).symm) hother

def movedPage : Bytes :=
  [0xA6, 1, 0x18, 41, 2, 2, 3, 0x83, 0xA7, 1, 7, 2, 1, 3, 0x41, 0x28, 4, 1, 5, 1, 6, 1, 12, 1,
    0xA7, 1, 7, 2, 1, 3, 0x41, 0x29, 4, 1, 5, 1, 6, 1, 12, 1,
    0xA7, 1, 8, 2, 1, 3, 0x41, 0x28, 4, 1, 5, 1, 6, 1, 12, 1, 4, 0, 5, 2, 6, 1]

/-- A page that was accepted may be refused when it is read again at once. -/
theorem moved_refused : ((reached heldDevices []).page movedPage).1.isOk = true ∧
    (((reached heldDevices []).page movedPage).2.page movedPage).1.isOk = false := by
  constructor
  · decide +kernel
  · decide +kernel

end ReceivedTopology

end Km43.Topology
