import Km43.Topology.Placement

namespace Km43.Topology

open Library Cbor CborReader Inventory

namespace Piece

def device? : Piece → Option HeldDevice
  | device d => some d
  | bus _ _ | nothing => none

def id? : Piece → Option (UInt8 ⊕ UInt16)
  | bus b _ => some (.inl b)
  | device d => some (.inr d.dev)
  | nothing => none

end Piece

def devicesOf (pieces : List Piece) : List HeldDevice := pieces.filterMap Piece.device?

def idsOf (pieces : List Piece) : List (UInt8 ⊕ UInt16) := pieces.filterMap Piece.id?

theorem mem_devicesOf {pieces : List Piece} {d : HeldDevice} : d ∈ devicesOf pieces ↔ .device d ∈ pieces := by
  rw [devicesOf, List.mem_filterMap]
  constructor
  · rintro ⟨piece, hp, hd⟩
    cases piece <;> cases hd
    exact hp
  · intro hd
    exact ⟨_, hd, rfl⟩

theorem devicesOf_snoc (pieces : List Piece) (piece : Piece) :
    devicesOf (pieces ++ [piece]) = devicesOf pieces ++ piece.device?.toList := filterMap_snoc _ _ _

theorem idsOf_snoc (pieces : List Piece) (piece : Piece) :
    idsOf (pieces ++ [piece]) = idsOf pieces ++ piece.id?.toList := filterMap_snoc _ _ _

/-- Pieces that one topology can hold together, whatever the order they come in. -/
structure Together (capacity : ℕ) (pieces : List Piece) : Prop where
  room : (devicesOf pieces).length ≤ capacity
  addressed : ∀ d transport, .device d ∈ pieces → .bus d.bus transport ∈ pieces → transport.addressed = true →
    d.addr.isSome
  apart : (devicesOf pieces).Pairwise fun a b => ¬Shares a b

variable {capacity : ℕ} {pieces xs ys : List Piece}

theorem Together.perm (h : Together capacity xs) (hp : xs.Perm ys) : Together capacity ys := by
  have hdevices : (devicesOf xs).Perm (devicesOf ys) := hp.filterMap _
  refine ⟨hdevices.length_eq ▸ h.room, fun d transport hd hb => ?_, ?_⟩
  · exact h.addressed d transport (hp.mem_iff.mpr hd) (hp.mem_iff.mpr hb)
  · exact h.apart.perm hdevices fun hab hba => hab hba.symm

theorem Together.left (h : Together capacity (xs ++ ys)) : Together capacity xs := by
  have hsub : (devicesOf xs).Sublist (devicesOf (xs ++ ys)) := (List.sublist_append_left xs ys).filterMap _
  refine ⟨hsub.length_le.trans h.room, fun d transport hd hb => ?_, h.apart.sublist hsub⟩
  exact h.addressed d transport (List.mem_append_left _ hd) (List.mem_append_left _ hb)

namespace ReceivedTopology

variable {t t' : ReceivedTopology capacity} {piece : Piece} {done rest : List Piece}

structure Exactly (t : ReceivedTopology capacity) (pieces : List Piece) : Prop where
  devices : t.held.Perm (devicesOf pieces)
  buses : ∀ bus transport, t.buses bus = some transport ↔ .bus bus transport ∈ pieces

theorem restart_exactly (rev : UInt32) : (restart capacity rev).Exactly [] := by
  constructor
  · rw [restart_held]
    exact .nil
  · intro bus transport
    exact iff_of_false nofun List.not_mem_nil

theorem Exactly.placed (h : t.Exactly pieces) : Placed t.buses t.held ↔ Together capacity pieces := by
  constructor
  · intro hp
    refine ⟨h.devices.length_eq ▸ t.held_length_le, fun d transport hd hb => ?_, (hp.perm h.devices).apart⟩
    exact hp.addressed d (h.devices.mem_iff.mpr (mem_devicesOf.mpr hd)) transport ((h.buses _ _).mpr hb)
  · intro ht
    refine ⟨fun d hd transport hb => ?_, ht.apart.perm h.devices.symm fun hab hba => hab hba.symm⟩
    exact ht.addressed d transport (mem_devicesOf.mp (h.devices.mem_iff.mp hd)) ((h.buses _ _).mp hb)

theorem id_new {id : UInt8 ⊕ UInt16} (hid : piece.id? = some id) (hd : (idsOf (done ++ [piece])).Nodup) :
    ∀ other ∈ done, other.id? ≠ some id := by
  rw [idsOf_snoc, hid, Option.toList_some, List.nodup_append] at hd
  exact fun other hmem hother => hd.2.2 id (List.mem_filterMap.mpr ⟨other, hmem, hother⟩) id (by simp) rfl

theorem put_exactly (h : t.Exactly done) (hd : (idsOf (done ++ [piece])).Nodup) (hp : t.put piece = .ok t') :
    t'.Exactly (done ++ [piece]) := by
  cases piece with
  | bus bus transport =>
    cases hp
    have hnew : ∀ tr, .bus bus tr ∉ done := fun tr hmem => id_new rfl hd _ hmem rfl
    have hheld : (t.holdBus bus transport).held = t.held := rfl
    refine ⟨?_, fun b tr => ?_⟩
    · rw [devicesOf_snoc, hheld]
      simpa [Piece.device?] using h.devices
    · simp only [holdBus, Function.update_apply]
      split_ifs with hsame
      · subst hsame
        simpa [hnew] using eq_comm
      · rw [h.buses]
        simp [hsame]
  | device device =>
    obtain ⟨hstore, hrev, hbuses⟩ := holdDevice_ok hp
    have hnew : device.dev ∉ t.held.map HeldDevice.dev := by
      intro hmem
      obtain ⟨other, hother, hdev⟩ := List.mem_map.mp hmem
      have hin := mem_devicesOf.mp (h.devices.mem_iff.mp hother)
      exact id_new rfl hd _ hin (by rw [Piece.id?, hdev])
    constructor
    · rw [devicesOf_snoc]
      exact (SlotTable.store_new hnew hstore).trans
        ((h.devices.cons device).trans (List.perm_append_singleton _ _).symm)
    · intro b tr
      rw [hbuses, h.buses]
      simp
  | nothing =>
    cases hp
    refine ⟨?_, fun b tr => by simp [h.buses]⟩
    rw [devicesOf_snoc]
    simpa [Piece.device?] using h.devices

theorem holdDevice_some {device : HeldDevice} (hroom : t.held.length < capacity) :
    ∃ t', t.holdDevice device = .ok t' := by
  obtain ⟨devices, hstore⟩ : ∃ devices, SlotTable.store HeldDevice.dev device t.devices = some devices :=
    SlotTable.store_some (hroom.trans_eq t.room.symm)
  unfold holdDevice
  split
  · exact ⟨_, rfl⟩
  · rename_i hnone
    rw [hstore] at hnone
    cases hnone

theorem put_some (h : t.Exactly done) (hroom : (devicesOf (done ++ [piece])).length ≤ capacity) :
    ∃ t', t.put piece = .ok t' := by
  cases piece with
  | bus bus transport => exact ⟨_, rfl⟩
  | device device =>
    rw [devicesOf_snoc, List.length_append, ← h.devices.length_eq] at hroom
    exact holdDevice_some hroom
  | nothing => exact ⟨_, rfl⟩

theorem putJudged_exactly (h : t.Exactly done) (hd : (idsOf (done ++ [piece])).Nodup)
    (hp : t.putJudged piece = .ok t') : t'.Exactly (done ++ [piece]) ∧ Together capacity (done ++ [piece]) := by
  obtain ⟨hput, hplaced⟩ := putJudged_ok.mp hp
  have hexactly := put_exactly h hd hput
  exact ⟨hexactly, hexactly.placed.mp hplaced⟩

theorem putJudged_some (h : t.Exactly done) (hd : (idsOf (done ++ [piece])).Nodup)
    (ht : Together capacity (done ++ [piece])) : ∃ t', t.putJudged piece = .ok t' := by
  obtain ⟨t', hput⟩ := put_some h ht.room
  exact ⟨t', putJudged_ok.mpr ⟨hput, (put_exactly h hd hput).placed.mpr ht⟩⟩

theorem idsOf_append (xs ys : List Piece) : idsOf (xs ++ ys) = idsOf xs ++ idsOf ys := List.filterMap_append

theorem pieces_exactly (h : t.Exactly done) (hd : (idsOf (done ++ rest)).Nodup)
    (hp : rest.foldlM putJudged t = .ok t') : t'.Exactly (done ++ rest) ∧
      (Together capacity done → Together capacity (done ++ rest)) := by
  induction rest generalizing t done with
  | nil =>
    cases hp
    rw [List.append_nil]
    exact ⟨h, fun ht => ht⟩
  | cons piece rest ih =>
    rw [List.append_cons] at hd ⊢
    have hone : (idsOf (done ++ [piece])).Nodup := (idsOf_append _ rest ▸ hd).of_append_left
    obtain ⟨t₁, h₁, hp⟩ := bind_ok.mp hp
    obtain ⟨hexactly, htogether⟩ := putJudged_exactly h hone h₁
    obtain ⟨hexactly', htogether'⟩ := ih hexactly hd hp
    exact ⟨hexactly', fun _ => htogether' htogether⟩

theorem pieces_some (h : t.Exactly done) (hd : (idsOf (done ++ rest)).Nodup)
    (ht : Together capacity (done ++ rest)) : ∃ t', rest.foldlM putJudged t = .ok t' := by
  induction rest generalizing t done with
  | nil => exact ⟨t, rfl⟩
  | cons piece rest ih =>
    rw [List.append_cons] at hd ht
    have hone : (idsOf (done ++ [piece])).Nodup := (idsOf_append _ rest ▸ hd).of_append_left
    obtain ⟨t₁, h₁⟩ := putJudged_some h hone ht.left
    obtain ⟨t', hp⟩ := ih (putJudged_exactly h hone h₁).1 hd ht
    exact ⟨t', bind_ok.mpr ⟨t₁, h₁, hp⟩⟩

def AcceptsAll (t : ReceivedTopology capacity) (pages : List Bytes) : Prop :=
  ∀ answer ∈ receiver.outputs t pages, ∃ header, answer.2 = .ok header

def saidBy (payload : Bytes) : List Piece :=
  match pageOf payload with
  | .ok (_, some pieces) => pieces
  | .ok (_, none) | .error _ => []

def Readable (payload : Bytes) : Prop := ∃ header pieces, pageOf payload = .ok (header, pieces)

def Walks (payload : Bytes) : Prop := ∃ header pieces, pageOf payload = .ok (header, some pieces)

def Accepts (t : ReceivedTopology capacity) (pages : List Bytes) (t' : ReceivedTopology capacity) : Prop :=
  t.AcceptsAll pages ∧ receiver.final t pages = t'

theorem accepts_nil : t.Accepts [] t' ↔ t = t' := by
  simp [Accepts, AcceptsAll]

theorem accepts_cons {payload : Bytes} {pages : List Bytes} : t.Accepts (payload :: pages) t' ↔
    ∃ header pieces t₁, pageOf payload = .ok (header, pieces) ∧ t.putPage header.rev pieces = .ok t₁ ∧
      t₁.Accepts pages t' := by
  unfold Accepts AcceptsAll
  rw [Machine.outputs_cons, List.forall_mem_cons, Machine.final_cons]
  simp only [receiver, page]
  cases htaken : t.taken payload with
  | error why =>
    constructor
    · rintro ⟨⟨⟨header, ⟨⟩⟩, -⟩, -⟩
    · rintro ⟨header, pieces, t₁, hpage, hput, -⟩
      rw [taken_ok.mpr ⟨pieces, hpage, hput⟩] at htaken
      cases htaken
  | ok p =>
    obtain ⟨header, next⟩ := p
    obtain ⟨pieces, hpage, hput⟩ := taken_ok.mp htaken
    constructor
    · rintro ⟨⟨-, hrest⟩, hfinal⟩
      exact ⟨header, pieces, next, hpage, hput, hrest, hfinal⟩
    · rintro ⟨header', pieces', t₁, hpage', hput', hrest, hfinal⟩
      rw [hpage] at hpage'
      cases hpage'
      rw [hput] at hput'
      cases hput'
      exact ⟨⟨⟨header, rfl⟩, hrest⟩, hfinal⟩

/-- The pages of one walk: those that change what is held are all of its revision. -/
def OfRev (rev : UInt32) (pages : List Bytes) : Prop :=
  ∀ payload ∈ pages, ∀ header pieces, pageOf payload = .ok (header, some pieces) → header.rev = rev

variable {rev : UInt32} {payload : Bytes} {pages : List Bytes} {header : InventoryHeader} {said : Option (List Piece)}

theorem saidBy_some (h : pageOf payload = .ok (header, some pieces)) : saidBy payload = pieces := by
  rw [saidBy, h]

theorem saidBy_none (h : pageOf payload = .ok (header, none)) : saidBy payload = [] := by
  rw [saidBy, h]

theorem accepts_page (h : pageOf payload = .ok (header, said)) : t.Accepts (payload :: pages) t' ↔
    ∃ t₁, t.putPage header.rev said = .ok t₁ ∧ t₁.Accepts pages t' := by
  rw [accepts_cons]
  constructor
  · rintro ⟨header', said', t₁, h', hput, haccepts⟩
    rw [h] at h'
    cases h'
    exact ⟨t₁, hput, haccepts⟩
  · rintro ⟨t₁, hput, haccepts⟩
    exact ⟨header, said, t₁, h, hput, haccepts⟩

theorem not_readable {why : InventoryError} (h : pageOf payload = .error why) : ¬Readable payload := by
  rintro ⟨header, said, h'⟩
  rw [h] at h'
  cases h'

theorem not_accepts {why : InventoryError} (h : pageOf payload = .error why) : ¬t.Accepts (payload :: pages) t' := by
  rw [accepts_cons]
  rintro ⟨header, said, t₁, h', -⟩
  exact not_readable h ⟨header, said, h'⟩

theorem accepts_onto (hrev : OfRev rev pages) (ht : t.rev = some rev) : t.Accepts pages t' ↔
    (∀ payload ∈ pages, Readable payload) ∧ (pages.flatMap saidBy).foldlM putJudged t = .ok t' := by
  induction pages generalizing t with
  | nil =>
    rw [accepts_nil]
    constructor
    · rintro rfl
      exact ⟨by simp, rfl⟩
    · rintro ⟨-, ⟨⟩⟩
      rfl
  | cons payload pages ih =>
    have hrest : OfRev rev pages := fun p hp => hrev p (List.mem_cons_of_mem _ hp)
    rw [List.forall_mem_cons, List.flatMap_cons, List.foldlM_append]
    cases hpage : pageOf payload with
    | error why => exact iff_of_false (not_accepts hpage) fun h => not_readable hpage h.1.1
    | ok p =>
      obtain ⟨header, said⟩ := p
      have hreadable : Readable payload := ⟨header, said, hpage⟩
      rw [accepts_page hpage, and_iff_right hreadable, bind_ok]
      cases said with
      | none =>
        rw [saidBy_none hpage]
        constructor
        · rintro ⟨t₁, ⟨⟩, h⟩
          obtain ⟨hall, hfold⟩ := (ih hrest ht).mp h
          exact ⟨hall, t, rfl, hfold⟩
        · rintro ⟨hall, t₁, ⟨⟩, hfold⟩
          exact ⟨t, rfl, (ih hrest ht).mpr ⟨hall, hfold⟩⟩
      | some pieces =>
        have hsame : t.onto header.rev = t := by
          rw [onto, hrev payload List.mem_cons_self header pieces hpage, if_pos ht]
        rw [saidBy_some hpage, putPage, hsame]
        constructor
        · rintro ⟨t₁, hput, h⟩
          obtain ⟨hall, hfold⟩ := (ih hrest ((pieces_from hput).rev.trans ht)).mp h
          exact ⟨hall, t₁, hput, hfold⟩
        · rintro ⟨hall, t₁, hput, hfold⟩
          exact ⟨t₁, hput, (ih hrest ((pieces_from hput).rev.trans ht)).mpr ⟨hall, hfold⟩⟩

theorem accepts_idle (hidle : ∀ payload ∈ pages, ¬Walks payload) : t.Accepts pages t' ↔
    (∀ payload ∈ pages, Readable payload) ∧ t = t' := by
  induction pages with
  | nil => simp [accepts_nil]
  | cons payload pages ih =>
    rw [List.forall_mem_cons]
    cases hpage : pageOf payload with
    | error why => exact iff_of_false (not_accepts hpage) fun h => not_readable hpage h.1.1
    | ok p =>
      obtain ⟨header, said⟩ := p
      have hreadable : Readable payload := ⟨header, said, hpage⟩
      rw [accepts_page hpage, and_iff_right hreadable, ← ih fun p hp => hidle p (List.mem_cons_of_mem _ hp)]
      cases said with
      | none => simp [putPage]
      | some pieces => exact absurd ⟨header, pieces, hpage⟩ (hidle payload List.mem_cons_self)

theorem accepts_restart (hrev : OfRev rev pages) (ht : t.rev ≠ some rev) (hwalks : ∃ payload ∈ pages, Walks payload) :
    t.Accepts pages t' ↔ (restart capacity rev).Accepts pages t' := by
  induction pages with
  | nil =>
    obtain ⟨payload, hmem, -⟩ := hwalks
    cases hmem
  | cons payload pages ih =>
    have hrest : OfRev rev pages := fun p hp => hrev p (List.mem_cons_of_mem _ hp)
    cases hpage : pageOf payload with
    | error why => exact iff_of_false (not_accepts hpage) (not_accepts hpage)
    | ok p =>
      obtain ⟨header, said⟩ := p
      rw [accepts_page hpage, accepts_page hpage]
      cases said with
      | none =>
        have hlater : ∃ payload ∈ pages, Walks payload := by
          obtain ⟨page, hmem, header', pieces, h⟩ := hwalks
          rcases List.mem_cons.mp hmem with rfl | hmem
          · rw [hpage] at h
            cases h
          · exact ⟨page, hmem, header', pieces, h⟩
        simpa [putPage] using ih hrest hlater
      | some pieces =>
        have hheader : header.rev = rev := hrev payload List.mem_cons_self header pieces hpage
        have honto : t.onto rev = (restart capacity rev).onto rev := by
          rw [onto, if_neg ht, onto, ite_self]
        rw [putPage, putPage, hheader, honto]

/-- What pages in another order leave: the same devices, at the same buses. -/
structure Alike (t t' : ReceivedTopology capacity) : Prop where
  held : t.held.Perm t'.held
  buses : t.buses = t'.buses

theorem Exactly.alike (h : t.Exactly xs) (h' : t'.Exactly ys) (hp : xs.Perm ys) : t.Alike t' := by
  refine ⟨h.devices.trans ((hp.filterMap _).trans h'.devices.symm), funext fun bus => Option.ext fun transport => ?_⟩
  rw [h.buses, h'.buses, hp.mem_iff]

theorem walk_perm {ps qs : List Bytes} (hp : ps.Perm qs) (hrev : OfRev rev ps)
    (hids : (idsOf (ps.flatMap saidBy)).Nodup) (h : (restart capacity rev).Accepts ps t) :
    ∃ t', (restart capacity rev).Accepts qs t' ∧ t.Alike t' := by
  have hrev' : OfRev rev qs := fun payload hq => hrev payload (hp.mem_iff.mpr hq)
  have hsaid : (ps.flatMap saidBy).Perm (qs.flatMap saidBy) := hp.flatMap_right _
  have hids' : (idsOf (qs.flatMap saidBy)).Nodup := (hsaid.filterMap _).nodup_iff.mp hids
  have hempty : Together capacity [] := ⟨Nat.zero_le _, by simp, .nil⟩
  obtain ⟨hreadable, hfold⟩ := (accepts_onto hrev rfl).mp h
  obtain ⟨hexactly, htogether⟩ := pieces_exactly (restart_exactly rev) hids hfold
  obtain ⟨t', hfold'⟩ := pieces_some (restart_exactly rev) hids' ((htogether hempty).perm hsaid)
  refine ⟨t', (accepts_onto hrev' rfl).mpr ⟨fun payload hq => hreadable payload (hp.mem_iff.mpr hq), hfold'⟩, ?_⟩
  exact hexactly.alike (pieces_exactly (restart_exactly rev) hids' hfold').1 hsaid

theorem accepts_perm {ps qs : List Bytes} (hp : ps.Perm qs) (hrev : OfRev rev ps)
    (hids : (idsOf (ps.flatMap saidBy)).Nodup) (ht : t.rev ≠ some rev) (h : t.Accepts ps t') :
    ∃ t'', t.Accepts qs t'' ∧ t'.Alike t'' := by
  have hrev' : OfRev rev qs := fun payload hq => hrev payload (hp.mem_iff.mpr hq)
  by_cases hwalks : ∃ payload ∈ ps, Walks payload
  · have hwalks' : ∃ payload ∈ qs, Walks payload := by
      obtain ⟨payload, hmem, hw⟩ := hwalks
      exact ⟨payload, hp.mem_iff.mp hmem, hw⟩
    obtain ⟨t'', haccepts, halike⟩ := walk_perm hp hrev hids ((accepts_restart hrev ht hwalks).mp h)
    exact ⟨t'', (accepts_restart hrev' ht hwalks').mpr haccepts, halike⟩
  · have hidle : ∀ payload ∈ ps, ¬Walks payload := fun payload hmem hw => hwalks ⟨payload, hmem, hw⟩
    obtain ⟨hreadable, rfl⟩ := (accepts_idle hidle).mp h
    exact ⟨t, (accepts_idle fun payload hq => hidle payload (hp.mem_iff.mpr hq)).mpr
      ⟨fun payload hq => hreadable payload (hp.mem_iff.mpr hq), rfl⟩, .refl _, rfl⟩

/-- The pages of one walk, no bus and no device in two of their rows, are accepted in every order or in none, and
leave the same devices and buses held. -/
theorem order_free {ps qs : List Bytes} (hp : ps.Perm qs) (hrev : OfRev rev ps)
    (hids : (idsOf (ps.flatMap saidBy)).Nodup) (ht : t.rev ≠ some rev) :
    (t.AcceptsAll ps ↔ t.AcceptsAll qs) ∧
      (t.AcceptsAll ps →
        (∀ d, d ∈ (receiver.final t ps).held ↔ d ∈ (receiver.final t qs).held) ∧
          (receiver.final t ps).buses = (receiver.final t qs).buses) := by
  have hids' : (idsOf (qs.flatMap saidBy)).Nodup := ((hp.flatMap_right saidBy).filterMap _).nodup_iff.mp hids
  have hrev' : OfRev rev qs := fun payload hq => hrev payload (hp.mem_iff.mpr hq)
  constructor
  · constructor
    · intro h
      obtain ⟨t', haccepts, -⟩ := accepts_perm hp hrev hids ht ⟨h, rfl⟩
      exact haccepts.1
    · intro h
      obtain ⟨t', haccepts, -⟩ := accepts_perm hp.symm hrev' hids' ht ⟨h, rfl⟩
      exact haccepts.1
  · intro h
    obtain ⟨t', ⟨-, rfl⟩, halike⟩ := accepts_perm hp hrev hids ht ⟨h, rfl⟩
    exact ⟨fun d => halike.held.mem_iff, halike.buses⟩

theorem acceptsAll_isOk : t.AcceptsAll pages ↔ (receiver.outputs t pages).all (fun answer => answer.2.isOk) = true := by
  have hok : ∀ x : Except InventoryError InventoryHeader, x.isOk = true ↔ ∃ header, x = .ok header := by
    intro x
    cases x <;> simp [Except.isOk, Except.toBool]
  rw [AcceptsAll, List.all_eq_true]
  simp only [hok]

def addressedPage : Bytes :=
  [0xA6, 1, 0x18, 41, 2, 2, 3, 0x81, 0xA7, 1, 7, 2, 1, 3, 0x41, 0x28, 4, 1, 5, 1, 6, 1, 12, 1, 4, 0, 5, 1, 6, 1]

def amendedPage : Bytes :=
  [0xA6, 1, 0x18, 41, 2, 2, 3, 0x82, 0xA6, 1, 7, 2, 1, 4, 1, 5, 1, 6, 1, 12, 1,
    0xA7, 1, 7, 2, 1, 3, 0x41, 0x28, 4, 1, 5, 1, 6, 1, 12, 1, 4, 0, 5, 1, 6, 1]

def rs485Page : Bytes := [0xA6, 1, 0x18, 41, 2, 1, 3, 0x81, 0xA2, 1, 1, 2, 1, 4, 0, 5, 1, 6, 1]

theorem ofRev_page (h : (pageOf payload).toOption.map (fun p => p.1.rev) = some rev) : OfRev rev [payload] := by
  intro page hpage header pieces hsaid
  obtain rfl := List.mem_singleton.mp hpage
  rw [hsaid] at h
  exact Option.some.inj h

theorem ofRev_cons (h : OfRev rev [payload]) (hrest : OfRev rev pages) : OfRev rev (payload :: pages) := by
  intro page hpage
  rcases List.mem_cons.mp hpage with rfl | hpage
  · exact h page List.mem_cons_self
  · exact hrest page hpage

/-- A page that repeats a device of its own is judged after each of the two rows, so what came before matters. -/
theorem amended_ordered :
    [amendedPage, rs485Page].Perm [rs485Page, amendedPage] ∧ OfRev 41 [amendedPage, rs485Page] ∧
      [amendedPage, rs485Page].Pairwise (fun p q => (idsOf (saidBy p)).Disjoint (idsOf (saidBy q))) ∧
      (new heldDevices).AcceptsAll [amendedPage, rs485Page] ∧
      ¬(new heldDevices).AcceptsAll [rs485Page, amendedPage] := by
  refine ⟨.swap _ _ _, ofRev_cons (ofRev_page ?_) (ofRev_page ?_), ?_, ?_, ?_⟩
  · decide +kernel
  · decide +kernel
  · have hdevices : idsOf (saidBy amendedPage) = [.inr 7, .inr 7] := by decide +kernel
    have hbuses : idsOf (saidBy rs485Page) = [.inl 1] := by decide +kernel
    simp [hdevices, hbuses]
  · rw [acceptsAll_isOk]
    decide +kernel
  · rw [acceptsAll_isOk]
    decide +kernel

theorem order_free_pair :
    (new heldDevices).AcceptsAll [addressedPage, rs485Page] ∧ (new heldDevices).AcceptsAll [rs485Page, addressedPage] ∧
      (∀ d, d ∈ (receiver.final (new heldDevices) [addressedPage, rs485Page]).held ↔
        d ∈ (receiver.final (new heldDevices) [rs485Page, addressedPage]).held) ∧
      (receiver.final (new heldDevices) [addressedPage, rs485Page]).buses =
        (receiver.final (new heldDevices) [rs485Page, addressedPage]).buses := by
  have hrev : OfRev 41 [addressedPage, rs485Page] :=
    ofRev_cons (ofRev_page (by decide +kernel)) (ofRev_page (by decide +kernel))
  have hids : (idsOf ([addressedPage, rs485Page].flatMap saidBy)).Nodup := by decide +kernel
  have haccepts : (new heldDevices).AcceptsAll [addressedPage, rs485Page] := by
    rw [acceptsAll_isOk]
    decide +kernel
  have hnew : (new heldDevices).rev ≠ some 41 := nofun
  obtain ⟨hboth, hsame⟩ := order_free (.swap _ _ _) hrev hids hnew
  exact ⟨haccepts, hboth.mp haccepts, hsame haccepts⟩

end ReceivedTopology

end Km43.Topology
