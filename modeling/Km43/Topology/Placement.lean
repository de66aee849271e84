import Km43.Library.Machine
import Km43.Topology.Received

namespace Km43.Topology

open Library Cbor CborReader Inventory

section

variable {ε α σ : Type} {read : Read ε α} {f : σ → α → Except ε σ} {s s' : σ} {r r' : CborReader}

theorem ok_bind {β : Type} (a : α) (k : α → Except ε β) : (Except.ok a >>= k) = k a := rfl

theorem readThen_ok : (do
      let a ← read
      f s a : Read ε σ) r = .ok (s', r') ↔ ∃ a, read r = .ok (a, r') ∧ f s a = .ok s' := by
  rw [bind_run_ok]
  constructor
  · rintro ⟨a, r₁, ha, h⟩
    obtain ⟨hs, rfl⟩ := lift_ok.mp h
    exact ⟨a, ha, hs⟩
  · rintro ⟨a, ha, hs⟩
    exact ⟨a, r', ha, lift_ok.mpr ⟨hs, rfl⟩⟩

def readAll (read : Read ε α) : ℕ → Read ε (List α)
  | 0 => pure []
  | n + 1 => do
    let a ← read
    let rest ← readAll read n
    pure (a :: rest)

theorem itemLoop_readAll {n : ℕ} :
    itemLoop (fun s => do
      let a ← read
      f s a) n s r = .ok (s', r') ↔ ∃ xs, readAll read n r = .ok (xs, r') ∧ xs.foldlM f s = .ok s' := by
  induction n generalizing s r with
  | zero =>
    simp only [itemLoop, readAll]
    constructor
    · rintro ⟨⟩
      exact ⟨[], rfl, rfl⟩
    · rintro ⟨xs, ⟨⟩, ⟨⟩⟩
      rfl
  | succ n ih =>
    simp only [itemLoop, readAll]
    rw [bind_run_ok]
    constructor
    · rintro ⟨s₁, r₁, hstep, hloop⟩
      obtain ⟨a, ha, hs₁⟩ := readThen_ok.mp hstep
      obtain ⟨xs, hxs, hs'⟩ := ih.mp hloop
      exact ⟨a :: xs, bind_run_ok.mpr ⟨a, r₁, ha, bind_run_ok.mpr ⟨xs, r', hxs, rfl⟩⟩,
        bind_ok.mpr ⟨s₁, hs₁, hs'⟩⟩
    · rintro ⟨xs, hxs, hs'⟩
      obtain ⟨a, r₁, ha, hrest⟩ := bind_run_ok.mp hxs
      obtain ⟨rest, r₂, hrest, hpure⟩ := bind_run_ok.mp hrest
      cases hpure
      obtain ⟨s₁, hs₁, hs'⟩ := bind_ok.mp hs'
      exact ⟨s₁, r₁, readThen_ok.mpr ⟨a, ha, hs₁⟩, ih.mpr ⟨rest, hrest, hs'⟩⟩

end

def Shares (a b : HeldDevice) : Prop := a.bus = b.bus ∧ a.addr.isSome ∧ a.addr = b.addr

theorem Shares.symm {a b : HeldDevice} (h : Shares a b) : Shares b a := ⟨h.1.symm, h.2.2 ▸ h.2.1, h.2.2.symm⟩

/-- The placement rule: an address wherever the bus addresses, and never one of two devices on a bus. -/
structure Placed (buses : UInt8 → Option Devices.Transport) (devices : List HeldDevice) : Prop where
  addressed : ∀ d ∈ devices, ∀ transport, buses d.bus = some transport → transport.addressed = true →
    d.addr.isSome
  apart : devices.Pairwise fun a b => ¬Shares a b

theorem Placed.perm {buses : UInt8 → Option Devices.Transport} {xs ys : List HeldDevice} (h : Placed buses xs)
    (hp : xs.Perm ys) : Placed buses ys :=
  ⟨fun d hd => h.addressed d (hp.mem_iff.mpr hd), h.apart.perm hp fun hab hba => hab hba.symm⟩

theorem placed_cons {buses : UInt8 → Option Devices.Transport} {device : HeldDevice} {devices : List HeldDevice} :
    Placed buses (device :: devices) ↔
      (∀ transport, buses device.bus = some transport → transport.addressed = true → device.addr.isSome) ∧
      (∀ other ∈ devices, ¬Shares device other) ∧ Placed buses devices := by
  constructor
  · rintro ⟨haddressed, hapart⟩
    obtain ⟨hhead, htail⟩ := List.pairwise_cons.mp hapart
    exact ⟨haddressed device (by simp), hhead, fun d hd => haddressed d (by simp [hd]), htail⟩
  · rintro ⟨hown, hhead, haddressed, htail⟩
    refine ⟨fun d hd => ?_, List.pairwise_cons.mpr ⟨hhead, htail⟩⟩
    rcases List.mem_cons.mp hd with rfl | hd
    · exact hown
    · exact haddressed d hd

theorem p202From_ok (buses : UInt8 → Option Devices.Transport) (slots : List (Option HeldDevice)) :
    ReceivedTopology.p202From buses slots = .ok () ↔ Placed buses (SlotTable.held slots) := by
  induction slots with
  | nil => exact iff_of_true rfl ⟨by simp, .nil⟩
  | cons slot slots ih =>
    cases slot with
    | none => exact ih
    | some device =>
      rw [SlotTable.held_some, placed_cons, ReceivedTopology.p202From]
      cases haddr : device.addr with
      | none =>
        have hno : ∀ other ∈ SlotTable.held slots, ¬Shares device other := by
          rintro other - ⟨-, hsome, -⟩
          simp [haddr] at hsome
        cases hbus : buses device.bus with
        | none => simpa [ih] using fun _ => hno
        | some transport =>
          cases haddressed : transport.addressed with
          | true => simp [haddressed]
          | false => simpa [haddressed, ih] using fun _ => hno
      | some addr =>
        have hshares : ∀ other, Shares device other ↔ other.bus = device.bus ∧ other.addr = some addr := by
          intro other
          simp only [Shares, haddr, Option.isSome_some, true_and]
          exact and_congr eq_comm eq_comm
        simp only [hshares, Option.isSome_some, implies_true, true_and]
        cases hfind : (SlotTable.held slots).find? fun other => other.bus = device.bus ∧ other.addr = some addr with
        | none =>
          have hnone := List.find?_eq_none.mp hfind
          simp only [decide_eq_true_eq] at hnone
          exact ih.trans (and_iff_right hnone).symm
        | some other =>
          have hmem := List.mem_of_find?_eq_some hfind
          have hsame : other.bus = device.bus ∧ other.addr = some addr := by simpa using List.find?_some hfind
          exact iff_of_false (by simp) fun h => h.1 other hmem hsame

inductive Piece
  | bus (bus : UInt8) (transport : Devices.Transport)
  | device (device : HeldDevice)
  | nothing

def pieceOf (row : Row) : Except InventoryError Piece :=
  match row.kind with
  | .bus => (fun p => .bus p.1 p.2) <$> busOf row
  | .device => .device <$> deviceOf row
  | .component | .signal | .param => .ok .nothing

namespace ReceivedTopology

variable {capacity : ℕ} {t t' : ReceivedTopology capacity}

def put (t : ReceivedTopology capacity) : Piece → Except InventoryError (ReceivedTopology capacity)
  | .bus bus transport => .ok (t.holdBus bus transport)
  | .device device => t.holdDevice device
  | .nothing => .ok t

structure Sound (t : ReceivedTopology capacity) : Prop where
  placed : Placed t.buses t.held
  unique : (t.held.map HeldDevice.dev).Nodup

theorem held_length_le (t : ReceivedTopology capacity) : t.held.length ≤ capacity :=
  (SlotTable.held_length_le t.devices).trans_eq t.room

theorem restart_held (rev : UInt32) : (restart capacity rev).held = [] := SlotTable.held_empty capacity

theorem new_held : (new capacity).held = [] := SlotTable.held_empty capacity

theorem restart_sound (rev : UInt32) : (restart capacity rev).Sound := by
  constructor
  · rw [restart_held]
    exact ⟨by simp, .nil⟩
  · rw [restart_held]
    exact List.nodup_nil

theorem holdDevice_ok {device : HeldDevice} (h : t.holdDevice device = .ok t') :
    SlotTable.store HeldDevice.dev device t.devices = some t'.devices ∧ t'.rev = t.rev ∧ t'.buses = t.buses := by
  unfold holdDevice at h
  split at h
  · rename_i devices hs
    cases h
    exact ⟨hs, rfl, rfl⟩
  · cases h

theorem hold_eq (row : Row) : t.hold row = pieceOf row >>= t.put := by
  unfold hold pieceOf
  cases row.kind with
  | bus => cases busOf row <;> rfl
  | device => cases deviceOf row <;> rfl
  | component => rfl
  | signal => rfl
  | param => rfl

def putJudged (t : ReceivedTopology capacity) (piece : Piece) : Except InventoryError (ReceivedTopology capacity) := do
  let next ← t.put piece
  next.p202Holds
  .ok next

theorem holdRow_eq (row : Row) : t.holdRow row = pieceOf row >>= t.putJudged := by
  rw [holdRow, hold_eq, bind_assoc]
  rfl

theorem holdRows_pieces {rows : List Row} : rows.foldlM holdRow t = .ok t' ↔
    ∃ pieces, rows.mapM pieceOf = .ok pieces ∧ pieces.foldlM putJudged t = .ok t' := by
  induction rows generalizing t with
  | nil =>
    constructor
    · rintro ⟨⟩
      exact ⟨[], rfl, rfl⟩
    · rintro ⟨pieces, ⟨⟩, ⟨⟩⟩
      rfl
  | cons row rows ih =>
    rw [List.foldlM_cons, List.mapM_cons, bind_ok]
    simp only [holdRow_eq, ih]
    constructor
    · rintro ⟨t₁, h₁, pieces, hpieces, h'⟩
      obtain ⟨piece, hpiece, h₁⟩ := bind_ok.mp h₁
      exact ⟨piece :: pieces, bind_ok.mpr ⟨piece, hpiece, bind_ok.mpr ⟨pieces, hpieces, rfl⟩⟩,
        bind_ok.mpr ⟨t₁, h₁, h'⟩⟩
    · rintro ⟨all, hall, h'⟩
      obtain ⟨piece, hpiece, hall⟩ := bind_ok.mp hall
      obtain ⟨pieces, hpieces, ⟨⟩⟩ := bind_ok.mp hall
      obtain ⟨t₁, h₁, h'⟩ := bind_ok.mp h'
      exact ⟨t₁, bind_ok.mpr ⟨piece, hpiece, h₁⟩, pieces, hpieces, h'⟩

theorem putJudged_ok {piece : Piece} : t.putJudged piece = .ok t' ↔
    t.put piece = .ok t' ∧ Placed t'.buses t'.held := by
  simp only [putJudged, bind_ok, p202Holds]
  constructor
  · rintro ⟨next, hput, ⟨⟩, hjudged, ⟨⟩⟩
    exact ⟨hput, (p202From_ok _ _).mp hjudged⟩
  · rintro ⟨hput, hplaced⟩
    exact ⟨t', hput, (), (p202From_ok _ _).mpr hplaced, rfl⟩

theorem put_unique {piece : Piece} (hu : (t.held.map HeldDevice.dev).Nodup) (h : t.put piece = .ok t') :
    (t'.held.map HeldDevice.dev).Nodup := by
  cases piece with
  | bus bus transport =>
    cases h
    exact hu
  | device device => exact SlotTable.store_unique hu (holdDevice_ok h).1
  | nothing =>
    cases h
    exact hu

/-- What is held after a piece was held before it, or is the piece. -/
structure From (t t' : ReceivedTopology capacity) (pieces : List Piece) : Prop where
  rev : t'.rev = t.rev
  devices : ∀ d ∈ t'.held, d ∈ t.held ∨ .device d ∈ pieces
  buses : ∀ bus transport, t'.buses bus = some transport →
    t.buses bus = some transport ∨ .bus bus transport ∈ pieces

theorem From.refl (t : ReceivedTopology capacity) : From t t [] := ⟨rfl, fun _ => .inl, fun _ _ => .inl⟩

theorem From.trans {t'' : ReceivedTopology capacity} {xs ys : List Piece} (h : From t t' xs) (h' : From t' t'' ys) :
    From t t'' (xs ++ ys) := by
  refine ⟨h'.rev.trans h.rev, fun d hd => ?_, fun bus transport hb => ?_⟩
  · rcases h'.devices d hd with hd | hd
    · exact (h.devices d hd).imp_right (List.mem_append_left _)
    · exact .inr (List.mem_append_right _ hd)
  · rcases h'.buses bus transport hb with hb | hb
    · exact (h.buses bus transport hb).imp_right (List.mem_append_left _)
    · exact .inr (List.mem_append_right _ hb)

theorem put_from {piece : Piece} (h : t.put piece = .ok t') : From t t' [piece] := by
  cases piece with
  | bus bus transport =>
    cases h
    refine ⟨rfl, fun d => .inl, fun b tr hb => ?_⟩
    simp only [holdBus, Function.update_apply] at hb
    split_ifs at hb with hsame
    · cases hb
      exact .inr (by simp [hsame])
    · exact .inl hb
  | device device =>
    obtain ⟨hstore, hrev, hbuses⟩ := holdDevice_ok h
    refine ⟨hrev, fun d hd => ?_, fun b tr hb => .inl (hbuses ▸ hb)⟩
    rcases SlotTable.store_mem hstore hd with rfl | hd
    · exact .inr List.mem_cons_self
    · exact .inl hd
  | nothing =>
    cases h
    exact ⟨rfl, fun _ => .inl, fun _ _ => .inl⟩

theorem pieces_from {pieces : List Piece} (h : pieces.foldlM putJudged t = .ok t') : From t t' pieces := by
  induction pieces generalizing t with
  | nil =>
    cases h
    exact .refl _
  | cons piece pieces ih =>
    obtain ⟨t₁, h₁, h⟩ := bind_ok.mp h
    exact (put_from (putJudged_ok.mp h₁).1).trans (ih h)

theorem pieces_sound {pieces : List Piece} (hs : t.Sound) (h : pieces.foldlM putJudged t = .ok t') : t'.Sound := by
  induction pieces generalizing t with
  | nil =>
    cases h
    exact hs
  | cons piece pieces ih =>
    obtain ⟨t₁, h₁, h⟩ := bind_ok.mp h
    obtain ⟨hput, hplaced⟩ := putJudged_ok.mp h₁
    exact ih ⟨hplaced, put_unique hs.unique hput⟩ h

def rowsOf (kind : RowKind) (rows : Bytes) : Except InventoryError (List Row) := do
  let (list, reader) ← (ask array >>= readAll (readRow kind)) (CborReader.new rows)
  reader.finish.mapError FromCbor.cbor
  .ok list

def pageOf (payload : Bytes) : Except InventoryError (InventoryHeader × Option (List Piece)) := do
  let (header, rows) ← InventoryHeader.decodeWithRows payload
  match (RowKind.fromNumber header.what).filter (holds header) with
  | some kind => do
    let rows ← rowsOf kind rows
    let pieces ← rows.mapM pieceOf
    .ok (header, some pieces)
  | none => .ok (header, none)

def putPage (t : ReceivedTopology capacity) (rev : UInt32) :
    Option (List Piece) → Except InventoryError (ReceivedTopology capacity)
  | none => .ok t
  | some pieces => pieces.foldlM putJudged (t.onto rev)

theorem holdRows_ok {kind : RowKind} {rows : Bytes} :
    (∃ reader, holdRows kind t (CborReader.new rows) = .ok (t', reader) ∧ reader.finish = .ok ()) ↔
      ∃ list, rowsOf kind rows = .ok list ∧ list.foldlM holdRow t = .ok t' := by
  constructor
  · rintro ⟨reader, hrows, hfinish⟩
    obtain ⟨count, r₁, hcount, hloop⟩ := bind_run_ok.mp hrows
    obtain ⟨list, hlist, hfold⟩ := itemLoop_readAll.mp hloop
    exact ⟨list, bind_ok.mpr ⟨(list, reader), bind_run_ok.mpr ⟨count, r₁, hcount, hlist⟩,
      bind_ok.mpr ⟨(), mapError_ok.mpr hfinish, rfl⟩⟩, hfold⟩
  · rintro ⟨list, hlist, hfold⟩
    obtain ⟨⟨list', reader⟩, hrows, h⟩ := bind_ok.mp hlist
    obtain ⟨⟨⟩, hfinish, ⟨⟩⟩ := bind_ok.mp h
    obtain ⟨count, r₁, hcount, hread⟩ := bind_run_ok.mp hrows
    exact ⟨reader, bind_run_ok.mpr ⟨count, r₁, hcount, itemLoop_readAll.mpr ⟨_, hread, hfold⟩⟩,
      mapError_ok.mp hfinish⟩

theorem taken_ok {payload : Bytes} {header : InventoryHeader} : t.taken payload = .ok (header, t') ↔
    ∃ pieces, pageOf payload = .ok (header, pieces) ∧ t.putPage header.rev pieces = .ok t' := by
  unfold taken pageOf
  cases hbody : InventoryHeader.decodeWithRows payload with
  | error why =>
    constructor
    · rintro ⟨⟩
    · rintro ⟨_, ⟨⟩, -⟩
  | ok body =>
    obtain ⟨header', rows⟩ := body
    rw [ok_bind, ok_bind]
    cases hkind : RowKind.fromNumber header'.what with
    | none =>
      simp only [hkind, Option.filter_none]
      constructor
      · rintro ⟨⟩
        exact ⟨none, rfl, rfl⟩
      · rintro ⟨_, ⟨⟩, ⟨⟩⟩
        rfl
    | some kind =>
      cases hholds : holds header' kind with
      | false =>
        simp only [hkind, Option.filter_some, hholds, Bool.false_eq_true, if_false]
        constructor
        · rintro ⟨⟩
          exact ⟨none, rfl, rfl⟩
        · rintro ⟨_, ⟨⟩, ⟨⟩⟩
          rfl
      | true =>
        simp only [hkind, Option.filter_some, hholds, if_true]
        constructor
        · intro h
          obtain ⟨⟨next, reader⟩, hrows, h⟩ := bind_ok.mp h
          obtain ⟨⟨⟩, hfinish, ⟨⟩⟩ := bind_ok.mp h
          obtain ⟨list, hlist, hfold⟩ := holdRows_ok.mp ⟨reader, hrows, mapError_ok.mp hfinish⟩
          obtain ⟨pieces, hpieces, hput⟩ := holdRows_pieces.mp hfold
          exact ⟨some pieces, bind_ok.mpr ⟨list, hlist, bind_ok.mpr ⟨pieces, hpieces, rfl⟩⟩, hput⟩
        · rintro ⟨_, h, hput⟩
          obtain ⟨list, hlist, h⟩ := bind_ok.mp h
          obtain ⟨pieces, hpieces, ⟨⟩⟩ := bind_ok.mp h
          obtain ⟨reader, hrows, hfinish⟩ := holdRows_ok.mpr ⟨list, hlist, holdRows_pieces.mpr ⟨pieces, hpieces, hput⟩⟩
          exact bind_ok.mpr ⟨(t', reader), hrows, bind_ok.mpr ⟨(), mapError_ok.mpr hfinish, rfl⟩⟩

def receiver : Machine (ReceivedTopology capacity) Bytes (Bytes × Except InventoryError InventoryHeader) :=
  fun t payload => ((t.page payload).2, payload, (t.page payload).1)

def accepted : Bytes × Except InventoryError InventoryHeader → List Bytes
  | (payload, .ok _) => [payload]
  | (_, .error _) => []

def reached (capacity : ℕ) (pages : List Bytes) : ReceivedTopology capacity := receiver.final (new capacity) pages

def took (capacity : ℕ) (pages : List Bytes) : List Bytes :=
  (receiver.outputs (new capacity) pages).flatMap accepted

def Says (payload : Bytes) (rev : UInt32) (piece : Piece) : Prop :=
  ∃ header pieces, pageOf payload = .ok (header, some pieces) ∧ header.rev = rev ∧ piece ∈ pieces

structure OneRev (t : ReceivedTopology capacity) (pages : List Bytes) : Prop where
  devices : ∀ d ∈ t.held, ∃ rev, t.rev = some rev ∧ ∃ payload ∈ pages, Says payload rev (.device d)
  buses : ∀ bus transport, t.buses bus = some transport →
    ∃ rev, t.rev = some rev ∧ ∃ payload ∈ pages, Says payload rev (.bus bus transport)

theorem OneRev.more {pages : List Bytes} (h : t.OneRev pages) (payload : Bytes) : t.OneRev (pages ++ [payload]) := by
  constructor
  · intro d hd
    obtain ⟨rev, hrev, page, hmem, hsays⟩ := h.devices d hd
    exact ⟨rev, hrev, page, List.mem_append_left _ hmem, hsays⟩
  · intro bus transport hb
    obtain ⟨rev, hrev, page, hmem, hsays⟩ := h.buses bus transport hb
    exact ⟨rev, hrev, page, List.mem_append_left _ hmem, hsays⟩

theorem onto_sound (hs : t.Sound) (rev : UInt32) : (t.onto rev).Sound := by
  unfold onto
  split_ifs
  · exact hs
  · exact restart_sound rev

theorem onto_rev (t : ReceivedTopology capacity) (rev : UInt32) : (t.onto rev).rev = some rev := by
  unfold onto
  split_ifs with h
  · exact h
  · rfl

theorem onto_oneRev {pages : List Bytes} (h : t.OneRev pages) (rev : UInt32) : (t.onto rev).OneRev pages := by
  unfold onto
  split_ifs
  · exact h
  · exact ⟨by simp [restart_held], fun _ _ hb => nomatch hb⟩

theorem From.oneRev {payload : Bytes} {header : InventoryHeader} {pieces : List Piece} {pages : List Bytes}
    (h : From t t' pieces) (hpage : pageOf payload = .ok (header, some pieces)) (hrev : t.rev = some header.rev)
    (ht : t.OneRev pages) : t'.OneRev (pages ++ [payload]) := by
  have hsays : ∀ piece ∈ pieces, Says payload header.rev piece := fun piece hp =>
    ⟨header, pieces, hpage, rfl, hp⟩
  have hlast : payload ∈ pages ++ [payload] := by simp
  constructor
  · intro d hd
    rcases h.devices d hd with hd | hd
    · rw [h.rev]
      exact (ht.more payload).devices d hd
    · exact ⟨header.rev, h.rev.trans hrev, payload, hlast, hsays _ hd⟩
  · intro bus transport hb
    rcases h.buses bus transport hb with hb | hb
    · rw [h.rev]
      exact (ht.more payload).buses bus transport hb
    · exact ⟨header.rev, h.rev.trans hrev, payload, hlast, hsays _ hb⟩

theorem page_refused {payload : Bytes} {why : InventoryError} (h : (t.page payload).1 = .error why) :
    (t.page payload).2 = t := by
  unfold page at h ⊢
  cases htaken : t.taken payload with
  | error e => rfl
  | ok p =>
    rw [htaken] at h
    cases h

theorem page_kept {payload : Bytes} {pages : List Bytes} (hs : t.Sound) (ho : t.OneRev pages) :
    (t.page payload).2.Sound ∧ (t.page payload).2.OneRev (pages ++ accepted (payload, (t.page payload).1)) := by
  unfold page
  cases htaken : t.taken payload with
  | error why => simpa [accepted] using ⟨hs, ho⟩
  | ok p =>
    obtain ⟨header, next⟩ := p
    obtain ⟨pieces, hpage, hput⟩ := taken_ok.mp htaken
    cases pieces with
    | none =>
      cases hput
      exact ⟨hs, ho.more payload⟩
    | some pieces =>
      exact ⟨pieces_sound (onto_sound hs header.rev) hput,
        (pieces_from hput).oneRev hpage (onto_rev t header.rev) (onto_oneRev ho header.rev)⟩

theorem new_sound (capacity : ℕ) : (new capacity).Sound := by
  constructor
  · rw [new_held]
    exact ⟨by simp, .nil⟩
  · rw [new_held]
    exact List.nodup_nil

theorem new_oneRev (capacity : ℕ) : (new capacity).OneRev [] :=
  ⟨by simp [new_held], fun _ _ hb => nomatch hb⟩

theorem reached_kept (capacity : ℕ) (pages : List Bytes) :
    (reached capacity pages).Sound ∧ (reached capacity pages).OneRev (took capacity pages) := by
  have h := receiver.final_records (fun t past => t.Sound ∧ t.OneRev past) accepted
    (fun t past payload hkept => page_kept hkept.1 hkept.2) [] ⟨new_sound capacity, new_oneRev capacity⟩ pages
  exact h

/-- After any run of pages, accepted or refused, what is held is placed and of one revision; and a page that is
refused changes nothing. -/
theorem received_keeps (capacity : ℕ) (pages : List Bytes) :
    Placed (reached capacity pages).buses (reached capacity pages).held ∧
      ((reached capacity pages).held.map HeldDevice.dev).Nodup ∧
      (reached capacity pages).held.length ≤ capacity ∧
      (reached capacity pages).OneRev (took capacity pages) ∧
      ∀ payload why, ((reached capacity pages).page payload).1 = .error why →
        ((reached capacity pages).page payload).2 = reached capacity pages := by
  obtain ⟨hsound, horev⟩ := reached_kept capacity pages
  exact ⟨hsound.placed, hsound.unique, held_length_le _, horev, fun _ _ => page_refused⟩

end ReceivedTopology

end Km43.Topology
