import Km43.Cbor.Cells
import Km43.Inventory.Page

namespace Km43.Inventory

open Library Cbor CborReader CborWriter

theorem InventoryOutcome.of_iff (n : UInt8) (outcome : InventoryOutcome) : of n = some outcome ↔ n = outcome.number := by
  constructor
  · intro h
    unfold of at h
    iterate 4
      rcases arm_some h with ⟨hn, rfl⟩ | h
      · exact hn
    cases h
  · rintro rfl
    exact of_number outcome

namespace InventoryHeader

def Value : InventoryKey → Type
  | .rev => UInt32
  | .what | .outcome => UInt8
  | .rows => ℕ × Bytes
  | .next | .total => UInt16
  | .digest => Digest

def table : Table InventoryError InventoryKey where
  Value := Value
  read
    | .rev => ask u32
    | .what => ask u8
    | .rows => rowsFrom
    | .next => ask u16
    | .total => ask u16
    | .outcome => ask u8
    | .digest => digestFrom
  twice := .duplicateResponse

def ofTable (s : table.Slots) : Slots := ⟨s .rev, s .what, s .rows, s .next, s .total, s .outcome, s .digest⟩

theorem records : table.Records ofTable Slots.step := by
  constructor
  · intro k s
    cases k <;> rfl
  · intro n s hn
    unfold Slots.step
    cases h : InventoryKey.of n with
    | none => rfl
    | some k => exact absurd ⟨k, (InventoryKey.of_iff n k).mp h⟩ hn

def checkRows (rows : Bytes) : Except InventoryError (ℕ × Bytes) := do
  let n ← count rows
  .ok (n, rows)

def checkDigest (raw : Bytes) : Except InventoryError Digest :=
  if h : raw.length = 8 then .ok ⟨raw, h⟩ else .error (.digestWidth raw.length)

theorem rowsFrom_eq : rowsFrom = checkedRead (ask CborReader.raw) checkRows := by
  unfold rowsFrom checkedRead
  refine congrArg _ (funext fun rows => ?_)
  unfold checkRows
  cases count rows <;> rfl

theorem digestFrom_eq : digestFrom = checkedRead (ask bytesValue) checkDigest := by
  unfold digestFrom checkedRead
  refine congrArg _ (funext fun raw => ?_)
  unfold checkDigest
  split_ifs <;> rfl

theorem digestFrom_reads : Reads (fun _ => True) 7 digestFrom fun i => i.bytes?.bind fun raw => (checkDigest raw).toOption := by
  rw [digestFrom_eq]
  exact checkedRead_reads (.bytesValue fun _ => trivial) checkDigest

def item : ∀ k, Item → Option (table.Value k)
  | .rev => u32Of
  | .what | .outcome => u8Of
  | .rows => fun i => (checkRows i.spelling).toOption
  | .next | .total => u16Of
  | .digest => fun i => i.bytes?.bind fun raw => (checkDigest raw).toOption

def arms : ∀ k, table.Arm 7 item k
  | .rev => .typed (.u32 fun _ => trivial)
  | .what | .outcome => .typed (.u8 fun _ => trivial)
  | .rows => .kept checkRows rowsFrom_eq fun _ => rfl
  | .next | .total => .typed (.u16 fun _ => trivial)
  | .digest => .typed digestFrom_reads

theorem decodeWithRows_ok {payload : Bytes} {x : InventoryHeader × Bytes} : decodeWithRows payload = .ok x ↔
    ∃ s : table.Slots, decodeBody table.slots payload = .ok s ∧ (ofTable s).header = .ok x := by
  have hbody : decodeWithRows payload = (do let s ← decodeBody slots payload; s.header) := by
    unfold decodeWithRows decodeBody
    cases slots (.new payload) with
    | error why => rfl
    | ok p =>
      obtain ⟨s, r⟩ := p
      simp only [bind, Except.bind]
      cases r.finish <;> rfl
  have hslots : decodeBody slots payload = ofTable <$> decodeBody table.slots payload := records.body rfl payload
  rw [hbody, hslots, bind_ok]
  constructor
  · rintro ⟨s, hs, h⟩
    cases htable : decodeBody table.slots payload with
    | error why =>
      rw [htable] at hs
      cases hs
    | ok filled =>
      rw [htable] at hs
      cases hs
      exact ⟨filled, rfl, h⟩
  · rintro ⟨s, hs, h⟩
    rw [hs]
    exact ⟨_, rfl, h⟩

theorem header_ok {s : Slots} {header : InventoryHeader} {array : Bytes} : s.header = .ok (header, array) ↔
    s = ⟨some header.rev, some header.what, some (header.rows, array), some header.next, some header.total,
      some header.outcome.number, header.digest⟩ ∧
    ¬(header.outcome ≠ .ok ∧ (header.rows ≠ 0 ∨ header.digest.isSome)) ∧
    ¬(header.digest.isSome ∧ header.next ≠ 0) := by
  constructor
  · intro h
    obtain ⟨number, hnumber, h⟩ := bind_ok.mp h
    obtain ⟨outcome, houtcome, h⟩ := bind_ok.mp h
    obtain ⟨next, hnext, h⟩ := bind_ok.mp h
    obtain ⟨⟨rows, bytes⟩, hrows, h⟩ := bind_ok.mp h
    dsimp only at h
    have hanswered : ¬(outcome ≠ .ok ∧ (rows ≠ 0 ∨ s.digest.isSome)) := by
      intro hbad
      rw [if_pos hbad] at h
      cases h
    rw [if_neg hanswered] at h
    have hmid : ¬(s.digest.isSome ∧ next ≠ 0) := by
      intro hbad
      rw [if_pos hbad] at h
      cases h
    rw [if_neg hmid] at h
    obtain ⟨rev, hrev, h⟩ := bind_ok.mp h
    obtain ⟨what, hwhat, h⟩ := bind_ok.mp h
    obtain ⟨total, htotal, ⟨⟩⟩ := bind_ok.mp h
    have hbyte := (InventoryOutcome.of_iff _ _).mp (slotRequired_ok.mp houtcome)
    rw [slotRequired_ok] at hnumber hnext hrows hrev hwhat htotal
    refine ⟨?_, ?_, ?_⟩
    · obtain ⟨_, _, _, _, _, _, _⟩ := s
      simp only at hnumber hnext hrows hrev hwhat htotal
      simp only [hnumber, hnext, hrows, hrev, hwhat, htotal, hbyte]
    · exact hanswered
    · exact hmid
  · rintro ⟨rfl, hanswered, hmid⟩
    simp only [Slots.header, slotRequired_some, InventoryOutcome.of_number, bind, Except.bind]
    rw [if_neg hanswered, if_neg hmid]
    rfl

end InventoryHeader

namespace InventoryBody

variable {body : InventoryBody} {packed : List Item}

def header (body : InventoryBody) : InventoryHeader :=
  ⟨body.rev, body.what, body.outcome, body.next, body.total, body.rows.rows, body.digest⟩

def array (body : InventoryBody) : Bytes :=
  headBytes .array (Width.of body.rows.rows) body.rows.rows ++ body.rows.bytes

structure Written (body : InventoryBody) : Prop where
  answered : body.outcome ≠ .ok → (∀ page ∈ body.page, page.isEmpty = true) ∧ body.digest = none
  last : body.digest.isSome → body.next = 0

def frontItems (body : InventoryBody) : List (InventoryKey × Item) :=
  [(.rev, .ofNat body.rev.toNat), (.what, .ofNat body.what.toNat)]

def backItems (body : InventoryBody) : List (InventoryKey × Item) :=
  [(.next, .ofNat body.next.toNat), (.total, .ofNat body.total.toNat), (.outcome, .ofNat body.outcome.number.toNat)] ++
    (body.digest.map fun digest => (.digest, .ofBytes digest.raw)).toList

def items (body : InventoryBody) (rows : List Item) : List (InventoryKey × Item) :=
  body.frontItems ++ (.rows, .ofItems rows) :: body.backItems

theorem items_rising : Rising (body.items packed) := by
  unfold InventoryBody.items frontItems backItems
  cases body.digest <;> simp [Rising, BodyKey.number, InventoryKey.number]

theorem items_length : (body.items packed).length = 6 + body.digest.isSome.toNat := by
  unfold InventoryBody.items frontItems backItems
  cases body.digest <;> rfl

theorem items_legal (hrows : body.rows.Holds 6 packed) (hfew : body.rows.rows < 2 ^ 64) :
    ∀ e ∈ body.items packed, e.2.Legal 7 := by
  have hlen : packed.length < 2 ^ 64 := hrows.rows ▸ hfew
  have hrev := body.rev.toNat_lt
  have hwhat := body.what.toNat_lt
  have hnext := body.next.toNat_lt
  have htotal := body.total.toNat_lt
  have houtcome := body.outcome.number.toNat_lt
  have hdigest : ∀ digest : Digest, (Item.ofBytes digest.raw).Legal 7 := by
    intro digest
    have hwidth := digest.width
    exact Item.ofBytes_legal (by omega)
  have harray : (Item.ofItems packed).Legal 7 := Item.ofItems_legal hlen hrows.legal
  unfold InventoryBody.items frontItems backItems
  cases body.digest with
  | none =>
    simp only [List.cons_append, List.nil_append, List.append_nil, Option.map_none, Option.toList_none,
      List.forall_mem_cons]
    exact ⟨Item.ofNat_legal (by omega), Item.ofNat_legal (by omega), harray, Item.ofNat_legal (by omega),
      Item.ofNat_legal (by omega), Item.ofNat_legal (by omega), by simp⟩
  | some digest =>
    simp only [List.cons_append, List.nil_append, Option.map_some, Option.toList_some, List.forall_mem_cons]
    exact ⟨Item.ofNat_legal (by omega), Item.ofNat_legal (by omega), harray, Item.ofNat_legal (by omega),
      Item.ofNat_legal (by omega), Item.ofNat_legal (by omega), hdigest digest, by simp⟩

theorem front_spelled : Spelled 7 body.front body.frontItems :=
  .cons ⟨rfl, writes_one rfl⟩ <| .cons ⟨rfl, writes_one rfl⟩ .nil

theorem back_spelled : Spelled 7 body.back body.backItems := by
  unfold back backItems
  cases body.digest with
  | none => exact .cons ⟨rfl, writes_one rfl⟩ <| .cons ⟨rfl, writes_one rfl⟩ <| .cons ⟨rfl, writes_one rfl⟩ .nil
  | some digest =>
    exact .cons ⟨rfl, writes_one rfl⟩ <| .cons ⟨rfl, writes_one rfl⟩ <| .cons ⟨rfl, writes_one rfl⟩ <|
      .cons ⟨rfl, writes_one rfl⟩ .nil

theorem encode_checks {dst : ℕ} {out : Bytes} : body.encode dst = .ok out ↔ body.Written ∧
    encodeBody body.write dst = .ok out := by
  obtain ⟨rev, what, outcome, total, page, digest⟩ := body
  unfold encode
  constructor
  · intro h
    dsimp only at h
    split_ifs at h with hheld hmid
    refine ⟨⟨fun houtcome => ?_, fun hdigest => ?_⟩, h⟩
    · have hnot : answered ⟨rev, what, outcome, total, page, digest⟩ = false := decide_eq_false houtcome
      rw [hnot, Bool.not_false, Bool.true_and, Bool.not_eq_true, Bool.or_eq_false_iff] at hheld
      refine ⟨fun held hpage => ?_, by simpa using hheld.2⟩
      cases hpage
      simpa using hheld.1
    · by_contra hnext
      exact hmid (Bool.and_eq_true_iff.mpr ⟨hdigest, bne_iff_ne.mpr hnext⟩)
  · rintro ⟨⟨hanswered, hlast⟩, h⟩
    dsimp only at hanswered hlast ⊢
    rw [if_neg, if_neg]
    · exact h
    · intro hbad
      obtain ⟨hdigest, hnext⟩ := Bool.and_eq_true_iff.mp hbad
      exact bne_iff_ne.mp hnext (hlast hdigest)
    · intro hbad
      obtain ⟨hnot, hheld⟩ := Bool.and_eq_true_iff.mp hbad
      have houtcome : outcome ≠ .ok := by simpa [answered] using hnot
      obtain ⟨hempty, rfl⟩ := hanswered houtcome
      cases page with
      | none => cases hheld
      | some page =>
        have hnone := hempty page rfl
        simp [hnone] at hheld

theorem encode_ok (hrows : body.rows.Holds 6 packed) (hfew : body.rows.rows < 2 ^ 64) {dst : ℕ} {out : Bytes} :
    body.encode dst = .ok out ↔ body.Written ∧ out = (bodyItem (body.items packed)).spelling ∧
      (bodyItem (body.items packed)).spelling.length ≤ dst := by
  have hcount : (body.items packed).length = (if body.digest.isSome then (7 : UInt64) else 6).toNat := by
    rw [items_length]
    cases body.digest <;> rfl
  rw [encode_checks, write, encode_packed front_spelled back_spelled hrows hfew items_rising hcount]
  rfl

theorem array_item (hrows : body.rows.Holds 6 packed) : (Item.ofItems packed).spelling = body.array := by
  rw [array, hrows.rows, hrows.bytes]
  rfl

theorem checkRows_packed (hrows : body.rows.Holds 6 packed) (hfew : body.rows.rows < 2 ^ 64) :
    InventoryHeader.checkRows (Item.ofItems packed).spelling = .ok (body.rows.rows, body.array) := by
  have hlegal : (Item.ofItems packed).Legal maxDepth :=
    (Item.ofItems_legal (hrows.rows ▸ hfew) hrows.legal).mono (by decide)
  rcases array_head hlegal with ⟨w, items, r, heq, harray, -⟩ | ⟨hnone, -⟩
  · obtain ⟨-, rfl⟩ := Item.array.inj heq
    rw [InventoryHeader.checkRows, InventoryHeader.count, harray, array_item hrows, hrows.rows]
    rfl
  · cases hnone

def slots (body : InventoryBody) : InventoryHeader.table.Slots
  | .rev => some body.rev
  | .what => some body.what
  | .rows => some (body.rows.rows, body.array)
  | .next => some body.next
  | .total => some body.total
  | .outcome => some body.outcome.number
  | .digest => body.digest

theorem decode_items (hwritten : body.Written) (hrows : body.rows.Holds 6 packed) (hfew : body.rows.rows < 2 ^ 64) :
    InventoryHeader.decodeWithRows (bodyItem (body.items packed)).spelling = .ok (body.header, body.array) := by
  have hcheck := checkRows_packed hrows hfew
  have hfront : ∀ e ∈ body.frontItems, InventoryHeader.item e.1 e.2 = body.slots e.1 ∧ (body.slots e.1).isSome := by
    simp only [frontItems, List.forall_mem_cons]
    exact ⟨⟨u32Of_ofNat _, rfl⟩, ⟨u8Of_ofNat _, rfl⟩, by simp⟩
  have hback : ∀ e ∈ body.backItems, InventoryHeader.item e.1 e.2 = body.slots e.1 ∧ (body.slots e.1).isSome := by
    have hdigest : ∀ digest : Digest, InventoryHeader.checkDigest digest.raw = .ok digest := fun digest => dif_pos digest.width
    obtain ⟨rev, what, outcome, total, page, digest⟩ := body
    simp only [backItems, List.forall_mem_append, List.forall_mem_cons]
    refine ⟨⟨⟨u16Of_ofNat _, rfl⟩, ⟨u16Of_ofNat _, rfl⟩, ⟨u8Of_ofNat _, rfl⟩, by simp⟩, ?_⟩
    cases digest with
    | none => simp
    | some digest =>
      simp only [Option.map_some, Option.toList_some, List.forall_mem_singleton]
      exact ⟨congrArg Except.toOption (hdigest digest), rfl⟩
  have hslots : decodeBody InventoryHeader.table.slots (bodyItem (body.items packed)).spelling = .ok body.slots := by
    apply (Table.arms_decode InventoryHeader.arms).entries items_rising (items_legal hrows hfew)
    · unfold InventoryBody.items
      rw [List.forall_mem_append, List.forall_mem_cons]
      exact ⟨hfront, ⟨congrArg Except.toOption hcheck, rfl⟩, hback⟩
    · intro k hk
      obtain ⟨rev, what, outcome, total, page, digest⟩ := body
      cases k with
      | digest =>
        cases digest with
        | none => rfl
        | some digest => simp [InventoryBody.items, frontItems, backItems] at hk
      | rev | what | rows | next | total | outcome =>
        simp [InventoryBody.items, frontItems, backItems] at hk
  refine InventoryHeader.decodeWithRows_ok.mpr ⟨_, hslots, InventoryHeader.header_ok.mpr ⟨rfl, ?_, ?_⟩⟩
  · rintro ⟨houtcome, hbad⟩
    obtain ⟨hempty, hnone⟩ := hwritten.answered houtcome
    have hnot : body.answered = false := decide_eq_false houtcome
    have hrows : body.rows.rows = 0 := by
      unfold InventoryBody.rows shown
      rw [hnot]
      cases body.page <;> rfl
    rcases hbad with hbad | hbad
    · exact hbad hrows
    · change body.digest.isSome = true at hbad
      rw [hnone] at hbad
      cases hbad
  · rintro ⟨hdigest, hnext⟩
    exact hnext (hwritten.last hdigest)

def ofRows (rev : UInt32) (what : UInt8) (outcome : InventoryOutcome) (total : UInt16)
    (offered : Option (RowKind × List (Row × UInt16))) (digest : Option Digest) : InventoryBody :=
  ⟨rev, what, outcome, total, offered.map fun o => .built o.1 o.2, digest⟩

theorem ofRows_holds (rev : UInt32) (what : UInt8) (outcome : InventoryOutcome) (total : UInt16)
    (offered : Option (RowKind × List (Row × UInt16))) (digest : Option Digest) :
    ∃ packed, (ofRows rev what outcome total offered digest).rows.Holds 6 packed ∧
      (ofRows rev what outcome total offered digest).rows.rows < 2 ^ 64 := by
  have hnone : Packed.empty.rows < 2 ^ 64 := by decide
  unfold rows shown
  cases offered with
  | none => exact ⟨[], Packed.empty_holds, hnone⟩
  | some o =>
    cases (ofRows rev what outcome total (some o) digest).answered with
    | false => exact ⟨[], Packed.empty_holds, hnone⟩
    | true =>
      obtain ⟨rows, hcarries⟩ := Page.built_carries o.1 o.2
      exact ⟨_, hcarries.holds, hcarries.few.trans_lt (by decide)⟩

end InventoryBody

end Km43.Inventory
