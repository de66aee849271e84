import Km43.Inventory.BodyTrip

namespace Km43.Inventory

open Library Cbor CborReader CborWriter

def field {α : Type} (ps : List (Key × Item)) (k : InventoryKey) (f : Item → Option α) : Option α :=
  (valueAt ps k.number).bind f

def StrayCursor (payload : Bytes) : Prop :=
  ∃ w ps rev what total next number outcome wr, (Item.map w ps).Legal maxDepth ∧ (Item.map w ps).spelling = payload ∧
    Keyed ps ∧ field ps .rev u32Of = some rev ∧ field ps .what u8Of = some what ∧ field ps .total u16Of = some total ∧
    field ps .next u16Of = some next ∧ next ≠ 0 ∧ field ps .outcome u8Of = some number ∧
    InventoryOutcome.of number = some outcome ∧ outcome ≠ .ok ∧ valueAt ps InventoryKey.rows.number = some (.array wr []) ∧
    valueAt ps InventoryKey.digest.number = none

namespace InventoryHeader

theorem checkRows_ok {i : Item} (hi : i.Legal maxDepth) {n : ℕ} {rows : Bytes} :
    checkRows i.spelling = .ok (n, rows) ↔ rows = i.spelling ∧ ∃ w items, i = .array w items ∧ n = items.length := by
  unfold checkRows count
  rcases array_head hi with ⟨w, items, r, rfl, harray, -⟩ | ⟨hnone, why, harray⟩
  · rw [harray]
    constructor
    · rintro ⟨⟩
      exact ⟨rfl, w, items, rfl, rfl⟩
    · rintro ⟨rfl, w', items', heq, rfl⟩
      obtain ⟨-, rfl⟩ := Item.array.inj heq
      rfl
  · rw [harray]
    constructor
    · rintro ⟨⟩
    · rintro ⟨-, w, items, rfl, -⟩
      cases hnone

theorem valueAt_number (ps : List (Key × Item)) (k : InventoryKey) :
    valueAt ps (BodyKey.number k : ℤ) = valueAt ps k.number := by cases k <;> rfl

theorem slotOf_some {ps : List (Key × Item)} {s : table.Slots} {k : InventoryKey} {v : table.Value k}
    (h : Table.SlotOf item ps s k) (hv : s k = some v) : field ps k (item k) = some v := by
  unfold field
  rw [← valueAt_number]
  cases hvalue : valueAt ps (BodyKey.number k : ℤ) with
  | none =>
    rw [Table.slotOf_absent hvalue, hv] at h
    cases h
  | some i =>
    rw [Table.slotOf_present hvalue] at h
    rw [Option.bind_some, h.1, hv]

theorem slotOf_field {ps : List (Key × Item)} {s : table.Slots} {k : InventoryKey} {v : table.Value k}
    (hv : s k = some v) (h : field ps k (item k) = some v) : Table.SlotOf item ps s k := by
  obtain ⟨i, hi, hitem⟩ := Option.bind_eq_some_iff.mp h
  rw [← valueAt_number] at hi
  rw [Table.slotOf_present hi, hv]
  exact ⟨hitem, rfl⟩

theorem decode_ok {payload : Bytes} {header : InventoryHeader} :
    decode payload = .ok header ↔ ∃ array, decodeWithRows payload = .ok (header, array) := by
  unfold decode
  cases decodeWithRows payload with
  | error why => simp [Functor.map, Except.map]
  | ok p =>
    obtain ⟨found, array⟩ := p
    simp [Functor.map, Except.map]

theorem decode_answered {payload : Bytes} {header : InventoryHeader} (h : decode payload = .ok header)
    (hrefused : header.outcome ≠ .ok) : header.rows = 0 ∧ header.digest = none := by
  obtain ⟨array, h⟩ := decode_ok.mp h
  obtain ⟨s, -, hs⟩ := decodeWithRows_ok.mp h
  obtain ⟨-, hanswered, -⟩ := header_ok.mp hs
  by_contra hbad
  refine hanswered ⟨hrefused, ?_⟩
  by_contra hboth
  rw [not_or, not_not, Bool.not_eq_true, Option.isSome_eq_false_iff, Option.isNone_iff_eq_none] at hboth
  exact hbad hboth

def refusedSlots (rev : UInt32) (what : UInt8) (next total : UInt16) (number : UInt8) (rows : Item) : table.Slots
  | .rev => some rev
  | .what => some what
  | .rows => some (0, rows.spelling)
  | .next => some next
  | .total => some total
  | .outcome => some number
  | .digest => none

theorem decode_stray (payload : Bytes) : StrayCursor payload ↔
    ∃ header, decode payload = .ok header ∧ header.outcome ≠ .ok ∧ header.next ≠ 0 := by
  simp only [decode_ok, decodeWithRows_ok, Table.arms_decode arms payload, header_ok]
  constructor
  · rintro ⟨w, ps, rev, what, total, next, number, outcome, wr, hlegal, hspell, hkeyed, hrev, hwhat, htotal, hnext,
      hstray, hnumber, houtcome, hrefused, hrows, hdigest⟩
    have hbyte := (InventoryOutcome.of_iff _ _).mp houtcome
    obtain ⟨key, -, hmem⟩ := valueAt_mem hrows
    have harray := (checkRows_ok (((hlegal.2.2 _ hmem).2).mono (by decide))).mpr ⟨rfl, wr, [], rfl, rfl⟩
    have hslots : ∀ k, Table.SlotOf item ps (refusedSlots rev what next total number (.array wr [])) k := by
      intro k
      cases k with
      | rev => exact slotOf_field rfl hrev
      | what => exact slotOf_field rfl hwhat
      | rows =>
        refine slotOf_field rfl ?_
        unfold field
        rw [hrows]
        exact congrArg Except.toOption harray
      | next => exact slotOf_field rfl hnext
      | total => exact slotOf_field rfl htotal
      | outcome => exact slotOf_field rfl hnumber
      | digest =>
        exact (Table.slotOf_absent ((valueAt_number ps .digest).trans hdigest)).mpr rfl
    refine ⟨⟨rev, what, outcome, next, total, 0, none⟩, ⟨(Item.array wr []).spelling, _,
      ⟨w, ps, hlegal, hspell, hkeyed, hslots⟩, ?_, ?_, ?_⟩,
      hrefused, hstray⟩
    · rw [← hbyte]
      rfl
    · rintro ⟨-, hbad | hbad⟩
      · exact hbad rfl
      · cases hbad
    · rintro ⟨hbad, -⟩
      cases hbad
  · rintro ⟨header, ⟨array, s, ⟨w, ps, hlegal, hspell, hkeyed, hslots⟩, hs, hanswered, hmid⟩, hrefused, hstray⟩
    obtain ⟨hrev, hwhat, hrows, hnext, htotal, houtcome, hdigest⟩ := Slots.mk.inj hs
    have hnone := decode_answered (decode_ok.mpr ⟨array, decodeWithRows_ok.mpr ⟨s, (Table.arms_decode arms payload s).mpr
      ⟨w, ps, hlegal, hspell, hkeyed, hslots⟩, header_ok.mpr ⟨hs, hanswered, hmid⟩⟩⟩) hrefused
    obtain ⟨i, hi, hitem⟩ := Option.bind_eq_some_iff.mp (slotOf_some (hslots .rows) hrows)
    obtain ⟨key, -, hmem⟩ := valueAt_mem hi
    have hcheck : checkRows i.spelling = .ok (header.rows, array) := toOption_some.mp hitem
    obtain ⟨-, wr, items, rfl, hlen⟩ := (checkRows_ok (((hlegal.2.2 _ hmem).2).mono (by decide))).mp hcheck
    rw [hnone.1] at hlen
    obtain rfl := List.length_eq_zero_iff.mp hlen.symm
    have hgone : valueAt ps InventoryKey.digest.number = none := by
      have hheld : s .digest = none := hdigest.trans hnone.2
      have habsent := (hslots .digest).has.not.mpr (by rw [hheld]; simp)
      exact (valueAt_number ps .digest).symm.trans (valueAt_none.mpr habsent)
    exact ⟨w, ps, header.rev, header.what, header.total, header.next, header.outcome.number, header.outcome, wr, hlegal,
      hspell, hkeyed, slotOf_some (hslots .rev) hrev, slotOf_some (hslots .what) hwhat,
      slotOf_some (hslots .total) htotal, slotOf_some (hslots .next) hnext, hstray,
      slotOf_some (hslots .outcome) houtcome, InventoryOutcome.of_number _, hrefused, hi, hgone⟩

end InventoryHeader

/-- Every body that is written is read back as it was, and a refusal that is read carries no rows, no cursor and no
digest, exactly of the payloads in which no cursor strays. -/
theorem refusals_carry_nothing (rev : UInt32) (what : UInt8) (outcome : InventoryOutcome) (total : UInt16)
    (offered : Option (RowKind × List (Row × UInt16))) (digest : Option Digest) (dst : ℕ) (payload : Bytes) :
    ((∀ out, (InventoryBody.ofRows rev what outcome total offered digest).encode dst = .ok out →
        InventoryHeader.decodeWithRows out = .ok ((InventoryBody.ofRows rev what outcome total offered digest).header,
          (InventoryBody.ofRows rev what outcome total offered digest).array)) ∧
      ∀ header, InventoryHeader.decode payload = .ok header → header.outcome ≠ .ok →
        header.rows = 0 ∧ header.next = 0 ∧ header.digest = none) ↔ ¬StrayCursor payload := by
  rw [and_iff_right]
  · rw [InventoryHeader.decode_stray]
    constructor
    · rintro h ⟨header, hdecode, hrefused, hnext⟩
      exact hnext (h header hdecode hrefused).2.1
    · intro h header hdecode hrefused
      obtain ⟨hrows, hdigest⟩ := InventoryHeader.decode_answered hdecode hrefused
      refine ⟨hrows, ?_, hdigest⟩
      by_contra hnext
      exact h ⟨header, hdecode, hrefused, hnext⟩
  · intro out hout
    obtain ⟨packed, hrows, hfew⟩ := InventoryBody.ofRows_holds rev what outcome total offered digest
    obtain ⟨hwritten, rfl, -⟩ := (InventoryBody.encode_ok hrows hfew).mp hout
    exact InventoryBody.decode_items hwritten hrows hfew

/-- A refusal that names an id to go on at is read as one. -/
theorem stray_cursor_read : ¬∀ payload header, InventoryHeader.decode payload = .ok header → header.outcome ≠ .ok →
    header.rows = 0 ∧ header.next = 0 ∧ header.digest = none := by
  intro h
  have hread : ((InventoryHeader.decode
      [0xA6, 0x01, 0x01, 0x02, 0x01, 0x03, 0x80, 0x04, 0x05, 0x05, 0x00, 0x06, 0x04]).toOption.map
        fun header => (header.outcome, header.next)) = some (.outOfRange, 5) := by
    decide +kernel
  obtain ⟨header, hheader, hfields⟩ := Option.map_eq_some_iff.mp hread
  obtain ⟨houtcome, hnext⟩ := Prod.mk.inj hfields
  have hdecode := toOption_some.mp hheader
  obtain ⟨-, hzero, -⟩ := h _ _ hdecode (by rw [houtcome]; decide)
  rw [hzero] at hnext
  cases hnext

end Km43.Inventory
