import Km43.Cbor.Packed
import Km43.Inventory.Header
import Km43.Inventory.RowTrip
import Km43.Cbor.Record

namespace Km43.Inventory

open Library Cbor CborReader CborWriter

structure Page where
  kind : RowKind
  rows : Packed
  next : UInt16

namespace Page

def new (kind : RowKind) : Page := ⟨kind, .empty, 0⟩

/-- Whether the page took the row; where it is full, the row is where the next page resumes. -/
def push (page : Page) (row : Row) (id : UInt16) : Except InventoryError Bool × Page :=
  if row.kind ≠ page.kind then (.error (.wrongKind page.kind row.kind), page)
  else
    let pushed := page.rows.push maxInventoryPageRows maxRowBytes maxInventoryPageBytes row.encode
    (pushed.1, { page with
      rows := pushed.2
      next := match pushed.1 with
        | .ok false => id
        | _ => page.next })

def isEmpty (page : Page) : Bool := page.rows.rows == 0

def encodedRows (page : Page) : Bytes := page.rows.bytes

def built (kind : RowKind) (rows : List (Row × UInt16)) : Page :=
  rows.foldl (fun page offered => (page.push offered.1 offered.2).2) (new kind)

end Page

structure InventoryBody where
  rev : UInt32
  what : UInt8
  outcome : InventoryOutcome
  total : UInt16
  page : Option Page
  digest : Option Digest

namespace InventoryBody

def answered (body : InventoryBody) : Bool := body.outcome = .ok

def shown (body : InventoryBody) : Option Page := body.page.filter fun _ => body.answered

def next (body : InventoryBody) : UInt16 :=
  if body.answered then
    match body.page with
    | some page => page.next
    | none => 0
  else 0

def rows (body : InventoryBody) : Packed :=
  match body.shown with
  | some page => page.rows
  | none => .empty

def front (body : InventoryBody) : List (InventoryKey × List Call) :=
  [(.rev, [.u64 body.rev.toUInt64]), (.what, [.u64 body.what.toUInt64])]

def back (body : InventoryBody) : List (InventoryKey × List Call) :=
  [(.next, [.u64 body.next.toUInt64]), (.total, [.u64 body.total.toUInt64]),
    (.outcome, [.u64 body.outcome.number.toUInt64])] ++
  (body.digest.map fun digest => (.digest, [.bytes digest.raw])).toList

end InventoryBody

namespace InventoryKey

theorem of_iff (n : ℤ) (k : InventoryKey) : of n = some k ↔ n = k.number.toNat := by
  constructor
  · intro h
    unfold of at h
    split_ifs at h <;> cases h <;> assumption
  · rintro rfl
    cases k <;> rfl

theorem small (k : InventoryKey) : k.number.toNat < 256 := by cases k <;> decide

end InventoryKey

instance : BodyKey InventoryKey :=
  ⟨InventoryKey.of, fun k => k.number.toNat, InventoryKey.of_iff, InventoryKey.small⟩

def InventoryBody.write (body : InventoryBody) : Encoder InventoryError Unit :=
  writePacked (if body.digest.isSome then 7 else 6) body.front .rows body.rows body.back

/-- Nothing is encoded of a combination in which a refusal answers, or a digest stands before the last page. -/
def InventoryBody.encode (body : InventoryBody) (dst : ℕ) : Except InventoryError Bytes :=
  let held := match body.page with
    | some page => !page.isEmpty
    | none => false
  if !body.answered && (held || body.digest.isSome) then .error (.answeredNothing body.outcome)
  else if body.digest.isSome && body.next != 0 then .error .digestMidWalk
  else encodeBody body.write dst

theorem pair_spelling_le {pairs : List (Key × Item)} {p : Key × Item} (hp : p ∈ pairs) :
    p.2.spelling.length ≤ (Item.ofPairs pairs).spelling.length := by
  have hpair : (p.1.spelling ++ p.2.spelling).length ≤ (Item.spellPairs pairs).length := by
    rw [Item.spellPairs_eq, List.length_flatMap]
    exact List.single_le_sum (fun n _ => Nat.zero_le n) _ (List.mem_map_of_mem (f := fun p : Key × Item =>
      (p.1.spelling ++ p.2.spelling).length) hp)
  rw [List.length_append] at hpair
  rw [Item.ofPairs, Item.spelling, List.length_append]
  omega

namespace Value

theorem item_legal {value : Value} {d : ℕ} (hshort : value.Short) (hlen : value.item.spelling.length < 2 ^ 64) :
    value.item.Legal (d + 1) := by
  cases value with
  | u8 v => exact Item.ofNat_legal (by have := v.toNat_lt; omega)
  | u16 v => exact Item.ofNat_legal (by have := v.toNat_lt; omega)
  | u32 v => exact Item.ofNat_legal (by have := v.toNat_lt; omega)
  | i8 v => exact Item.ofInt_legal
  | i32 v => exact Item.ofInt_legal
  | text v => exact Item.ofText_legal hshort
  | bytes v =>
    refine Item.ofBytes_legal (lt_of_le_of_lt ?_ hlen)
    rw [item, Item.ofBytes, Item.spelling, Token.spelling, List.length_append]
    exact Nat.le_add_left _ _
  | u16List v =>
    have hfits := v.fits
    unfold maxComponentCmds at hfits
    refine Item.ofItems_legal (by rw [List.length_map]; omega) fun i hi => ?_
    obtain ⟨one, -, rfl⟩ := List.mem_map.mp hi
    exact Item.ofNat_legal (by have := one.toNat_lt; omega)
  | absent => exact Item.bool_legal

end Value

namespace Row

variable {row : Row} {width : ℕ}

def item (row : Row) : Item := .ofPairs row.pairs

theorem encode_short (hwidth : width < 2 ^ 64) {out : Bytes} (h : encodeBody row.encode width = .ok out) :
    ∀ value ∈ row.values, value.Short := by
  have hdst : (UInt64.ofNat width).toNat = width := UInt64.toNat_ofNat_of_lt' hwidth
  rw [← hdst] at h
  obtain ⟨w, pairs, values, hlegal, -, -, hcells, hrow⟩ := RowSlots.decode_ok.mp (row.decode_encode _ _ h)
  have hvalues : row.values = values := congrArg RowValues.values (Row.new_ok.mp hrow)
  rw [hvalues]
  exact RowSlots.cells_short hlegal hcells

theorem pairs_few (row : Row) : row.pairs.length < 2 ^ 64 := by
  rw [pairs, List.length_map, row.count_toNat.symm]
  exact UInt64.toNat_lt _

theorem item_legal (hshort : ∀ value ∈ row.values, value.Short) (hlen : row.item.spelling.length < 2 ^ 64) :
    row.item.Legal 6 := by
  refine Item.ofPairs_legal row.pairs_few (rising_ascends row.present_rises) fun p hp => ?_
  have hle := pair_spelling_le hp
  obtain ⟨q, hq, rfl⟩ := List.mem_map.mp hp
  have hkey := q.1.key.toNat_lt
  refine ⟨Key.ofNat_legal (by omega), Value.item_legal ?_ (hle.trans_lt hlen)⟩
  exact hshort _ (List.of_mem_zip (List.mem_filter.mp hq).1).2

end Row

namespace Page

structure Carries (page : Page) (rows : List Row) : Prop where
  holds : page.rows.Holds 6 (rows.map Row.item)
  few : page.rows.rows ≤ maxInventoryPageRows
  within : page.rows.bytes.length ≤ maxInventoryPageBytes
  kind : ∀ row ∈ rows, row.kind = page.kind
  decoded : ∀ row ∈ rows, RowSlots.decode row.kind row.item.spelling = .ok row

variable {page : Page} {rows : List Row} {row : Row} {id : UInt16}

theorem new_carries (kind : RowKind) : Carries (new kind) [] :=
  ⟨Packed.empty_holds, Nat.zero_le _, Nat.zero_le _, by simp, by simp⟩

theorem push_refused (h : (page.push row id).1 ≠ .ok true) :
    (page.push row id).2.rows = page.rows ∧ (page.push row id).2.kind = page.kind := by
  unfold push at h ⊢
  split_ifs at h ⊢ with hkind
  · exact ⟨rfl, rfl⟩
  · exact ⟨Packed.push_refused h, rfl⟩

theorem push_carries (h : Carries page rows) (htook : (page.push row id).1 = .ok true) :
    Carries (page.push row id).2 (rows ++ [row]) := by
  unfold push at htook ⊢
  split_ifs at htook ⊢ with hkind
  obtain ⟨one, hone⟩ := Packed.push_took htook
  have hshort := Row.encode_short (by decide) hone
  obtain ⟨rfl, hlen⟩ := (Row.encode_ok hshort).mp hone
  have hlegal := Row.item_legal hshort (hlen.trans_lt (by decide))
  obtain ⟨hholds, hfew, hwithin⟩ := Packed.push_taken h.holds hlegal (fun out => Row.encode_ok hshort) htook
  have hdecode := row.decode_encode (UInt64.ofNat maxRowBytes) _ hone
  refine ⟨?_, hfew, hwithin, ?_, ?_⟩
  · rw [List.map_append]
    exact hholds
  · simp only [List.forall_mem_append, List.forall_mem_singleton]
    exact ⟨h.kind, not_not.mp hkind⟩
  · simp only [List.forall_mem_append, List.forall_mem_singleton]
    exact ⟨h.decoded, hdecode⟩

theorem built_carries (kind : RowKind) (offered : List (Row × UInt16)) : ∃ rows, Carries (built kind offered) rows := by
  have hfold : ∀ (offered : List (Row × UInt16)) page rows, Carries page rows →
      ∃ rows, Carries (offered.foldl (fun page one => (page.push one.1 one.2).2) page) rows := by
    intro offered
    induction offered with
    | nil => exact fun page rows h => ⟨rows, h⟩
    | cons one rest ih =>
      intro page rows h
      by_cases htook : (page.push one.1 one.2).1 = .ok true
      · exact ih _ _ (push_carries h htook)
      · obtain ⟨hrows, hkind⟩ := push_refused htook
        refine ih _ rows ⟨?_, ?_, ?_, ?_, h.decoded⟩
        · rw [hrows]
          exact h.holds
        · rw [hrows]
          exact h.few
        · rw [hrows]
          exact h.within
        · rw [hkind]
          exact h.kind
  exact hfold offered _ _ (new_carries kind)

end Page

end Km43.Inventory
