import Km43.Identity.Crypto
import Km43.Inventory.Page

namespace Km43.Inventory

open Library Cbor Identity

def topoDigestLabel : Bytes := ascii "km43/v1/topo-digest"

structure TopoDigest where
  fed : Bytes
  last : Option RowKind

namespace TopoDigest

def new (rev : UInt32) : TopoDigest := ⟨topoDigestLabel ++ u32Bytes rev, none⟩

def absorb (d : TopoDigest) (page : Page) : Except InventoryError TopoDigest :=
  if d.last.any fun last => page.kind.number < last.number then
    .error (.rowsOutOfOrder (d.last.getD page.kind) page.kind)
  else .ok ⟨d.fed ++ page.encodedRows, some page.kind⟩

theorem leftmost_length (hash : Key32) : (hash.toList.take 8).length = 8 := by
  rw [List.length_take, Vector.length_toList]
  rfl

def finish (sha256 : Bytes → Key32) (d : TopoDigest) : Digest :=
  ⟨(sha256 d.fed).toList.take 8, leftmost_length _⟩

def absorbAll (d : TopoDigest) : List Page → Except InventoryError TopoDigest
  | [] => .ok d
  | page :: pages => do
    let d ← d.absorb page
    d.absorbAll pages

def feed (d : TopoDigest) (rows : List Bytes) : TopoDigest := { d with fed := d.fed ++ rows.flatten }

def Reaches (d : TopoDigest) (kind : RowKind) : Prop := ∀ last ∈ d.last, last.number ≤ kind.number

variable {d : TopoDigest} {page : Page} {kind : RowKind}

theorem absorb_ok (h : d.Reaches page.kind) : d.absorb page = .ok ⟨d.fed ++ page.encodedRows, some page.kind⟩ := by
  apply if_neg
  intro hany
  obtain ⟨last, hlast, hlt⟩ := (Option.any_eq_true _ _).mp hany
  have hle := h last hlast
  rw [decide_eq_true_iff, UInt8.lt_iff_toNat_lt] at hlt
  rw [UInt8.le_iff_toNat_le] at hle
  omega

theorem absorbed_reaches (page : Page) : (TopoDigest.mk (d.fed ++ page.encodedRows) (some page.kind)).Reaches page.kind := by
  intro last hlast
  obtain rfl := Option.some.inj hlast
  exact UInt8.le_iff_toNat_le.mpr le_rfl

theorem absorbAll_fed {pages : List Page} (h : d.Reaches kind) (hkind : ∀ page ∈ pages, page.kind = kind) :
    ∃ after, d.absorbAll pages = .ok after ∧ after.fed = d.fed ++ pages.flatMap Page.encodedRows := by
  induction pages generalizing d with
  | nil =>
    refine ⟨d, rfl, ?_⟩
    rw [List.flatMap_nil, List.append_nil]
  | cons page pages ih =>
    obtain ⟨rfl, hrest⟩ := List.forall_mem_cons.mp hkind
    obtain ⟨after, hall, hfed⟩ := ih (absorbed_reaches page) hrest
    refine ⟨after, ?_, ?_⟩
    · rw [absorbAll, absorb_ok h]
      exact hall
    · rw [hfed, List.flatMap_cons, List.append_assoc]

theorem finish_fed (sha256 : Bytes → Key32) {a b : TopoDigest} (h : a.fed = b.fed) : a.finish sha256 = b.finish sha256 := by
  unfold finish
  congr 3
  rw [h]

end TopoDigest

namespace Page

inductive Taken (kind : RowKind) : Page → List Row → Prop
  | new : Taken kind (new kind) []
  | took {page : Page} {rows : List Row} (row : Row) (id : UInt16) (before : Taken kind page rows)
      (h : (page.push row id).1 = .ok true) : Taken kind (page.push row id).2 (rows ++ [row])
  | left {page : Page} {rows : List Row} (row : Row) (id : UInt16) (before : Taken kind page rows)
      (h : (page.push row id).1 ≠ .ok true) : Taken kind (page.push row id).2 rows

theorem push_kind (page : Page) (row : Row) (id : UInt16) : (page.push row id).2.kind = page.kind := by
  unfold push
  split_ifs <;> rfl

variable {what : RowKind} {page : Page} {rows : List Row}

theorem Taken.kind (h : Taken what page rows) : page.kind = what := by
  induction h with
  | new => rfl
  | took row id _ _ ih => rw [push_kind, ih]
  | left row id _ _ ih => rw [push_kind, ih]

theorem Taken.carries (h : Taken what page rows) : page.Carries rows := by
  induction h with
  | new => exact new_carries _
  | took row id _ htook ih => exact push_carries ih htook
  | left row id _ hleft ih =>
    obtain ⟨hrows, hkind⟩ := push_refused hleft
    constructor
    · rw [hrows]
      exact ih.holds
    · rw [hrows]
      exact ih.few
    · rw [hrows]
      exact ih.within
    · rw [hkind]
      exact ih.kind
    · exact ih.decoded

theorem Taken.bytes (h : Taken what page rows) : page.encodedRows = (rows.map fun row => row.item.spelling).flatten := by
  rw [encodedRows, h.carries.holds.bytes, Item.spellAll_eq, List.flatMap_map, List.flatMap_def]

end Page

theorem TopoDigest.absorbAll_rows (sha256 : Bytes → Key32) {d : TopoDigest} {kind : RowKind} (h : d.Reaches kind)
    {pages : List Page} {parts : List (List Row)} (hparts : List.Forall₂ (Page.Taken kind) pages parts) :
    (d.absorbAll pages).map (finish sha256) =
      .ok ((d.feed (parts.flatten.map fun row => row.item.spelling)).finish sha256) := by
  have hpages : (∀ page ∈ pages, page.kind = kind) ∧
      pages.flatMap Page.encodedRows = (parts.flatten.map fun row => row.item.spelling).flatten := by
    induction hparts with
    | nil => exact ⟨by simp, rfl⟩
    | cons hone _ ih =>
      obtain ⟨hkind, hbytes⟩ := ih
      refine ⟨List.forall_mem_cons.mpr ⟨hone.kind, hkind⟩, ?_⟩
      rw [List.flatMap_cons, List.flatten_cons, List.map_append, List.flatten_append, hone.bytes, hbytes]
  obtain ⟨hkind, hbytes⟩ := hpages
  obtain ⟨after, hall, hfed⟩ := absorbAll_fed h hkind
  rw [hall]
  apply congrArg Except.ok
  apply finish_fed
  rw [hfed, hbytes]
  rfl

end Km43.Inventory
