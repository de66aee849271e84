import Km43.Inventory.RowItems

namespace Km43.Inventory

open Library Cbor CborReader CborWriter

namespace Value

def item : Value → Item
  | u8 v => .ofNat v.toNat
  | u16 v => .ofNat v.toNat
  | u32 v => .ofNat v.toNat
  | i8 v => .ofInt v.toInt32
  | i32 v => .ofInt v
  | text v => .ofText v
  | bytes v => .ofBytes v
  | u16List v => .ofItems (v.items.map fun one => .ofNat one.toNat)
  | absent => .bool false

def Short : Value → Prop
  | text v => v.raw.length ≤ maxString
  | _ => True

variable {d : ℕ} {value : Value}

theorem calls_write (h : value.isAbsent = false) (hshort : value.Short) :
    Writes (d + 1) (writeAll value.calls) value.item := by
  cases value with
  | u8 v => exact writes_one rfl
  | u16 v => exact writes_one rfl
  | u32 v => exact writes_one rfl
  | i8 v => exact writes_one rfl
  | i32 v => exact writes_one rfl
  | text v => exact writes_one ⟨rfl, hshort⟩
  | bytes v => exact writes_one rfl
  | u16List v =>
    have hitems : WritesItems d (writeAll (v.items.flatMap fun one => [.u64 one.toUInt64]))
        (v.items.map fun one => .ofNat one.toNat) := .flatMap fun one _ => writes_one rfl
    refine writes_arrayCalls hitems ?_
    rw [List.length_map, v.count_toNat]
  | absent => cases h

theorem item_short {ty : FieldType} {i : Item} (hi : i.Legal d) (h : ty.item i = some value) : value.Short := by
  cases ty with
  | u8 | u16 | u32 | i32 | bytes =>
    obtain ⟨v, -, rfl⟩ := Option.map_eq_some_iff.mp h
    trivial
  | i8 | u16List =>
    obtain ⟨v, -, h⟩ := Option.bind_eq_some_iff.mp h
    obtain ⟨w, -, rfl⟩ := Option.map_eq_some_iff.mp h
    trivial
  | text =>
    obtain ⟨v, hv, rfl⟩ := Option.map_eq_some_iff.mp h
    cases i with
    | text w raw =>
      simp only [Item.str?] at hv
      split_ifs at hv
      obtain rfl := Option.some.inj hv
      cases d <;> exact hi.2.1
    | unsigned | negative | bytes | array | map | bool => cases hv

end Value

namespace Row

variable {row : Row}

def pairs (row : Row) : List (Key × Item) := row.present.map fun p => (Key.ofNat p.1.key.toNat, p.2.item)

theorem keys_rise (kind : RowKind) : kind.fields.Pairwise fun a b => a.key.toNat < b.key.toNat := by
  cases kind <;> decide

theorem present_rises (row : Row) : row.present.Pairwise fun p q => p.1.key.toNat < q.1.key.toNat := by
  refine List.Pairwise.filter _ ?_
  have hkeys : ((row.kind.fields.zip row.values).map Prod.fst).Pairwise fun a b => a.key.toNat < b.key.toNat := by
    rw [List.map_fst_zip row.length.ge]
    exact keys_rise row.kind
  rwa [List.pairwise_map] at hkeys

theorem pairs_written {ps : List (Field × Value)}
    (h : ∀ p ∈ ps, p.2.isAbsent = false ∧ p.2.Short) :
    WritesPairs 7 (writeAll (ps.flatMap pairCalls)) (ps.map fun p => (Key.ofNat p.1.key.toNat, p.2.item)) := by
  induction ps with
  | nil => exact .nil
  | cons p ps ih =>
    obtain ⟨hpresent, hshort⟩ := h p (List.mem_cons_self ..)
    have hkey : (Int64.ofNat p.1.key.toNat).toInt = p.1.key.toNat := key_toInt p.1.key
    have hpair := WritesPairs.keyed (k := Int64.ofNat p.1.key.toNat) (by rw [hkey]; exact Int.natCast_nonneg _)
      (Value.calls_write (d := 6) hpresent hshort)
    rw [hkey, Int.toNat_natCast] at hpair
    exact hpair.both (ih fun q hq => h q (List.mem_cons_of_mem _ hq))

theorem encode_ok (hshort : ∀ value ∈ row.values, value.Short) {dst : ℕ} {out : Bytes} :
    encodeBody row.encode dst = .ok out ↔
      out = (Item.ofPairs row.pairs).spelling ∧ (Item.ofPairs row.pairs).spelling.length ≤ dst := by
  have hpresent : ∀ p ∈ row.present, p.2.isAbsent = false ∧ p.2.Short := by
    intro p hp
    obtain ⟨hmem, hpresent⟩ := List.mem_filter.mp hp
    exact ⟨by simpa using hpresent, hshort _ (List.of_mem_zip hmem).2⟩
  refine encodeBody_item row.encode_tells (writes_mapCalls (pairs_written hpresent) ?_ ?_)
  · rw [pairs, List.length_map, row.count_toNat]
  · exact rising_ascends row.present_rises

theorem decode_encode (row : Row) (dst : UInt64) (out : Bytes) (h : encodeBody row.encode dst.toNat = .ok out) :
    RowSlots.decode row.kind out = .ok row := by
  obtain ⟨w, w', len, hw, hf, rfl⟩ := (encodeBody_ok row.encode_tells).mp h
  exact RowSlots.decode_written dst.toNat_lt hw hf

end Row

theorem RowSlots.cells_short {kind : RowKind} {w : Width} {pairs : List (Key × Item)} {values : List Value}
    (hlegal : (Item.map w pairs).Legal maxDepth) (h : Cells kind pairs values) : ∀ value ∈ values, value.Short := by
  intro value hvalue
  obtain ⟨place, hplace⟩ := List.mem_iff_getElem?.mp hvalue
  have hlt : place < kind.fields.length := h.length ▸ (List.getElem?_eq_some_iff.mp hplace).1
  have hcell := h.cell place _ (List.getElem?_eq_getElem hlt)
  rw [hplace] at hcell
  unfold cell at hcell
  split at hcell
  · obtain rfl := Option.some.inj hcell
    trivial
  · rename_i i hi
    obtain ⟨k, -, hmem⟩ := valueAt_mem hi
    exact Value.item_short (hlegal.2.2 _ hmem).2 hcell.symm

/-- Rows, both ways: what a row encodes to is read as that row, and what is read is a legal row of the values its
table finds in the map, in whatever order its keys come and whatever others stand among them. -/
theorem rows_agree (kind : RowKind) :
    (∀ values row, Row.new kind values = .ok row → ∀ (dst : UInt64) out,
      encodeBody row.encode dst.toNat = .ok out → RowSlots.decode kind out = .ok row) ∧
    (∀ bytes row, RowSlots.decode kind bytes = .ok row ↔ ∃ w pairs values, (Item.map w pairs).Legal maxDepth ∧
      bytes = (Item.map w pairs).spelling ∧ Keyed pairs ∧ RowSlots.Cells kind pairs values ∧
        Row.new kind values = .ok row) ∧
    (∀ bytes row, RowSlots.decode kind bytes = .ok row → ∃ size, ∀ dst, size ≤ dst →
      ∃ out, encodeBody row.encode dst = .ok out) := by
  refine ⟨?_, fun bytes row => RowSlots.decode_ok, ?_⟩
  · intro values row hrow dst out hout
    have hkind : row.kind = kind := congrArg RowValues.kind (Row.new_ok.mp hrow)
    rw [← hkind]
    exact row.decode_encode dst out hout
  · intro bytes row h
    obtain ⟨w, pairs, values, hlegal, -, -, hcells, hrow⟩ := RowSlots.decode_ok.mp h
    have hvalues : row.values = values := congrArg RowValues.values (Row.new_ok.mp hrow)
    have hshort := RowSlots.cells_short hlegal hcells
    rw [← hvalues] at hshort
    exact ⟨_, fun dst hdst => ⟨_, (Row.encode_ok hshort).mpr ⟨rfl, hdst⟩⟩⟩

end Km43.Inventory
