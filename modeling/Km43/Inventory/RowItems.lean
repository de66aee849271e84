import Km43.Cbor.ReadsBox
import Km43.Cbor.Entries
import Km43.Inventory.Encode

namespace Km43.Inventory

open Library Cbor CborReader

def i32Of (i : Item) : Option Int32 := i.leaf?.bind fun h => (headI32 h).toOption

namespace FieldType

def takeCmd (done : List UInt16) (i : Item) : Option (List UInt16) := (u16Of i).map fun one => done ++ [one]

def takeCmds (i : Item) : Option (List UInt16) :=
  i.items?.bind fun items => if items.length > maxComponentCmds then none else foldItems takeCmd items []

def item : FieldType → Item → Option Value
  | u8, i => (u8Of i).map .u8
  | u16, i => (u16Of i).map .u16
  | u32, i => (u32Of i).map .u32
  | i8, i => (i32Of i).bind fun v => (narrow v).toOption.map .i8
  | i32, i => (i32Of i).map .i32
  | text, i => i.str?.map .text
  | bytes, i => i.bytes?.map .bytes
  | u16List, i => (takeCmds i).bind fun items => (CmdList.new items).toOption.map .u16List

variable {d : ℕ}

theorem text_eq : text.read = (do
    let v ← textValue
    pure (Value.text v) : Read InventoryError Value) := by
  simp only [read, textValue, bind_assoc]
  refine congrArg _ (funext fun raw => ?_)
  split_ifs <;> rfl

theorem u16List_eq : u16List.read = (do
    let items ← (do
      let n ← ask CborReader.array
      if n > maxComponentCmds then throw (.tooManyCmds n)
      else itemLoop (fun items => do
        let one ← ask CborReader.u16
        pure (items ++ [one])) n [] : Read InventoryError (List UInt16))
    let list ← CmdList.new items
    pure (Value.u16List list) : Read InventoryError Value) := by
  simp only [read, readCmds, bind_assoc]
  refine congrArg _ (funext fun n => ?_)
  split_ifs <;> rfl

theorem read_reads (ty : FieldType) : Reads (fun _ => True) (d + 1) ty.read ty.item := by
  cases ty with
  | u8 => exact (Reads.u8 fun _ => trivial).mapped _
  | u16 => exact (Reads.u16 fun _ => trivial).mapped _
  | u32 => exact (Reads.u32 fun _ => trivial).mapped _
  | i8 => exact (Reads.i32 fun _ => trivial).andThen narrow (fun _ v => Value.i8 v) fun _ _ _ => trivial
  | i32 => exact (Reads.i32 fun _ => trivial).mapped _
  | text =>
    rw [text_eq]
    exact (textValue_reads fun _ => trivial).mapped _
  | bytes => exact (Reads.bytesValue fun _ => trivial).mapped _
  | u16List =>
    have hone : ∀ done, Reads (fun _ => True) d (do
        let one ← ask CborReader.u16
        pure (done ++ [one]) : Read InventoryError (List UInt16)) (takeCmd done) :=
      fun done => (Reads.u16 fun _ => trivial).mapped _
    have hlist := Reads.boundedArray (fun _ => trivial) hone [] maxComponentCmds .tooManyCmds fun _ => trivial
    rw [u16List_eq]
    exact hlist.andThen CmdList.new (fun _ list => Value.u16List list) fun _ _ _ => trivial

theorem item_fits {ty : FieldType} {i : Item} {value : Value} (h : ty.item i = some value) :
    value.fits ty = true := by
  cases ty with
  | u8 | u16 | u32 | i32 | text | bytes =>
    obtain ⟨v, -, rfl⟩ := Option.map_eq_some_iff.mp h
    rfl
  | i8 | u16List =>
    obtain ⟨v, -, h⟩ := Option.bind_eq_some_iff.mp h
    obtain ⟨w, -, rfl⟩ := Option.map_eq_some_iff.mp h
    rfl

theorem item_present {ty : FieldType} {i : Item} {value : Value} (h : ty.item i = some value) :
    value.isAbsent = false := by
  have hfits := item_fits h
  cases value with
  | absent => cases hfits
  | _ => rfl

end FieldType

abbrev Column (kind : RowKind) : Type := Fin kind.fields.length

namespace Column

variable {kind : RowKind}

def field (c : Column kind) : Field := kind.fields.get c

def of (number : ℤ) : Option (Column kind) :=
  (kind.column number).bind fun place => if h : place < kind.fields.length then some ⟨place, h⟩ else none

theorem field_get (c : Column kind) : kind.fields[c.val]? = some c.field := List.getElem?_eq_getElem c.isLt

theorem column_number (c : Column kind) : kind.column c.field.key.toNat = some c.val := RowKind.column_key c.field_get

theorem number_column {n : ℤ} {place : ℕ} (h : kind.column n = some place) :
    ∃ c : Column kind, c.val = place ∧ n = c.field.key.toNat := by
  unfold RowKind.column at h
  split_ifs at h with hn
  obtain ⟨hlt, hkey, -⟩ := List.findIdx?_eq_some_iff_getElem.mp h
  refine ⟨⟨place, hlt⟩, rfl, ?_⟩
  have hbyte : (kind.fields[place]).key = UInt8.ofNat n.toNat := by simpa using hkey
  have hvalue : (UInt8.ofNat n.toNat).toNat = n.toNat := by
    rw [UInt8.toNat_ofNat']
    omega
  change n = ((kind.fields[place]).key.toNat : ℤ)
  rw [hbyte, hvalue]
  omega

theorem of_iff (n : ℤ) (c : Column kind) : of n = some c ↔ n = c.field.key.toNat := by
  constructor
  · intro h
    obtain ⟨place, hplace, h⟩ := Option.bind_eq_some_iff.mp h
    split_ifs at h with hlt
    obtain ⟨c', hc', hn⟩ := number_column hplace
    obtain rfl : c' = c := Fin.ext (hc'.trans (congrArg Fin.val (Option.some.inj h)))
    exact hn
  · rintro rfl
    rw [of, c.column_number, Option.bind_some, dif_pos c.isLt]

theorem small (c : Column kind) : c.field.key.toNat < 256 := by
  have hall : ∀ kind : RowKind, ∀ field ∈ kind.fields, field.key.toNat < 256 := by
    intro kind
    cases kind <;> decide
  exact hall kind _ (List.get_mem _ _)

end Column

instance (kind : RowKind) : BodyKey (Column kind) :=
  ⟨Column.of, fun c => c.field.key.toNat, Column.of_iff, Column.small⟩

abbrev slotTable (kind : RowKind) : Table InventoryError (Column kind) where
  Value _ := Value
  read c := c.field.ty.read
  twice c := .duplicateRowKey kind c.field.key

def columnItem {kind : RowKind} (c : Column kind) : Item → Option ((slotTable kind).Value c) := c.field.ty.item

namespace RowSlots

variable {kind : RowKind}

def take (kind : RowKind) (number : ℤ) (values : List Value) (i : Item) : Option (List Value) :=
  match kind.column number with
  | none => some values
  | some place =>
    match kind.fields[place]?, values[place]? with
    | some field, some slot => if slot.isAbsent then (field.ty.item i).map (values.set place) else none
    | _, _ => none

def held (s : Column kind → Option Value) : List Value :=
  List.ofFn (fun c => (s c).getD .absent) ++ List.replicate (maxRowKeys - kind.fields.length) .absent

theorem held_none : held (slotTable kind).none = List.replicate maxRowKeys .absent := by
  have hle := kind.fields_length
  have hnone : List.ofFn (fun c => ((slotTable kind).none c).getD .absent) =
      List.replicate kind.fields.length Value.absent := List.ofFn_const _ _
  rw [held, hnone, List.replicate_append_replicate]
  congr 1
  omega

theorem held_get (s : Column kind → Option Value) (c : Column kind) : (held s)[c.val]? = some ((s c).getD .absent) := by
  rw [held, List.getElem?_append_left (by simp), List.getElem?_ofFn, dif_pos c.isLt]

theorem held_set (s : Column kind → Option Value) (c : Column kind) (value : Value) :
    (held s).set c.val value = held (Function.update s c (some value)) := by
  apply List.ext_getElem?
  intro n
  have hlen : (held s).length = (held (Function.update s c (some value))).length := by simp [held]
  by_cases hn : n < kind.fields.length
  · have hget := held_get (Function.update s c (some value)) ⟨n, hn⟩
    have hold := held_get s ⟨n, hn⟩
    simp only at hget hold
    rw [hget]
    by_cases hnc : c.val = n
    · subst hnc
      rw [List.getElem?_set_self (List.getElem?_eq_some_iff.mp hold).1]
      simp
    · have hne : (⟨n, hn⟩ : Column kind) ≠ c := fun h => hnc (congrArg Fin.val h).symm
      rw [List.getElem?_set_ne hnc, hold, Function.update_of_ne hne]
  · have hne : c.val ≠ n := by
      intro h
      exact hn (h ▸ c.isLt)
    rw [List.getElem?_set_ne hne, held, held, List.getElem?_append_right (by simp; omega),
      List.getElem?_append_right (by simp; omega)]
    simp

def Present (s : (slotTable kind).Slots) : Prop := ∀ c value, s c = some value → value.isAbsent = false

theorem take_held (s : (slotTable kind).Slots) (hs : Present s) (n : ℤ) (i : Item) :
    take kind n (held s) i = (Table.take columnItem n s i).map held := by
  cases hof : kind.column n with
  | none =>
    have hno : (Column.of n : Option (Column kind)) = none := by rw [Column.of, hof, Option.bind_none]
    simp only [take, Table.take, hof, BodyKey.of, hno, Option.map_some]
  | some place =>
    obtain ⟨c, rfl, rfl⟩ := Column.number_column hof
    have hknown : Table.take columnItem (c.field.key.toNat : ℤ) s i =
        slotted (columnItem c i) (s c) (Function.update s c) := Table.take_known c s i
    rw [hknown]
    simp only [take, hof, c.field_get, held_get]
    cases hsc : s c with
    | none =>
      have habsent : (Option.none.getD Value.absent).isAbsent = true := rfl
      simp only [habsent, if_true, slotted, Option.isSome_none]
      change (c.field.ty.item i).map _ = _
      cases hitem : c.field.ty.item i with
      | none => simp [columnItem, hitem]
      | some value => simp [columnItem, hitem, held_set]
    | some value =>
      have hpresent := hs c value hsc
      cases columnItem c i <;> simp [slotted, hpresent]

theorem take_present {s s' : (slotTable kind).Slots} (hs : Present s) {n : ℤ} {i : Item}
    (h : Table.take columnItem n s i = some s') : Present s' := by
  unfold Table.take at h
  split at h
  · obtain ⟨-, value, hvalue, rfl⟩ := slotted_some.mp h
    rename_i c _
    intro c' value' h'
    by_cases hc : c' = c
    · subst hc
      rw [Function.update_self] at h'
      obtain rfl := Option.some.inj h'
      exact FieldType.item_present hvalue
    · rw [Function.update_of_ne hc] at h'
      exact hs c' value' h'
  · obtain rfl := Option.some.inj h
    exact hs

theorem fold_held {s : (slotTable kind).Slots} (hs : Present s) (pairs : List (Key × Item)) :
    foldPairs (take kind) pairs (held s) = (foldPairs (Table.take columnItem) pairs s).map held := by
  induction pairs generalizing s with
  | nil => rfl
  | cons p pairs ih =>
    obtain ⟨key, i⟩ := p
    cases hkey : key.i64? with
    | none => simp only [foldPairs, hkey, Option.bind_none, Option.map_none]
    | some n =>
      simp only [foldPairs, hkey, Option.bind_some, take_held s hs]
      cases hstep : Table.take columnItem n s i with
      | none => rfl
      | some s' => exact ih (take_present hs hstep)

def Known (kind : RowKind) (n : ℤ) : Prop := (kind.column n).isSome

def Filled (kind : RowKind) (values : List Value) (n : ℤ) : Prop :=
  ∃ place value, kind.column n = some place ∧ values[place]? = some value ∧ value.isAbsent = false

theorem throw_reads {d : ℕ} {α : Type} (why : InventoryError) :
    Reads (fun _ => True) d (throw why : Read InventoryError α) fun _ => none :=
  ⟨fun _ _ => trivial, fun _ _ => .inr ⟨fun _ _ _ => rfl, trivial⟩⟩

theorem take_some {n : ℤ} {place : ℕ} (hplace : kind.column n = some place) {values values' : List Value} {i : Item}
    (h : take kind n values i = some values') : ∃ field slot value, kind.fields[place]? = some field ∧
      values[place]? = some slot ∧ slot.isAbsent = true ∧ field.ty.item i = some value ∧
        values' = values.set place value := by
  simp only [take, hplace] at h
  split at h
  · rename_i field slot hfield hslot
    split_ifs at h with habsent
    obtain ⟨value, hitem, rfl⟩ := Option.map_eq_some_iff.mp h
    exact ⟨field, slot, value, hfield, hslot, habsent, hitem, rfl⟩
  · cases h

theorem number_of_column {n m : ℤ} {place : ℕ} (hn : kind.column n = some place) (hm : kind.column m = some place) :
    n = m := by
  obtain ⟨c, hc, rfl⟩ := Column.number_column hn
  obtain ⟨c', hc', rfl⟩ := Column.number_column hm
  rw [Fin.ext (hc.trans hc'.symm)]

theorem fills : Fills (take kind) (Known kind) (Filled kind) fun _ values => values := by
  refine ⟨?_, ?_, fun _ _ _ _ _ => Iff.rfl⟩
  · intro n values i values' hknown h
    obtain ⟨place, hplace⟩ := Option.isSome_iff_exists.mp hknown
    obtain ⟨field, slot, value, -, hslot, habsent, hitem, rfl⟩ := take_some hplace h
    have hlt := (List.getElem?_eq_some_iff.mp hslot).1
    constructor
    · rintro ⟨place', value', hplace', hvalue', hpresent⟩
      obtain rfl := Option.some.inj (hplace.symm.trans hplace')
      obtain rfl := Option.some.inj (hslot.symm.trans hvalue')
      rw [habsent] at hpresent
      cases hpresent
    · intro m hm
      obtain ⟨place', hplace'⟩ := Option.isSome_iff_exists.mp hm
      by_cases hsame : place' = place
      · subst hsame
        have hmn := number_of_column hplace' hplace
        subst hmn
        simp only [or_true, iff_true]
        exact ⟨place', value, hplace, List.getElem?_set_self hlt, FieldType.item_present hitem⟩
      · have hne : m ≠ n := by
          rintro rfl
          exact hsame (Option.some.inj (hplace'.symm.trans hplace))
        simp only [Filled, hplace', Option.some.injEq, hne, or_false, List.getElem?_set_ne (Ne.symm hsame),
          exists_eq_left', exists_and_left]
  · intro n values i hknown
    unfold take
    cases hplace : kind.column n with
    | none => rfl
    | some place => exact absurd (Option.isSome_iff_exists.mpr ⟨place, hplace⟩) hknown

theorem steps {d : ℕ} : Steps (fun _ => True) (d + 1) (step kind) (take kind) (Known kind) fun _ values => values := by
  constructor
  · intro n values hknown
    obtain ⟨place, hplace⟩ := Option.isSome_iff_exists.mp hknown
    unfold step take
    simp only [hplace]
    cases hfield : kind.fields[place]? with
    | none => exact throw_reads _
    | some field =>
      cases hslot : values[place]? with
      | none => exact throw_reads _
      | some slot =>
        cases habsent : slot.isAbsent with
        | true =>
          simp only [habsent, if_true]
          exact (FieldType.read_reads field.ty).mapped _
        | false =>
          simp only [habsent, Bool.false_eq_true, if_false]
          exact throw_reads _
  · intro n values hknown
    unfold step
    cases hplace : kind.column n with
    | none => rfl
    | some place => exact absurd (Option.isSome_iff_exists.mpr ⟨place, hplace⟩) hknown

theorem none_filled (n : ℤ) : ¬Filled kind (List.replicate maxRowKeys .absent) n := by
  rintro ⟨place, value, -, hvalue, hpresent⟩
  rw [List.getElem?_replicate] at hvalue
  split_ifs at hvalue
  obtain rfl := Option.some.inj hvalue
  cases hpresent

theorem slots_reads : Reads (fun _ => True) maxDepth (slots kind)
    fun i => i.pairs?.bind fun pairs => foldPairs (take kind) pairs (List.replicate maxRowKeys .absent) :=
  Reads.mapFrom (fun _ => trivial) steps fills fun n _ => none_filled n

def cell (pairs : List (Key × Item)) (field : Field) : Option Value :=
  match valueAt pairs field.key.toNat with
  | none => some .absent
  | some i => field.ty.item i

structure Cells (kind : RowKind) (pairs : List (Key × Item)) (values : List Value) : Prop where
  length : values.length = kind.fields.length
  cell : ∀ (place : ℕ) (field : Field), kind.fields[place]? = some field → values[place]? = cell pairs field

theorem decode_eq (bytes : Bytes) : decode kind bytes = (do
    let values ← decodeBody (slots kind) bytes
    if values.length < kind.fields.length then .error (.rowShape kind kind.fields.length maxRowKeys)
    else Row.new kind (values.take kind.fields.length)) := by
  simp only [decode, decodeBody, bind_assoc]
  rfl

def row (s : Column kind → Option Value) : List Value := List.ofFn fun c => (s c).getD .absent

theorem held_take (s : Column kind → Option Value) : (held s).take kind.fields.length = row s := by
  rw [held, List.take_append_of_le_length (by simp), List.take_of_length_le (by simp), row]

theorem held_length (s : Column kind → Option Value) : (held s).length = maxRowKeys := by
  have hle := kind.fields_length
  rw [held, List.length_append, List.length_ofFn, List.length_replicate]
  omega

theorem row_get (s : Column kind → Option Value) (c : Column kind) : (row s)[c.val]? = some ((s c).getD .absent) := by
  rw [row, List.getElem?_ofFn, dif_pos c.isLt]

theorem slotOf_cell {pairs : List (Key × Item)} {s : (slotTable kind).Slots} {c : Column kind}
    (h : Table.SlotOf columnItem pairs s c) : cell pairs c.field = some ((s c).getD Value.absent) := by
  unfold Table.SlotOf at h
  unfold cell
  change match valueAt pairs (c.field.key.toNat : ℤ) with | none => _ | some i => _ at h
  cases hvalue : valueAt pairs (c.field.key.toNat : ℤ) with
  | none =>
    simp only [hvalue] at h
    simp [h]
  | some i =>
    simp only [hvalue] at h
    obtain ⟨hitem, hsome⟩ := h
    obtain ⟨value, hv⟩ := Option.isSome_iff_exists.mp hsome
    simp only [hv, Option.getD_some]
    exact hitem.trans hv

theorem slots_cells {pairs : List (Key × Item)} {values : List Value} :
    (∃ s : (slotTable kind).Slots, (∀ c, Table.SlotOf columnItem pairs s c) ∧ values = row s) ↔
      Cells kind pairs values := by
  constructor
  · rintro ⟨s, hs, rfl⟩
    refine ⟨by simp [row], fun place field hfield => ?_⟩
    obtain ⟨hlt, rfl⟩ := List.getElem?_eq_some_iff.mp hfield
    exact (row_get s ⟨place, hlt⟩).trans (slotOf_cell (hs ⟨place, hlt⟩)).symm
  · intro h
    let s : (slotTable kind).Slots := fun c => (valueAt pairs (c.field.key.toNat : ℤ)).bind (columnItem c)
    have hcell : ∀ c : Column kind, values[c.val]? = cell pairs c.field := fun c => h.cell c.val _ c.field_get
    have hsome : ∀ c : Column kind, (cell pairs c.field).isSome := by
      intro c
      have hlt : c.val < values.length := c.isLt.trans_eq h.length.symm
      rw [← hcell, List.getElem?_eq_getElem hlt]
      rfl
    have hslot : ∀ c, Table.SlotOf columnItem pairs s c := by
      intro c
      have hc := hsome c
      unfold cell at hc
      unfold Table.SlotOf
      change match valueAt pairs (c.field.key.toNat : ℤ) with | none => _ | some i => _
      cases hvalue : valueAt pairs (c.field.key.toNat : ℤ) with
      | none => simp [s, hvalue]
      | some i =>
        simp only [hvalue] at hc
        simp only [s, hvalue, Option.bind_some, true_and]
        exact hc
    refine ⟨s, hslot, ?_⟩
    apply List.ext_getElem?
    intro n
    by_cases hn : n < kind.fields.length
    · exact (hcell ⟨n, hn⟩).trans ((slotOf_cell (hslot ⟨n, hn⟩)).trans (row_get s ⟨n, hn⟩).symm)
    · rw [List.getElem?_eq_none (by rw [h.length]; omega), List.getElem?_eq_none (by simp [row]; omega)]

theorem fold_columns {pairs : List (Key × Item)} (hfresh : (ranks pairs).Nodup) (s : (slotTable kind).Slots) :
    foldPairs (Table.take columnItem) pairs (slotTable kind).none = some s ↔
      Keyed pairs ∧ ∀ c, Table.SlotOf columnItem pairs s c := Table.fold_slots hfresh s

theorem none_present : Present (slotTable kind).none := by
  rintro c value ⟨⟩

theorem decode_ok {bytes : Bytes} {row : Row} : decode kind bytes = .ok row ↔
    ∃ w pairs values, (Item.map w pairs).Legal maxDepth ∧ bytes = (Item.map w pairs).spelling ∧ Keyed pairs ∧
      Cells kind pairs values ∧ Row.new kind values = .ok row := by
  rw [decode_eq, bind_ok]
  constructor
  · rintro ⟨values, hbody, hrow⟩
    obtain ⟨i, hi, hspell, hvalues⟩ := (decodeBody_ok slots_reads).mp hbody
    obtain ⟨pairs, hpairs, hfold⟩ := Option.bind_eq_some_iff.mp hvalues
    cases i with
    | map w ps =>
      obtain rfl := Option.some.inj hpairs
      rw [← held_none, fold_held none_present] at hfold
      obtain ⟨s, hs, rfl⟩ := Option.map_eq_some_iff.mp hfold
      obtain ⟨hkeyed, hslots⟩ := (fold_columns hi.2.1 s).mp hs
      rw [held_length, if_neg (Nat.not_lt.mpr kind.fields_length), held_take] at hrow
      exact ⟨w, ps, _, hi, hspell.symm, hkeyed, slots_cells.mp ⟨s, hslots, rfl⟩, hrow⟩
    | unsigned | negative | bytes | text | array | bool => cases hpairs
  · rintro ⟨w, pairs, values, hi, rfl, hkeyed, hcells, hrow⟩
    obtain ⟨s, hslots, rfl⟩ := slots_cells.mpr hcells
    have hfold := (fold_columns hi.2.1 s).mpr ⟨hkeyed, hslots⟩
    refine ⟨held s, (decodeBody_ok slots_reads).mpr ⟨_, hi, rfl, ?_⟩, ?_⟩
    · rw [← held_none]
      change foldPairs (take kind) pairs (held (slotTable kind).none) = some (held s)
      rw [fold_held none_present, hfold, Option.map_some]
    · rw [held_length, if_neg (Nat.not_lt.mpr kind.fields_length), held_take]
      exact hrow

end RowSlots

end Km43.Inventory
