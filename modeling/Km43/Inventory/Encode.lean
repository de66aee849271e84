import Km43.Cbor.Room
import Km43.Cbor.Takes
import Km43.Inventory.Header

namespace Km43.Inventory

open Library Cbor CborWriter CborReader

namespace Value

def write (kind : RowKind) (key : UInt8) : Value → Encoder InventoryError Unit
  | u8 v => tell (CborWriter.u64 v.toNat)
  | u16 v => tell (CborWriter.u64 v.toNat)
  | u32 v => tell (CborWriter.u64 v.toNat)
  | i8 v => tell (CborWriter.i32 v.toInt32)
  | i32 v => tell (CborWriter.i32 v)
  | text v => tell (CborWriter.text v.raw)
  | bytes v => tell (CborWriter.bytes v)
  | u16List v => do
    tell (CborWriter.array v.items.length)
    v.items.forM fun one => tell (CborWriter.u64 one.toNat)
  | absent => throw (.wrongType kind key)

def calls : Value → List Call
  | u8 v => [.u64 v.toUInt64]
  | u16 v => [.u64 v.toUInt64]
  | u32 v => [.u64 v.toUInt64]
  | i8 v => [.i32 v.toInt32]
  | i32 v => [.i32 v]
  | text v => [.text v]
  | bytes v => [.bytes v]
  | u16List v => .array (UInt64.ofNat v.items.length) :: v.items.flatMap fun one => [.u64 one.toUInt64]
  | absent => []

end Value

theorem CmdList.count_toNat (list : CmdList) : (UInt64.ofNat list.items.length).toNat = list.items.length := by
  have hfits := list.fits
  unfold maxComponentCmds at hfits
  rw [UInt64.toNat_ofNat_of_lt']
  exact hfits.trans_lt (by decide)

theorem Value.write_tells {kind : RowKind} {key : UInt8} {value : Value} (h : value.isAbsent = false) :
    Tells (value.write kind key) value.calls := by
  cases value with
  | u8 v => exact .call (.u64 v.toUInt64)
  | u16 v => exact .call (.u64 v.toUInt64)
  | u32 v => exact .call (.u64 v.toUInt64)
  | i8 v => exact .call (.i32 v.toInt32)
  | i32 v => exact .call (.i32 v)
  | text v => exact .call (.text v)
  | bytes v => exact .call (.bytes v)
  | u16List v =>
    have hcount := Tells.call (ε := InventoryError) (.array (UInt64.ofNat v.items.length))
    rw [Call.write, v.count_toNat] at hcount
    have hitems := Tells.forM (ε := InventoryError) (f := fun one : UInt16 => tell (CborWriter.u64 one.toNat))
      (fun one => .call (.u64 one.toUInt64)) v.items
    exact hcount.append hitems
  | absent => cases h

namespace RowValues

def present (row : RowValues) : List (Field × Value) :=
  (row.kind.fields.zip row.values).filter fun p => !p.2.isAbsent

end RowValues

namespace Row

def encode (row : Row) : Encoder InventoryError Unit := do
  tell (CborWriter.map row.present.length)
  row.present.forM fun p => do
    tell (CborWriter.key p.1.key.toNat)
    p.2.write row.kind p.1.key

def encoded (row : Row) : Except InventoryError Bytes := do
  let (_, cbor) ← row.encode (CborWriter.new maxRowBytes)
  let (_, cbor) ← cbor.finish.mapError FromCbor.cbor
  .ok cbor.out

def encodedLen (row : Row) : Except InventoryError ℕ := List.length <$> row.encoded

end Row

def pairCalls (p : Field × Value) : List Call := .key (Int64.ofNat p.1.key.toNat) :: p.2.calls

namespace Row

def calls (row : Row) : List Call :=
  .map (UInt64.ofNat row.present.length) :: row.present.flatMap pairCalls

end Row

theorem key_toInt (key : UInt8) : (Int64.ofNat key.toNat).toInt = key.toNat := by
  have hlt := key.toNat_lt
  rw [Int64.toInt_ofNat_of_lt (by omega)]

theorem RowKind.fields_length (kind : RowKind) : kind.fields.length ≤ maxRowKeys := by
  cases kind <;> decide

theorem RowKind.column_key {kind : RowKind} {place : ℕ} {field : Field} (h : kind.fields[place]? = some field) :
    kind.column field.key.toNat = some place := by
  have hlt : place < kind.fields.length := (List.getElem?_eq_some_iff.mp h).1
  have hall : ∀ kind : RowKind, ∀ place < kind.fields.length, ∀ field ∈ kind.fields[place]?,
      kind.column field.key.toNat = some place := by
    intro kind
    cases kind <;> decide
  exact hall kind place hlt field h

namespace Row

theorem present_length (row : Row) : row.present.length ≤ maxRowKeys := by
  refine (List.length_filter_le _ _).trans ?_
  rw [List.length_zip]
  exact (min_le_left _ _).trans row.kind.fields_length

theorem count_toNat (row : Row) : (UInt64.ofNat row.present.length).toNat = row.present.length := by
  have hlen := row.present_length
  unfold maxRowKeys at hlen
  rw [UInt64.toNat_ofNat_of_lt']
  exact hlen.trans_lt (by decide)

theorem encode_tells (row : Row) : Tells row.encode row.calls := by
  have hcount := Tells.call (ε := InventoryError) (.map (UInt64.ofNat row.present.length))
  rw [Call.write, row.count_toNat] at hcount
  refine hcount.append (Tells.forM_mem fun p hp => ?_)
  have hpresent : p.2.isAbsent = false := by simpa using (List.mem_filter.mp hp).2
  have hkey := Tells.call (ε := InventoryError) (.key (Int64.ofNat p.1.key.toNat))
  rw [Call.write, key_toInt] at hkey
  exact hkey.append (Value.write_tells hpresent)

theorem encoded_ok {row : Row} {bytes : Bytes} : row.encoded = .ok bytes ↔
    ∃ w w' len, writeAll row.calls (.new maxRowBytes) = .ok ((), w) ∧
      CborWriter.finish w = .ok (len, w') ∧ w.out = bytes := by
  simp only [encoded]
  constructor
  · intro h
    obtain ⟨⟨⟨⟩, w⟩, hw, h⟩ := bind_ok.mp h
    obtain ⟨⟨len, w'⟩, hf, h⟩ := bind_ok.mp h
    cases h
    exact ⟨w, w', len, (encode_tells row _ _).mp hw, mapError_ok.mp hf, (finish_out (mapError_ok.mp hf)).symm⟩
  · rintro ⟨w, w', len, hw, hf, rfl⟩
    refine bind_ok.mpr ⟨((), w), (encode_tells row _ _).mpr hw, bind_ok.mpr ⟨(len, w'), mapError_ok.mpr hf, ?_⟩⟩
    rw [finish_out hf]

end Row

def Value.type? : Value → Option FieldType
  | u8 _ => some .u8
  | u16 _ => some .u16
  | u32 _ => some .u32
  | i8 _ => some .i8
  | i32 _ => some .i32
  | text _ => some .text
  | bytes _ => some .bytes
  | u16List _ => some .u16List
  | absent => none

theorem Value.fits_type {value : Value} {ty : FieldType} (h : value.fits ty = true) : value.type? = some ty := by
  cases value <;> cases ty <;> first | rfl | cases h

theorem narrow_toInt32 (v : Int8) : narrow v.toInt32 = .ok v := by
  have hlow := v.le_toInt
  have hhigh := v.toInt_lt
  rw [narrow, if_pos, Int8.toInt8_toInt32]
  rw [Int8.toInt_toInt32]
  omega

theorem readCmds_takes (items done : List UInt16) :
    Takes (itemLoop (fun items => do
      let one ← ask CborReader.u16
      pure (items ++ [one]) : List UInt16 → Read InventoryError (List UInt16)) items.length done)
      (items.flatMap fun one => [.u64 one.toUInt64]) (done ++ items) := by
  induction items generalizing done with
  | nil =>
    rw [List.append_nil]
    exact .itemsDone
  | cons one items ih =>
    have hstep : Takes (do
        let one ← ask CborReader.u16
        pure (done ++ [one]) : Read InventoryError (List UInt16)) ([.u64 one.toUInt64] ++ []) (done ++ [one]) :=
      (Takes.u16 one).bind (.pure _)
    have hrest := ih (done ++ [one])
    rw [List.append_assoc, List.singleton_append] at hrest
    exact hstep.items hrest

theorem CmdList.new_items (list : CmdList) : CmdList.new list.items = .ok list := by
  rw [CmdList.new, dif_neg list.nonempty, dif_pos list.fits]

theorem u16List_takes (list : CmdList) : Takes FieldType.u16List.read (Value.u16List list).calls (.u16List list) := by
  have hfits : ¬list.items.length > maxComponentCmds := Nat.not_lt.mpr list.fits
  have hcount := Takes.array (ε := InventoryError) (UInt64.ofNat list.items.length)
  rw [list.count_toNat] at hcount
  refine hcount.bind ?_
  simp only [if_neg hfits]
  have hlist : Takes (do
      let list ← CmdList.new list.items
      pure (.u16List list) : Read InventoryError Value) [] (.u16List list) :=
    (Takes.check list.new_items).bind (.pure _)
  have hitems := (readCmds_takes list.items []).bind (k := fun items => do
    let list ← (liftM (CmdList.new items) : Read InventoryError CmdList)
    pure (Value.u16List list)) hlist
  rw [List.append_nil] at hitems
  exact hitems

theorem text_takes (v : Str) : Takes FieldType.text.read [.text v] (.text v) := by
  have hdone : Takes (if h : isUtf8 v.raw = true then pure (Value.text ⟨v.raw, h⟩) else throw (.cbor .invalidUtf8) :
      Read InventoryError Value) [] (.text v) := by
    rw [dif_pos v.utf8]
    exact .pure _
  exact (Takes.text v).bind hdone

theorem i8_takes (v : Int8) : Takes FieldType.i8.read [.i32 v.toInt32] (.i8 v) :=
  (Takes.i32 v.toInt32).bind ((Takes.check (narrow_toInt32 v)).bind (.pure _))

theorem FieldType.read_takes {ty : FieldType} {value : Value} (h : value.fits ty = true) :
    Takes ty.read value.calls value := by
  have htype := Value.fits_type h
  cases value with
  | u8 v =>
    obtain rfl := Option.some.inj htype
    exact (Takes.u8 v).mapped
  | u16 v =>
    obtain rfl := Option.some.inj htype
    exact (Takes.u16 v).mapped
  | u32 v =>
    obtain rfl := Option.some.inj htype
    exact (Takes.u32 v).mapped
  | i8 v =>
    obtain rfl := Option.some.inj htype
    exact i8_takes v
  | i32 v =>
    obtain rfl := Option.some.inj htype
    exact (Takes.i32 v).mapped
  | text v =>
    obtain rfl := Option.some.inj htype
    exact text_takes v
  | bytes v =>
    obtain rfl := Option.some.inj htype
    exact (Takes.bytesValue v).mapped
  | u16List v =>
    obtain rfl := Option.some.inj htype
    exact u16List_takes v
  | absent => cases htype

theorem Value.isAbsent_iff {value : Value} : value.isAbsent = true ↔ value = .absent := by
  cases value <;> simp [Value.isAbsent]

namespace RowSlots

def upTo (values : List Value) (n : ℕ) : List Value := values.take n ++ List.replicate (maxRowKeys - n) .absent

theorem upTo_next {values : List Value} {n : ℕ} {value : Value} (hn : n < maxRowKeys) (hv : values[n]? = some value) :
    (upTo values n)[n]? = some .absent ∧ (upTo values n).set n value = upTo values (n + 1) := by
  obtain ⟨hlt, hget⟩ := List.getElem?_eq_some_iff.mp hv
  have hlen : (values.take n).length = n := List.length_take_of_le hlt.le
  have hroom : maxRowKeys - n = maxRowKeys - (n + 1) + 1 := by omega
  constructor
  · rw [upTo, List.getElem?_append_right hlen.le, hlen, Nat.sub_self, hroom]
    rfl
  · rw [upTo, upTo, hroom, List.replicate_succ, List.set_append_right _ _ hlen.le, hlen, Nat.sub_self, List.set_cons_zero,
      List.take_add_one, hv, Option.toList_some, List.append_assoc, List.singleton_append]

theorem upTo_absent {values : List Value} {n : ℕ} (hn : n < maxRowKeys) (hv : values[n]? = some .absent) :
    upTo values (n + 1) = upTo values n := by
  obtain ⟨hget, hset⟩ := upTo_next hn hv
  obtain ⟨hlt, hget⟩ := List.getElem?_eq_some_iff.mp hget
  rw [← hset, ← hget, List.set_getElem_self]

theorem step_takes {row : Row} {n : ℕ} {field : Field} {value : Value} (hf : row.kind.fields[n]? = some field)
    (hv : row.values[n]? = some value) (hfits : value.fits field.ty = true) :
    Takes (step row.kind (Int64.ofNat field.key.toNat).toInt (upTo row.values n)) value.calls
      (upTo row.values (n + 1)) := by
  have hn : n < maxRowKeys := (List.getElem?_eq_some_iff.mp hf).1.trans_le row.kind.fields_length
  obtain ⟨hget, hset⟩ := upTo_next hn hv
  have hread := (FieldType.read_takes hfits).bind
    (k := fun value => (pure ((upTo row.values n).set n value) : Read InventoryError (List Value))) (.pure _)
  rw [List.append_nil, hset] at hread
  unfold step
  rw [key_toInt, row.kind.column_key hf]
  simp only [hf, hget]
  exact hread

theorem zip_drop (row : Row) {n : ℕ} (hn : n < row.kind.fields.length) :
    ∃ field value, row.kind.fields[n]? = some field ∧ row.values[n]? = some value ∧
      (row.kind.fields.zip row.values).drop n = (field, value) :: (row.kind.fields.zip row.values).drop (n + 1) := by
  have hv : n < row.values.length := hn.trans_eq row.length.symm
  have hzip : n < (row.kind.fields.zip row.values).length := by
    rw [List.length_zip, row.length, min_self]
    exact hn
  refine ⟨row.kind.fields[n], row.values[n], List.getElem?_eq_getElem hn, List.getElem?_eq_getElem hv, ?_⟩
  rw [List.drop_eq_getElem_cons hzip, List.getElem_zip]

theorem fits_of_present {row : Row} {field : Field} {value : Value} (h : (field, value) ∈ row.kind.fields.zip row.values)
    (hpresent : value.isAbsent = false) : value.fits field.ty = true := by
  have hholds := row.fieldHolds _ h
  simp only [RowValues.fieldHolds, hpresent, Bool.false_eq_true, if_false] at hholds
  split_ifs at hholds with hfits
  exact hfits

theorem pairs_takes (row : Row) (k n : ℕ) (hk : n + k = row.kind.fields.length) :
    Takes (pairLoop (step row.kind) (((row.kind.fields.zip row.values).drop n).filter fun p => !p.2.isAbsent).length
        (upTo row.values n))
      ((((row.kind.fields.zip row.values).drop n).filter fun p => !p.2.isAbsent).flatMap pairCalls)
      (upTo row.values row.kind.fields.length) := by
  induction k generalizing n with
  | zero =>
    obtain rfl : n = row.kind.fields.length := hk
    rw [List.drop_of_length_le (by rw [List.length_zip]; exact min_le_left _ _)]
    exact .pairsDone
  | succ k ih =>
    have hrest := ih (n + 1) (by omega)
    obtain ⟨field, value, hf, hv, hdrop⟩ := zip_drop row (n := n) (by omega)
    rw [hdrop]
    cases hpresent : value.isAbsent with
    | true =>
      obtain rfl := Value.isAbsent_iff.mp hpresent
      have hn : n < maxRowKeys := lt_of_lt_of_le (by omega) row.kind.fields_length
      rw [List.filter_cons_of_neg (by simp [hpresent]), ← upTo_absent hn hv]
      exact hrest
    | false =>
      have hmem : (field, value) ∈ row.kind.fields.zip row.values := by
        apply List.mem_of_mem_drop (i := n)
        rw [hdrop]
        exact List.mem_cons_self
      rw [List.filter_cons_of_pos (by simp [hpresent]), List.length_cons, List.flatMap_cons]
      exact .pairs (step_takes hf hv (fits_of_present hmem hpresent)) hrest

theorem slots_takes (row : Row) : Takes (slots row.kind) row.calls (upTo row.values row.kind.fields.length) := by
  have hcount := Takes.map (ε := InventoryError) (UInt64.ofNat row.present.length)
  rw [row.count_toNat] at hcount
  have hpairs := pairs_takes row row.kind.fields.length 0 (Nat.zero_add _)
  exact hcount.bind hpairs

theorem decode_written {row : Row} {capacity len : ℕ} {w w' : CborWriter} (hc : capacity < 2 ^ 64)
    (hw : writeAll row.calls (.new capacity) = .ok ((), w)) (hf : CborWriter.finish w = .ok (len, w')) :
    decode row.kind w.out = .ok row := by
  obtain ⟨r, hslots, hfinish⟩ := (slots_takes row).run hc hw hf
  have hlen : (upTo row.values row.kind.fields.length).length = maxRowKeys := by
    have hle := row.kind.fields_length
    rw [upTo, List.length_append, List.length_take, row.length, min_self, List.length_replicate]
    omega
  have htake : (upTo row.values row.kind.fields.length).take row.kind.fields.length = row.values := by
    rw [upTo, ← row.length, List.take_length, List.take_left]
  refine bind_ok.mpr ⟨(_, r), hslots, bind_ok.mpr ⟨(), mapError_ok.mpr hfinish, ?_⟩⟩
  simp only [hlen, if_neg (Nat.not_lt.mpr row.kind.fields_length), htake]
  exact Row.new_ok.mpr rfl

theorem decode_encoded {row : Row} {bytes : Bytes} (h : row.encoded = .ok bytes) :
    decode row.kind bytes = .ok row := by
  obtain ⟨w, w', len, hw, hf, rfl⟩ := Row.encoded_ok.mp h
  exact decode_written (by decide) hw hf

end RowSlots

end Km43.Inventory
