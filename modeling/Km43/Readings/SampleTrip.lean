import Km43.Cbor.Cells
import Km43.Cbor.Mirror
import Km43.Cbor.Record
import Km43.Cbor.Told
import Km43.Readings.Rows

namespace Km43.Readings

open Library Cbor CborReader CborWriter

inductive SampleKey
  | sig
  | value
  | quality
  | age
  deriving DecidableEq

namespace SampleKey

def of (number : ℤ) : Option SampleKey :=
  if number = 1 then some sig else if number = 2 then some value else if number = 3 then some quality
  else if number = 4 then some age else none

def number : SampleKey → ℕ
  | sig => 1
  | value => 2
  | quality => 3
  | age => 4

theorem of_iff (n : ℤ) (k : SampleKey) : of n = some k ↔ n = k.number := by
  constructor
  · intro h
    unfold of at h
    split_ifs at h <;> cases h <;> assumption
  · rintro rfl
    cases k <;> rfl

theorem narrow (k : SampleKey) : k.number < 24 := by cases k <;> decide

theorem small (k : SampleKey) : k.number < 256 := k.narrow.trans (by decide)

end SampleKey

instance : BodyKey SampleKey := ⟨SampleKey.of, SampleKey.number, SampleKey.of_iff, SampleKey.small⟩

namespace Sample

def Value : SampleKey → Type
  | .sig => Id
  | .value => Int32
  | .quality => UInt8
  | .age => UInt32

def table : Table ReadingsError SampleKey where
  Value := Value
  read
    | .sig => readId
    | .value => ask i32
    | .quality => ask u8
    | .age => ask u32
  twice k := .duplicate (UInt8.ofNat k.number)

def item : ∀ k, Item → Option (table.Value k)
  | .sig => checkedItem u16Of Id.new
  | .value => fun i => i.leaf?.bind fun h => (headI32 h).toOption
  | .quality => u8Of
  | .age => u32Of

theorem reads (k : SampleKey) : Reads (fun _ => True) 6 (table.read k) (item k) := by
  cases k with
  | sig => exact checkedRead_reads (.u16 fun _ => trivial) _
  | value => exact .i32 fun _ => trivial
  | quality => exact .u8 fun _ => trivial
  | age => exact .u32 fun _ => trivial

def ofTable (s : table.Slots) : Slots := ⟨s .sig, s .value, s .quality, s .age⟩

theorem records : table.Records ofTable step := by
  constructor
  · intro k s
    cases k <;> rfl
  · intro n s hn
    have hne : ∀ k : SampleKey, n ≠ k.number := fun k h => hn ⟨k, h⟩
    have h₁ : n ≠ 1 := hne .sig
    have h₂ : n ≠ 2 := hne .value
    have h₃ : n ≠ 3 := hne .quality
    have h₄ : n ≠ 4 := hne .age
    unfold step
    split <;> first | rfl | omega

theorem decode_eq : decode = checkedRead table.slots fun s => (ofTable s).sample := by
  have hloop : ∀ n, pairLoop step n Slots.empty = ofTable <$> table.pairs n := fun n => records.loop n table.none
  unfold decode checkedRead Table.slots
  simp only [hloop, map_eq_pure_bind, bind_assoc, pure_bind]

def ofItem : Item → Option Sample :=
  checkedItem (fun i => i.pairs?.bind fun ps => foldPairs (Table.take item) ps table.none) fun s => (ofTable s).sample

theorem decode_reads : Reads (fun _ => True) 7 decode ofItem := by
  rw [decode_eq]
  exact checkedRead_reads (Table.reads (fun _ => trivial) reads fun _ => trivial) _

def entries (s : Sample) : List (SampleKey × List Call) :=
  (.sig, [.u64 s.sig.raw.toUInt64]) :: (entryOf .value s.value (fun value => [.i32 value]) ++
    (.quality, [.u64 s.q.byte.toUInt64]) :: entryOf .age s.age fun age => [.u64 age.toUInt64])

def items (s : Sample) : List (SampleKey × Item) :=
  (.sig, .ofNat s.sig.raw.toNat) :: (entryOf .value s.value .ofInt ++
    (.quality, .ofNat s.q.byte.toNat) :: entryOf .age s.age fun age => .ofNat age.toNat)

def asItem (s : Sample) : Item := bodyItem s.items

def slots (s : Sample) : table.Slots
  | .sig => some s.sig
  | .value => s.value
  | .quality => some s.q.byte
  | .age => s.age

variable (s : Sample)

theorem items_rising : Rising s.items := by
  unfold items
  cases s.value <;> cases s.age <;> simp [Rising, BodyKey.number, SampleKey.number]

theorem spelled : Spelled 7 s.entries s.items := by
  have hvalue : Spelled 7 (entryOf SampleKey.value s.value fun value => [.i32 value]) (entryOf .value s.value .ofInt) :=
    .maybe _ fun value _ => writes_one rfl
  have hage : Spelled 7 (entryOf SampleKey.age s.age fun age => [.u64 age.toUInt64])
      (entryOf .age s.age fun age => .ofNat age.toNat) := .maybe _ fun age _ => writes_one rfl
  exact .cons ⟨rfl, writes_one rfl⟩ (List.rel_append hvalue (.cons ⟨rfl, writes_one rfl⟩ hage))

theorem items_length : s.items.length = s.pairs := by
  unfold items pairs
  cases s.value <;> cases s.age <;> rfl

theorem items_count : s.items.length = (UInt64.ofNat s.pairs).toNat := by
  unfold items pairs
  cases s.value <;> cases s.age <;> rfl

theorem encode_tells : Tells s.encode (.map (UInt64.ofNat s.pairs) :: entryCalls s.entries) := by
  have hcount : Tells (tell (CborWriter.map s.pairs) : Encoder ReadingsError Unit) [.map (UInt64.ofNat s.pairs)] := by
    have hcall := Tells.call (ε := ReadingsError) (.map (UInt64.ofNat s.pairs))
    rwa [Call.write, ← s.items_count, items_length] at hcall
  have hvalue : Tells (keyed 2 s.value fun value => tell (CborWriter.i32 value))
      (entryCalls (entryOf SampleKey.value s.value fun value => [.i32 value])) :=
    .maybe SampleKey.value fun value _ => .call (.i32 value)
  have hage : Tells (keyed 4 s.age fun age => tell (CborWriter.u64 age.toNat))
      (entryCalls (entryOf SampleKey.age s.age fun age => [.u64 age.toUInt64])) :=
    .maybe SampleKey.age fun age _ => .call (.u64 age.toUInt64)
  have hcalls : entryCalls s.entries = .key 1 :: .u64 s.sig.raw.toUInt64 ::
      (entryCalls (entryOf SampleKey.value s.value fun value => [.i32 value]) ++
        .key 3 :: .u64 s.q.byte.toUInt64 :: entryCalls (entryOf SampleKey.age s.age fun age => [.u64 age.toUInt64])) := by
    rw [entries, entryCalls, List.flatMap_cons, List.flatMap_append, List.flatMap_cons]
    rfl
  rw [hcalls]
  exact hcount.append <| .cons (c := .key 1) <| .cons (c := .u64 s.sig.raw.toUInt64) <| hvalue.append <|
    .cons (c := .key 3) <| .cons (c := .u64 s.q.byte.toUInt64) hage

theorem encode_ok {dst : ℕ} {out : Bytes} : encodeBody s.encode dst = .ok out ↔
    out = s.asItem.spelling ∧ s.asItem.spelling.length ≤ dst :=
  encodeBody_item s.encode_tells (bodyItem_writes s.spelled s.items_rising s.items_count)

theorem item_legal : s.asItem.Legal 6 := by
  have hsig := s.sig.raw.toNat_lt
  have hq := s.q.byte.toNat_lt
  apply bodyItem_legal s.items_rising
  unfold items
  simp only [List.forall_mem_append, List.forall_mem_cons]
  refine ⟨Item.ofNat_legal (by omega), ?_, Item.ofNat_legal (by omega), ?_⟩
  · intro e he
    obtain ⟨value, -, rfl⟩ := entry_mem.mp he
    exact Item.ofInt_legal
  · intro e he
    obtain ⟨age, -, rfl⟩ := entry_mem.mp he
    have hage := age.toNat_lt
    exact Item.ofNat_legal (by omega)

theorem sample_slots : (ofTable s.slots).sample = .ok s := by
  have hnew : new s.sig s.q s.value s.age = .ok s := (dif_pos s.carries).trans (dif_pos s.aged)
  refine bind_ok.mpr ⟨s.sig, rfl, bind_ok.mpr ⟨s.q.byte, rfl, bind_ok.mpr ⟨s.q, ?_, ?_⟩⟩⟩
  · rw [SignalQuality.fromByte_byte]
    rfl
  · exact congrArg (Except.mapError ReadingsError.quality) hnew

theorem ofItem_asItem : ofItem s.asItem = some s := by
  have hfold : foldPairs (Table.take item) (keyedPairs s.items) table.none = some s.slots := by
    apply Table.fold_entries s.items_rising.keys
    · unfold items
      simp only [List.forall_mem_append, List.forall_mem_cons]
      refine ⟨⟨checkedItem_ok (u16Of_ofNat _) (Id.new_raw _), rfl⟩, ?_, ⟨u8Of_ofNat _, rfl⟩, ?_⟩
      · intro e he
        obtain ⟨value, hvalue, rfl⟩ := entry_mem.mp he
        have hslot : s.slots .value = some value := hvalue
        rw [hslot]
        exact ⟨headI32_ofInt value, rfl⟩
      · intro e he
        obtain ⟨age, hage, rfl⟩ := entry_mem.mp he
        have hslot : s.slots .age = some age := hage
        rw [hslot]
        exact ⟨u32Of_ofNat age, rfl⟩
    · intro k hk
      unfold items at hk
      cases k with
      | sig => simp at hk
      | quality => simp at hk
      | value =>
        cases hvalue : s.value with
        | none => exact hvalue
        | some value => simp [hvalue, entryOf] at hk
      | age =>
        cases hage : s.age with
        | none => exact hage
        | some age => simp [hage, entryOf] at hk
  exact checkedItem_ok hfold s.sample_slots

theorem item_length : s.asItem.spelling.length ≤ sampleMaxBytes := by
  have hsig := ofNat_length_u16 s.sig.raw
  have hq := ofNat_length_u8 s.q.byte
  have hvalue := entry_spelling SampleKey.value s.value ofInt_length
  have hage := entry_spelling SampleKey.age s.age ofNat_length_u32
  unfold asItem sampleMaxBytes
  rw [bodyItem_length ?_ SampleKey.narrow]
  · unfold items
    simp only [List.map_cons, List.map_append, List.sum_cons, List.sum_append]
    omega
  · rw [items_length, pairs]
    cases s.value <;> cases s.age <;> simp

end Sample

end Km43.Readings
