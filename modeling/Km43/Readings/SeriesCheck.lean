import Km43.Cbor.Cells
import Km43.Cbor.Mirror
import Km43.Cbor.Record
import Km43.Cbor.Told
import Km43.Library.Lists
import Km43.Readings.Rows

namespace Km43.Readings

open Library Cbor CborReader CborWriter

inductive SeriesKey
  | sig
  | qualities
  | integers
  | age
  deriving DecidableEq

namespace SeriesKey

def of (number : ℤ) : Option SeriesKey :=
  if number = 1 then some sig else if number = 2 then some qualities else if number = 3 then some integers
  else if number = 4 then some age else none

def number : SeriesKey → ℕ
  | sig => 1
  | qualities => 2
  | integers => 3
  | age => 4

theorem of_iff (n : ℤ) (k : SeriesKey) : of n = some k ↔ n = k.number := by
  constructor
  · intro h
    unfold of at h
    split_ifs at h <;> cases h <;> assumption
  · rintro rfl
    cases k <;> rfl

theorem narrow (k : SeriesKey) : k.number < 24 := by cases k <;> decide

theorem small (k : SeriesKey) : k.number < 256 := k.narrow.trans (by decide)

end SeriesKey

instance : BodyKey SeriesKey := ⟨SeriesKey.of, SeriesKey.number, SeriesKey.of_iff, SeriesKey.small⟩

namespace Series

def valueAt (s : Series) (index : ℕ) : Option Int32 :=
  match s.q[index]? with
  | none => none
  | some here =>
    if !here.carriesValue then none
    else s.values[carrying (s.q.take index)]?

theorem valueAt_dense (s : Series) : s.valueAt = denseAt SignalQuality.carriesValue s.q s.values := by
  funext i
  unfold valueAt denseAt
  cases s.q[i]? with
  | none => rfl
  | some here => cases h : here.carriesValue <;> simp [h, carrying]

def qualities : Bytes → Except ReadingsError (List SignalQuality)
  | [] => .ok []
  | byte :: rest => do
    let q ← (SignalQuality.fromByte byte).mapError ReadingsError.quality
    let rest ← qualities rest
    .ok (q :: rest)

def takeValue (done : List Int32) (i : Item) : Option (List Int32) :=
  (i.leaf?.bind fun h => (headI32 h).toOption).map fun one => done ++ [one]

def readValue (done : List Int32) : Read ReadingsError (List Int32) := do
  let one ← ask i32
  pure (done ++ [one])

def readValues : Read ReadingsError (List Int32) := do
  let n ← ask array
  itemLoop readValue n []

def Value : SeriesKey → Type
  | .sig => Id
  | .qualities => List SignalQuality
  | .integers => List Int32
  | .age => UInt32

def table : Table ReadingsError SeriesKey where
  Value := Value
  read
    | .sig => Sample.readId
    | .qualities => checkedRead (ask bytesValue) qualities
    | .integers => readValues
    | .age => ask u32
  twice k := .duplicate (UInt8.ofNat k.number)

def item : ∀ k, Item → Option (table.Value k)
  | .sig => checkedItem u16Of Id.new
  | .qualities => checkedItem Item.bytes? qualities
  | .integers => fun i => i.items?.bind fun items => foldItems takeValue items []
  | .age => u32Of

theorem reads (k : SeriesKey) : Reads (fun _ => True) 7 (table.read k) (item k) := by
  cases k with
  | sig => exact checkedRead_reads (.u16 fun _ => trivial) _
  | qualities => exact checkedRead_reads (.bytesValue fun _ => trivial) _
  | integers => exact Reads.array (fun _ => trivial) (fun done => (Reads.i32 fun _ => trivial).mapped _) []
  | age => exact .u32 fun _ => trivial

def ofTable (s : table.Slots) : Slots where
  sig := s .sig
  carrying := (s .qualities).map carrying
  elements := (s .qualities).map List.length
  integers := (s .integers).map List.length
  age := s .age
  stale := (s .qualities).any anyStale

theorem countQualities_eq (bytes : Bytes) (n : ℕ) (stale : Bool) : countQualities bytes n stale =
    (fun q => (n + Readings.carrying q, stale || anyStale q)) <$> qualities bytes := by
  induction bytes generalizing n stale with
  | nil => simp [countQualities, qualities, Readings.carrying, anyStale, Functor.map, Except.map]
  | cons byte rest ih =>
    rw [countQualities, qualities]
    cases hq : (SignalQuality.fromByte byte).mapError ReadingsError.quality with
    | error why => rfl
    | ok q =>
      have hcount : ∀ rest, (if q.carriesValue then n + 1 else n) + Readings.carrying rest =
          n + Readings.carrying (q :: rest) := by
        intro rest
        rw [Readings.carrying, Readings.carrying, List.filter_cons]
        split_ifs
        · rw [List.length_cons]
          omega
        · rfl
      have hstale : ∀ rest, (stale || q.isStale || anyStale rest) = (stale || anyStale (q :: rest)) := by
        intro rest
        rw [Bool.or_assoc]
        rfl
      change countQualities rest _ _ = _
      rw [ih]
      change _ = (fun q => (n + Readings.carrying q, stale || anyStale q)) <$> (do
        let rest ← qualities rest
        Except.ok (q :: rest))
      cases qualities rest with
      | error why => rfl
      | ok rest => exact congrArg Except.ok (Prod.ext (hcount rest) (hstale rest))

theorem itemLoop_count (n : ℕ) (done : List Int32) : (do
      itemLoop (fun _ => do
        let _ ← ask i32
        pure ()) n ()
      pure (done.length + n) : Read ReadingsError ℕ) = List.length <$> itemLoop readValue n done := by
  induction n generalizing done with
  | zero => rfl
  | succ n ih =>
    simp only [itemLoop, readValue, map_eq_pure_bind, bind_assoc, pure_bind]
    apply congrArg
    funext one
    have hnext := ih (done ++ [one])
    rw [List.length_append, List.length_singleton, Nat.add_assoc, Nat.add_comm 1 n] at hnext
    rw [hnext, map_eq_pure_bind]

theorem readIntegers_eq : readIntegers = List.length <$> readValues := by
  unfold readIntegers readValues
  rw [map_eq_pure_bind, bind_assoc]
  apply congrArg
  funext n
  have hloop := itemLoop_count n []
  rw [List.length_nil, Nat.zero_add] at hloop
  rw [hloop, map_eq_pure_bind]

theorem slotField_length (twice : ReadingsError) (slot : Option (List Int32)) (fill : Option ℕ → Slots) :
    slotField readIntegers twice (slot.map List.length) fill =
      slotField readValues twice slot fun slot => fill (slot.map List.length) := by
  rw [readIntegers_eq]
  simp only [slotField, map_eq_pure_bind, bind_assoc, pure_bind]
  apply congrArg
  funext values
  cases slot <;> rfl

theorem qualities_length {bytes : Bytes} {q : List SignalQuality} (h : qualities bytes = .ok q) :
    q.length = bytes.length := by
  induction bytes generalizing q with
  | nil =>
    cases h
    rfl
  | cons byte rest ih =>
    obtain ⟨one, -, h⟩ := bind_ok.mp h
    obtain ⟨more, hmore, h⟩ := bind_ok.mp h
    cases h
    rw [List.length_cons, List.length_cons, ih hmore]

theorem readElements_eq (s : table.Slots) : readElements (ofTable s) =
    slotField (checkedRead (ask bytesValue) qualities) (.duplicate 2) (s .qualities)
      fun slot => ofTable (Function.update s .qualities slot) := by
  unfold readElements slotField checkedRead
  rw [bind_assoc]
  apply congrArg
  funext bytes
  rw [countQualities_eq]
  cases hbytes : qualities bytes with
  | error why => rfl
  | ok q =>
    cases hs : s .qualities with
    | none =>
      have hstale : (ofTable s).stale = false :=
        congrArg (fun slot : Option (List SignalQuality) => slot.any anyStale) hs
      have helements : (ofTable s).elements = none :=
        congrArg (fun slot : Option (List SignalQuality) => slot.map List.length) hs
      rw [hstale, helements, ← qualities_length hbytes]
      change (pure _ : Read ReadingsError Slots) = pure _
      rw [Nat.zero_add]
      rfl
    | some before =>
      have helements : (ofTable s).elements = some (List.length before) :=
        congrArg (fun slot : Option (List SignalQuality) => slot.map List.length) hs
      rw [helements]
      rfl

theorem records : table.Records ofTable step := by
  constructor
  · intro k s
    cases k with
    | sig => rfl
    | qualities => exact readElements_eq s
    | integers => exact slotField_length _ _ _
    | age => rfl
  · intro n s hn
    have hne : ∀ k : SeriesKey, n ≠ k.number := fun k h => hn ⟨k, h⟩
    have h₁ : n ≠ 1 := hne .sig
    have h₂ : n ≠ 2 := hne .qualities
    have h₃ : n ≠ 3 := hne .integers
    have h₄ : n ≠ 4 := hne .age
    unfold step
    split <;> first | rfl | omega

structure Contents where
  sig : Id
  q : List SignalQuality
  values : List Int32
  age : Option UInt32

namespace Contents

def slots (c : Contents) : table.Slots
  | .sig => some c.sig
  | .qualities => some c.q
  | .integers => some c.values
  | .age => c.age

def series (c : Contents) : Except QualityError Series := Series.new c.sig c.q c.values c.age

end Contents

/-- The payload is a map that says just this, in whatever order and with whatever else. -/
def Describes (payload : Bytes) (c : Contents) : Prop := ∃ w ps, (Item.map w ps).Legal maxDepth ∧
  (Item.map w ps).spelling = payload ∧ Keyed ps ∧ ∀ k, Table.SlotOf item ps c.slots k

theorem describes_iff {payload : Bytes} {c : Contents} :
    Describes payload c ↔ decodeBody table.slots payload = .ok c.slots := (Table.decodes reads payload c.slots).symm

theorem series_ok {c : Contents} : (∃ s, c.series = .ok s) ↔
    (2 ≤ c.q.length ∧ c.q.length ≤ maxSeriesLen) ∧ c.values.length = Readings.carrying c.q ∧ c.age.isSome = anyStale c.q := by
  rw [Contents.series, new]
  split_ifs with hlen hcount hage hstale
  · simp [hlen, hcount, hage]
  · simp [hage]
  · simp [hage]
  · simp [hcount]
  · simp [hlen]

theorem verdict_ok {c : Contents} {result : UInt16 × ℕ} : (ofTable c.slots).verdict = .ok result ↔
    (∃ s, c.series = .ok s) ∧ result = (c.sig.raw, c.q.length) := by
  rw [series_ok]
  have hverdict : (ofTable c.slots).verdict =
      if Readings.carrying c.q ≠ c.values.length then
        .error (.quality (.valueCount (Readings.carrying c.q) c.values.length))
      else if c.q.length < 2 ∨ maxSeriesLen < c.q.length then .error (.quality (.seriesLength c.q.length))
      else if anyStale c.q ∧ c.age.isNone then .error (.quality .staleWithoutAge)
      else if ¬anyStale c.q ∧ c.age.isSome then .error (.quality (.ageWithoutStaleness .ok))
      else .ok (c.sig.raw, c.q.length) := rfl
  rw [hverdict]
  by_cases hcount : Readings.carrying c.q = c.values.length
  · rw [if_neg (not_not_intro hcount)]
    by_cases hlen : c.q.length < 2 ∨ maxSeriesLen < c.q.length
    · rw [if_pos hlen]
      have hnot : ¬ (2 ≤ c.q.length ∧ c.q.length ≤ maxSeriesLen) := by omega
      simp [hnot]
    · rw [if_neg hlen]
      have hlong : 2 ≤ c.q.length ∧ c.q.length ≤ maxSeriesLen := by omega
      cases hstale : anyStale c.q <;> cases hage : c.age <;> simp [hcount, hlong, eq_comm]
  · rw [if_pos hcount]
    simp [Ne.symm hcount]

theorem verdict_contents {s : table.Slots} {result : UInt16 × ℕ} (h : (ofTable s).verdict = .ok result) :
    ∃ c : Contents, s = c.slots := by
  obtain ⟨elements, helements, h⟩ := bind_ok.mp h
  obtain ⟨want, -, h⟩ := bind_ok.mp h
  obtain ⟨got, hgot, h⟩ := bind_ok.mp h
  obtain ⟨q, hq, -⟩ := Option.map_eq_some_iff.mp (slotRequired_ok.mp helements)
  obtain ⟨values, hvalues, -⟩ := Option.map_eq_some_iff.mp (slotRequired_ok.mp hgot)
  split_ifs at h
  obtain ⟨sig, hsig, -⟩ := bind_ok.mp h
  refine ⟨⟨sig, q, values, s .age⟩, ?_⟩
  funext k
  cases k with
  | sig => exact slotRequired_ok.mp hsig
  | qualities => exact hq
  | integers => exact hvalues
  | age => rfl

theorem check_ok {payload : Bytes} {result : UInt16 × ℕ} : check payload = .ok result ↔
    ∃ c, Describes payload c ∧ (∃ s, c.series = .ok s) ∧ result = (c.sig.raw, c.q.length) := by
  have hbody : decodeBody (do let n ← ask map; pairLoop step n .empty) payload =
      ofTable <$> decodeBody table.slots payload := records.body rfl payload
  unfold check
  change (decodeBody (do let n ← ask map; pairLoop step n .empty) payload >>= _) = _ ↔ _
  rw [hbody]
  simp only [describes_iff]
  cases hslots : decodeBody table.slots payload with
  | error why =>
    constructor
    · intro h
      cases h
    · rintro ⟨c, h, -⟩
      cases h
  | ok s =>
    change (ofTable s).verdict = _ ↔ _
    constructor
    · intro h
      obtain ⟨c, rfl⟩ := verdict_contents h
      exact ⟨c, rfl, verdict_ok.mp h⟩
    · rintro ⟨c, h, hc⟩
      obtain rfl := Except.ok.inj h
      exact verdict_ok.mpr hc

def contents (s : Series) : Contents := ⟨s.sig, s.q, s.values, s.age⟩

theorem contents_series (s : Series) : s.contents.series = .ok s := by
  have hlen : 2 ≤ s.q.length ∧ s.q.length ≤ maxSeriesLen := ⟨s.long, s.short⟩
  rw [Contents.series, new]
  exact (dif_pos hlen).trans ((dif_pos s.counted).trans (dif_pos s.aged))

def entries (s : Series) : List (SeriesKey × List Call) :=
  [(.sig, [.u64 s.sig.raw.toUInt64]), (.qualities, [.bytes (s.q.map SignalQuality.byte)]),
    (.integers, .array (UInt64.ofNat s.values.length) :: s.values.flatMap fun value => [.i32 value])] ++
    s.age.toList.map fun age => (.age, [.u64 age.toUInt64])

def items (s : Series) : List (SeriesKey × Item) :=
  [(.sig, .ofNat s.sig.raw.toNat), (.qualities, .ofBytes (s.q.map SignalQuality.byte)),
    (.integers, .ofItems (s.values.map .ofInt))] ++ s.age.toList.map fun age => (.age, .ofNat age.toNat)

variable (s : Series)

theorem values_few : s.values.length ≤ maxSeriesLen := by
  rw [s.counted]
  exact (List.length_filter_le _ _).trans s.short

theorem count_toNat : (UInt64.ofNat s.values.length).toNat = s.values.length := by
  have hfew := s.values_few
  unfold maxSeriesLen at hfew
  rw [UInt64.toNat_ofNat_of_lt']
  exact hfew.trans_lt (by decide)

theorem items_rising : Rising s.items := by
  unfold items
  cases s.age <;> simp [Rising, BodyKey.number, SeriesKey.number]

theorem spelled : Spelled 7 s.entries s.items := by
  have hvalues : Writes 7 (writeAll (.array (UInt64.ofNat s.values.length) :: s.values.flatMap fun value => [.i32 value]))
      (.ofItems (s.values.map .ofInt)) := by
    have hitems : WritesItems 6 (writeAll (s.values.flatMap fun value => [.i32 value])) (s.values.map .ofInt) :=
      .flatMap fun value _ => writes_one rfl
    refine writes_arrayCalls hitems ?_
    rw [List.length_map, s.count_toNat]
  unfold entries items
  cases s.age with
  | none => exact .cons ⟨rfl, writes_one rfl⟩ <| .cons ⟨rfl, writes_one rfl⟩ <| .cons ⟨rfl, hvalues⟩ .nil
  | some age =>
    exact .cons ⟨rfl, writes_one rfl⟩ <| .cons ⟨rfl, writes_one rfl⟩ <| .cons ⟨rfl, hvalues⟩ <|
      .cons ⟨rfl, writes_one rfl⟩ .nil

theorem encode_tells {scratch : ℕ} (h : s.q.length ≤ scratch) :
    Tells (s.encode scratch) (.map (UInt64.ofNat (3 + s.age.toList.length)) :: entryCalls s.entries) := by
  have hroom : ¬ scratch < s.q.length := Nat.not_lt.mpr h
  have hcount : Tells (tell (CborWriter.array s.values.length) : Encoder ReadingsError Unit)
      [.array (UInt64.ofNat s.values.length)] := by
    have hcall := Tells.call (ε := ReadingsError) (.array (UInt64.ofNat s.values.length))
    rwa [Call.write, s.count_toNat] at hcall
  have hvalues := Tells.forM (ε := ReadingsError) (f := fun value : Int32 => tell (CborWriter.i32 value))
    (fun value => .call (.i32 value)) s.values
  unfold encode entries
  simp only [if_neg hroom]
  cases s.age with
  | none =>
    exact .cons (c := .map 3) <| .cons (c := .key 1) <| .cons (c := .u64 s.sig.raw.toUInt64) <| .cons (c := .key 2) <|
      .cons (c := .bytes (s.q.map SignalQuality.byte)) <| .cons (c := .key 3) <| hcount.append (hvalues.append .none)
  | some age =>
    have hage : Tells (keyed 4 (some age) fun age => tell (CborWriter.u64 age.toNat)) [.key 4, .u64 age.toUInt64] :=
      .cons (c := .key 4) (.call (.u64 age.toUInt64))
    exact .cons (c := .map 4) <| .cons (c := .key 1) <| .cons (c := .u64 s.sig.raw.toUInt64) <| .cons (c := .key 2) <|
      .cons (c := .bytes (s.q.map SignalQuality.byte)) <| .cons (c := .key 3) <| hcount.append (hvalues.append hage)

theorem encode_ok {scratch dst : ℕ} {out : Bytes} : encodeBody (s.encode scratch) dst = .ok out ↔
    s.q.length ≤ scratch ∧ out = (bodyItem s.items).spelling ∧ (bodyItem s.items).spelling.length ≤ dst := by
  by_cases h : s.q.length ≤ scratch
  · have hcount : s.items.length = (UInt64.ofNat (3 + s.age.toList.length)).toNat := by
      unfold items
      cases s.age <;> rfl
    rw [encodeBody_item (s.encode_tells h) (bodyItem_writes s.spelled s.items_rising hcount)]
    exact (and_iff_right h).symm
  · constructor
    · intro hencode
      simp only [encodeBody, encode, if_pos (Nat.lt_of_not_le h)] at hencode
      cases hencode
    · intro hencode
      exact absurd hencode.1 h

theorem items_legal {d : ℕ} : ∀ e ∈ s.items, e.2.Legal (d + 1) := by
  have hsig := s.sig.raw.toNat_lt
  have hshort := s.short
  have hfew := s.values_few
  unfold maxSeriesLen at hshort hfew
  have hvalues : (Item.ofItems (s.values.map .ofInt)).Legal (d + 1) := by
    apply Item.ofItems_legal
    · rw [List.length_map]
      omega
    · intro i hi
      obtain ⟨value, -, rfl⟩ := List.mem_map.mp hi
      exact Item.ofInt_legal
  have hqualities : (Item.ofBytes (s.q.map SignalQuality.byte)).Legal (d + 1) := by
    apply Item.ofBytes_legal
    rw [List.length_map]
    omega
  unfold items
  simp only [List.forall_mem_append, List.forall_mem_cons]
  refine ⟨⟨Item.ofNat_legal (by omega), hqualities, hvalues, by simp⟩, ?_⟩
  intro e he
  obtain ⟨age, -, rfl⟩ := List.mem_map.mp he
  have hage := age.toNat_lt
  exact Item.ofNat_legal (by omega)

theorem qualities_bytes (q : List SignalQuality) : qualities (q.map SignalQuality.byte) = .ok q := by
  induction q with
  | nil => rfl
  | cons one rest ih =>
    rw [List.map_cons, qualities, SignalQuality.fromByte_byte, ih]
    rfl

theorem takeValues (values done : List Int32) : foldItems takeValue (values.map .ofInt) done = some (done ++ values) := by
  induction values generalizing done with
  | nil => rw [List.append_nil]; rfl
  | cons value values ih =>
    have htake : takeValue done (.ofInt value) = some (done ++ [value]) := by rw [takeValue, headI32_ofInt]; rfl
    rw [List.map_cons, foldItems, htake]
    change foldItems takeValue (values.map .ofInt) (done ++ [value]) = _
    rw [ih, List.append_assoc, List.singleton_append]

theorem items_describe : Describes (bodyItem s.items).spelling s.contents := by
  rw [describes_iff]
  have hsig : item .sig (.ofNat s.sig.raw.toNat) = some s.sig := checkedItem_ok (u16Of_ofNat _) (Id.new_raw _)
  have hqualities : item .qualities (.ofBytes (s.q.map SignalQuality.byte)) = some s.q :=
    checkedItem_ok rfl (qualities_bytes s.q)
  have hintegers : item .integers (.ofItems (s.values.map .ofInt)) = some s.values := takeValues s.values []
  apply (Table.decodes reads).entries s.items_rising s.items_legal
  · unfold items contents
    cases s.age with
    | none =>
      simp only [Option.toList_none, List.map_nil, List.append_nil, List.forall_mem_cons]
      exact ⟨⟨hsig, rfl⟩, ⟨hqualities, rfl⟩, ⟨hintegers, rfl⟩, by simp⟩
    | some age =>
      simp only [Option.toList_some, List.map_cons, List.map_nil, List.cons_append, List.nil_append, List.forall_mem_cons]
      exact ⟨⟨hsig, rfl⟩, ⟨hqualities, rfl⟩, ⟨hintegers, rfl⟩, ⟨u32Of_ofNat age, rfl⟩, by simp⟩
  · intro k hk
    unfold items at hk
    cases hage : s.age with
    | none =>
      cases k with
      | age => exact hage
      | _ => simp at hk
    | some age =>
      rw [hage] at hk
      cases k <;> simp at hk

theorem described_once {payload : Bytes} {c c' : Contents} (h : Describes payload c) (h' : Describes payload c') :
    c = c' := by
  have hslots : c.slots = c'.slots := by
    rw [describes_iff] at h h'
    exact Except.ok.inj (h.symm.trans h')
  obtain ⟨sig, q, values, age⟩ := c
  obtain ⟨sig', q', values', age'⟩ := c'
  have hsig : some sig = some sig' := congrFun hslots .sig
  have hq : some q = some q' := congrFun hslots .qualities
  have hvalues : some values = some values' := congrFun hslots .integers
  have hage : age = age' := congrFun hslots .age
  cases hsig
  cases hq
  cases hvalues
  cases hage
  rfl

theorem contents_of_series {c : Contents} {s : Series} (h : c.series = .ok s) : c = s.contents := by
  rw [Contents.series, new] at h
  split_ifs at h
  cases h
  rfl

theorem check_item : check (bodyItem s.items).spelling = .ok (s.sig.raw, s.q.length) :=
  check_ok.mpr ⟨s.contents, s.items_describe, ⟨s, s.contents_series⟩, rfl⟩

theorem values_length : (Item.ofItems (s.values.map .ofInt)).spelling.length ≤ 81 := by
  have hfew := s.values_few
  unfold maxSeriesLen at hfew
  have hall : (Item.spellAll (s.values.map .ofInt)).length ≤ (s.values.map Item.ofInt).length * 5 := by
    apply spellAll_length
    intro i hi
    obtain ⟨value, -, rfl⟩ := List.mem_map.mp hi
    exact ofInt_length value
  rw [List.length_map] at hall
  rw [ofItems_length (by rw [List.length_map]; omega)]
  omega

theorem qualities_spelling : (Item.ofBytes (s.q.map SignalQuality.byte)).spelling.length ≤ 17 := by
  have hshort := s.short
  unfold maxSeriesLen at hshort
  have hlen : (s.q.map SignalQuality.byte).length = s.q.length := List.length_map _
  have hhead := (headBytes_le .bytes).2.2.2.2 (show (s.q.map SignalQuality.byte).length < 24 by omega)
  rw [Item.ofBytes, Item.spelling, Token.spelling, List.length_append, hhead]
  omega

theorem item_length : (bodyItem s.items).spelling.length ≤ seriesMaxBytes := by
  have hsig := ofNat_length_u16 s.sig.raw
  have hvalues := s.values_length
  have hqualities := s.qualities_spelling
  have hage : ((s.age.toList.map fun age => (SeriesKey.age, Item.ofNat age.toNat)).map
      fun e => 1 + e.2.spelling.length).sum ≤ 1 + 5 := entry_spelling _ _ ofNat_length_u32
  unfold seriesMaxBytes
  rw [bodyItem_length ?_ SeriesKey.narrow]
  · unfold items
    simp only [List.map_cons, List.map_nil, List.map_append, List.sum_cons, List.sum_nil, List.sum_append]
    omega
  · unfold items
    cases s.age <;> simp

/-- A series reads each value at the element it is of, and the checker takes just what the constructor does. -/
theorem series_agree :
    (∀ s : Series, (places SignalQuality.carriesValue s.q).map s.valueAt = s.values.map some ∧
      ∀ i, (s.valueAt i).isSome = s.q[i]?.any SignalQuality.carriesValue) ∧
    (∀ payload c, Describes payload c → ((∃ result, check payload = .ok result) ↔ ∃ s, c.series = .ok s)) ∧
    (∀ payload result, check payload = .ok result ↔
      ∃ c s, Describes payload c ∧ c.series = .ok s ∧ result = (s.sig.raw, s.q.length)) ∧
    (∀ (s : Series) scratch dst out, encodeBody (s.encode scratch) dst = .ok out →
      Describes out s.contents ∧ check out = .ok (s.sig.raw, s.q.length)) ∧
    ∀ s : Series, ∃ size, ∀ scratch dst, maxSeriesLen ≤ scratch → size ≤ dst →
      ∃ out, encodeBody (s.encode scratch) dst = .ok out := by
  refine ⟨?_, ?_, ?_, ?_, ?_⟩
  · intro s
    rw [valueAt_dense]
    exact ⟨places_denseAt s.q s.values s.counted, denseAt_isSome s.counted⟩
  · intro payload c hc
    constructor
    · rintro ⟨result, h⟩
      obtain ⟨c', hc', hs, -⟩ := check_ok.mp h
      obtain rfl := described_once hc hc'
      exact hs
    · intro hs
      exact ⟨_, check_ok.mpr ⟨c, hc, hs, rfl⟩⟩
  · intro payload result
    rw [check_ok]
    constructor
    · rintro ⟨c, hc, ⟨s, hs⟩, rfl⟩
      obtain rfl := contents_of_series hs
      exact ⟨_, s, hc, hs, rfl⟩
    · rintro ⟨c, s, hc, hs, rfl⟩
      obtain rfl := contents_of_series hs
      exact ⟨_, hc, ⟨s, hs⟩, rfl⟩
  · intro s scratch dst out h
    obtain ⟨-, rfl, -⟩ := s.encode_ok.mp h
    exact ⟨s.items_describe, s.check_item⟩
  · intro s
    refine ⟨(bodyItem s.items).spelling.length, fun scratch dst hscratch hdst => ?_⟩
    exact ⟨_, s.encode_ok.mpr ⟨s.short.trans hscratch, rfl, hdst⟩⟩

end Series

end Km43.Readings
