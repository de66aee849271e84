import Km43.Readings.PageTrip

namespace Km43.Readings

open Library Cbor CborReader CborWriter

namespace ReadingsHeader

def Value : ReadingsKey → Type
  | .seq | .time => UInt64
  | .rev => UInt32
  | .samples | .series => ℕ
  | .next | .total => UInt16
  | .outcome => UInt8

def table : Table ReadingsError ReadingsKey where
  Value := Value
  read
    | .seq | .time => word
    | .rev => ask u32
    | .samples | .series => count
    | .next | .total => ask u16
    | .outcome => ask u8
  twice k := .duplicate (UInt8.ofNat k.number)

def ofTable (s : table.Slots) : Slots :=
  ⟨s .seq, s .rev, s .time, s .samples, s .series, s .next, s .total, s .outcome⟩

theorem records : table.Records ofTable step := by
  constructor
  · intro k s
    cases k <;> rfl
  · intro n s hn
    have hne : ∀ k : ReadingsKey, n ≠ k.number := fun k h => hn ⟨k, h⟩
    have h₁ : n ≠ 1 := hne .seq
    have h₂ : n ≠ 2 := hne .rev
    have h₃ : n ≠ 3 := hne .time
    have h₄ : n ≠ 4 := hne .samples
    have h₅ : n ≠ 5 := hne .series
    have h₆ : n ≠ 6 := hne .next
    have h₇ : n ≠ 7 := hne .total
    have h₈ : n ≠ 8 := hne .outcome
    unfold step
    split <;> first | rfl | omega

theorem count_takes {rows : List Item} (hshort : rows.length < 256) : Takes count (arrayCalls rows) rows.length := by
  have harray := Takes.array (ε := ReadingsError) (UInt64.ofNat rows.length)
  rw [UInt64.toNat_ofNat_of_lt' (hshort.trans (by decide))] at harray
  have hpassed := Takes.allPassed (ε := ReadingsError) (rows.map Item.spelling)
  rw [List.length_map, List.map_map] at hpassed
  have hdone : Takes (do
      itemLoop (fun _ => ask skip) rows.length ()
      pure rows.length : Read ReadingsError ℕ) (rows.map fun i => .raw i.spelling) rows.length := by
    have hboth := hpassed.bind (k := fun _ => (pure rows.length : Read ReadingsError ℕ)) (.pure rows.length)
    rw [List.append_nil] at hboth
    exact hboth
  exact harray.bind hdone

end ReadingsHeader

namespace ReadingsBody

open ReadingsHeader

variable {body : ReadingsBody} {readings : List Reading}

def header (body : ReadingsBody) : ReadingsHeader :=
  ⟨body.seq, body.rev, body.time, body.outcome, body.shown.next, body.total, body.shown.samples, body.shown.series⟩

def slots (body : ReadingsBody) (readings : List Reading) : table.Slots
  | .seq => some body.seq
  | .rev => some body.rev
  | .time => body.time
  | .samples => (filled (rowsOf false readings)).map List.length
  | .series => (filled (rowsOf true readings)).map List.length
  | .next => some body.shown.next
  | .total => some body.total
  | .outcome => some body.outcome.number

theorem entries_keys : (body.entries readings).map Prod.fst = (body.items readings).map Prod.fst := by
  unfold entries items tail tailItems
  cases body.time <;> cases filled (rowsOf false readings) <;> cases filled (rowsOf true readings) <;> rfl

theorem entries_take (h : body.shown.Carries readings) : ∀ e ∈ body.entries readings,
    ∃ v, body.slots readings e.1 = some v ∧ Takes (table.read e.1) e.2 v := by
  unfold entries tail
  simp only [List.forall_mem_append, List.forall_mem_cons]
  refine ⟨⟨_, rfl, .word _⟩, ⟨_, rfl, .u32 _⟩, ?_, ?_, ?_, ⟨_, rfl, .u16 _⟩, ⟨_, rfl, .u16 _⟩, ⟨_, rfl, .u8 _⟩, by simp⟩
  · intro e he
    obtain ⟨time, htime, rfl⟩ := entry_mem.mp he
    exact ⟨time, htime, .word _⟩
  · intro e he
    obtain ⟨rows, hrows, rfl⟩ := entry_mem.mp he
    obtain rfl := filled_some hrows
    exact ⟨_, congrArg (Option.map List.length) hrows, count_takes (h.short false)⟩
  · intro e he
    obtain ⟨rows, hrows, rfl⟩ := entry_mem.mp he
    obtain rfl := filled_some hrows
    exact ⟨_, congrArg (Option.map List.length) hrows, count_takes (h.short true)⟩

theorem slots_rest (k : ReadingsKey) (hk : k ∉ (body.entries readings).map Prod.fst) : body.slots readings k = none := by
  rw [entries_keys] at hk
  unfold items tailItems at hk
  cases k with
  | time =>
    cases htime : body.time with
    | none => exact htime
    | some time => simp [htime] at hk
  | samples =>
    cases hrows : filled (rowsOf false readings) with
    | none => exact congrArg (Option.map List.length) hrows
    | some rows => simp [hrows] at hk
  | series =>
    cases hrows : filled (rowsOf true readings) with
    | none => exact congrArg (Option.map List.length) hrows
    | some rows => simp [hrows] at hk
  | seq | rev | next | total | outcome => simp at hk

theorem decode_slots (hwritten : body.Written) (h : body.shown.Carries readings) :
    decodeBody table.slots (bodyItem (body.items readings)).spelling = .ok (body.slots readings) := by
  have hkeys : ((body.entries readings).map Prod.fst).Nodup := by
    rw [entries_keys]
    exact items_rising.keys
  have hlen : (body.entries readings).length = (body.items readings).length := by
    have hboth := congrArg List.length (@entries_keys body readings)
    rwa [List.length_map, List.length_map] at hboth
  have hpairs := Table.pairs_take hkeys (entries_take h) slots_rest
  have hmap := Takes.map (ε := ReadingsError) (UInt64.ofNat body.pairs)
  rw [← items_count h, ← hlen] at hmap
  have hslots : Takes table.slots _ _ := hmap.bind hpairs
  have hencode := (encode_ok hwritten h).mpr ⟨rfl, items_spelling h⟩
  rw [encode_written hwritten] at hencode
  obtain ⟨w, w', len, hwrite, hfinish, hout⟩ := (encodeBody_ok (write_tells h)).mp hencode
  obtain ⟨r, hread, hend⟩ := hslots.run (by decide) hwrite hfinish
  rw [hout] at hread
  refine bind_ok.mpr ⟨_, hread, bind_ok.mpr ⟨(), ?_, rfl⟩⟩
  rw [hend]
  rfl

theorem filled_length (rows : List Item) : ((filled rows).map List.length).getD 0 = rows.length := by
  cases rows <;> rfl

theorem shown_none (houtcome : body.outcome ≠ .ok) : body.shown = .new := by
  have hnot : body.answered = false := decide_eq_false houtcome
  unfold shown
  rw [hnot]
  cases body.page <;> rfl

theorem slots_header (h : body.shown.Carries readings) : (ofTable (body.slots readings)).header = .ok body.header := by
  have hsamples : (((filled (rowsOf false readings)).map List.length).getD 0) = body.shown.samples := by
    rw [filled_length]
    exact (h.rows false).symm
  have hseries : (((filled (rowsOf true readings)).map List.length).getD 0) = body.shown.series := by
    rw [filled_length]
    exact (h.rows true).symm
  have hanswered : ¬(body.outcome ≠ .ok ∧ (body.shown.next ≠ 0 ∨ body.shown.samples > 0 ∨ body.shown.series > 0)) := by
    rintro ⟨houtcome, hrest⟩
    rw [shown_none houtcome] at hrest
    revert hrest
    decide
  have houtcome : slotRequired (ReadingsError.unknownOutcome body.outcome.number)
      (ReadingsOutcome.of body.outcome.number) = .ok body.outcome := by
    rw [ReadingsOutcome.of_number]
    rfl
  refine bind_ok.mpr ⟨_, rfl, bind_ok.mpr ⟨_, houtcome, bind_ok.mpr ⟨_, rfl, ?_⟩⟩⟩
  change (if body.outcome ≠ .ok ∧ (body.shown.next ≠ 0 ∨ ((filled (rowsOf false readings)).map List.length).getD 0 > 0 ∨
    ((filled (rowsOf true readings)).map List.length).getD 0 > 0) then _ else _) = _
  rw [hsamples, hseries, if_neg hanswered]
  refine bind_ok.mpr ⟨_, rfl, bind_ok.mpr ⟨_, rfl, bind_ok.mpr ⟨_, rfl, ?_⟩⟩⟩
  exact congrArg₂ (fun samples series => (Except.ok (ReadingsHeader.mk body.seq body.rev body.time body.outcome
    body.shown.next body.total samples series) : Except ReadingsError ReadingsHeader)) hsamples hseries

theorem decode_items (hwritten : body.Written) (h : body.shown.Carries readings) :
    ReadingsHeader.decode (bodyItem (body.items readings)).spelling = .ok body.header := by
  have hslots : decodeBody (do let n ← ask CborReader.map; pairLoop step n .empty)
      (bodyItem (body.items readings)).spelling = ofTable <$> decodeBody table.slots _ := records.body rfl _
  rw [decode_slots hwritten h] at hslots
  exact bind_ok.mpr ⟨_, hslots, slots_header h⟩

end ReadingsBody

inductive SamplesKey
  | samples
  deriving DecidableEq

namespace SamplesKey

def of (number : ℤ) : Option SamplesKey := if number = 4 then some samples else none

def number : SamplesKey → ℕ
  | samples => 4

theorem of_iff (n : ℤ) (k : SamplesKey) : of n = some k ↔ n = k.number := by
  cases k
  simp [of, number]

theorem small (k : SamplesKey) : k.number < 256 := by
  cases k
  decide

end SamplesKey

instance : BodyKey SamplesKey := ⟨SamplesKey.of, SamplesKey.number, SamplesKey.of_iff, SamplesKey.small⟩

namespace ReadingsHeader

def samplesTable : Table ReadingsError SamplesKey where
  Value _ := Bytes
  read _ := ask raw
  twice _ := .duplicate 4

def samplesItem (_ : SamplesKey) (i : Item) : Option Bytes := some i.spelling

theorem samples_records : samplesTable.Records (fun s => s .samples) samplesStep := by
  constructor
  · rintro ⟨⟩ s
    have hfill : (fun slot => Function.update s SamplesKey.samples slot .samples) = id := by
      funext slot
      exact Function.update_self _ _ _
    rw [hfill]
    exact if_pos rfl
  · intro n s hn
    exact if_neg fun h => hn ⟨.samples, h⟩

theorem samples_decode : samplesTable.Decodes samplesItem :=
  Table.arms_decode fun _ => .kept .ok raw_checked fun _ => rfl

theorem deliver_items {σ : Type} (each : σ → Sample → σ) {items : List Item} {samples : List Sample}
    (h : List.Forall₂ (fun i a => i.Legal 7 ∧ Sample.ofItem i = some a) items samples) {r : CborReader} {tail : Bytes}
    (hr : InArray 7 items.length r) (hrest : r.rest = Item.spellAll items ++ tail) (s : σ) :
    deliver each items.length r s = (.ok (), samples.foldl each s) := by
  induction h generalizing r s with
  | nil => rfl
  | @cons i a items samples hi _ ih =>
    obtain ⟨hlegal, hvalue⟩ := hi
    rw [Item.spellAll, List.append_assoc] at hrest
    obtain ⟨hready, -⟩ := (inArray_queue 7).ready _ r hr
    obtain ⟨r', hread, hpast⟩ := Sample.decode_reads.takes hready hlegal hrest hvalue
    have hnext := (inArray_queue 7).next _ _ _ _ _ hr hlegal hrest hpast
    rw [List.length_cons, deliver, hread]
    exact ih hnext (past_rest hpast hrest) _

theorem deliver_array {σ : Type} (each : σ → Sample → σ) {samples : List Sample} (hshort : samples.length < 256) (s : σ) :
    ∃ r, (ask array : Read ReadingsError ℕ) (.new (Item.ofItems (samples.map Sample.asItem)).spelling) =
        .ok (samples.length, r) ∧ deliver each samples.length r s = (.ok (), samples.foldl each s) := by
  have hitems : List.Forall₂ (fun i a => i.Legal 7 ∧ Sample.ofItem i = some a) (samples.map Sample.asItem) samples := by
    rw [List.forall₂_map_left_iff, List.forall₂_same]
    intro a _
    exact ⟨a.item_legal.mono (by decide), a.ofItem_asItem⟩
  have hlegal : (Item.ofItems (samples.map Sample.asItem)).Legal maxDepth := by
    apply Item.ofItems_legal
    · rw [List.length_map]
      omega
    · intro i hi
      obtain ⟨a, -, rfl⟩ := List.mem_map.mp hi
      exact a.item_legal.mono (by decide)
  rcases array_head hlegal with ⟨w, items, r, heq, harray, hin, hrest⟩ | ⟨hnone, -⟩
  · obtain ⟨-, rfl⟩ := Item.array.inj heq
    rw [← List.append_nil (Item.spellAll _)] at hrest
    have hdeliver := deliver_items each hitems hin hrest s
    rw [List.length_map] at harray hdeliver
    refine ⟨r, ?_, hdeliver⟩
    rw [ask, harray]
  · cases hnone

end ReadingsHeader

def SeriesRows (payload : Bytes) (rows : List Bytes) : Prop :=
  ∃ w ps, (Item.map w ps).Legal maxDepth ∧ (Item.map w ps).spelling = payload ∧
    match valueAt ps 5 with
    | none => rows = []
    | some i => ∃ items, i.items? = some items ∧ rows = items.map Item.spelling

theorem rowsOf_samples (readings : List Reading) :
    rowsOf false readings = (readings.filterMap Reading.sample?).map Sample.asItem := by
  induction readings with
  | nil => rfl
  | cons r readings ih =>
    cases r with
    | sample s => exact congrArg (s.asItem :: ·) ih
    | series s => exact ih

theorem rowsOf_series (readings : List Reading) :
    rowsOf true readings = (readings.filterMap Reading.series?).map fun s => bodyItem s.items := by
  induction readings with
  | nil => rfl
  | cons r readings ih =>
    cases r with
    | sample s => exact ih
    | series s => exact congrArg (bodyItem s.items :: ·) ih

namespace ReadingsBody

open ReadingsHeader

variable {body : ReadingsBody} {readings : List Reading}

def rowsKey (series : Bool) : ReadingsKey := if series then .series else .samples

theorem items_rows (series : Bool) (i : Item) : (∃ e ∈ body.items readings, e.1 = rowsKey series ∧ e.2 = i) ↔
    ∃ rows, filled (rowsOf series readings) = some rows ∧ .ofItems rows = i := by
  unfold items tailItems
  simp only [List.mem_cons, List.mem_append, entry_mem, List.not_mem_nil, or_false]
  constructor
  · rintro ⟨e, he, hk, rfl⟩
    cases series with
    | false =>
      rcases he with rfl | rfl | ⟨_, _, rfl⟩ | ⟨rows, hrows, rfl⟩ | ⟨_, _, rfl⟩ | rfl | rfl | rfl <;>
        first | exact ⟨rows, hrows, rfl⟩ | cases hk
    | true =>
      rcases he with rfl | rfl | ⟨_, _, rfl⟩ | ⟨_, _, rfl⟩ | ⟨rows, hrows, rfl⟩ | rfl | rfl | rfl <;>
        first | exact ⟨rows, hrows, rfl⟩ | cases hk
  · rintro ⟨rows, hrows, rfl⟩
    cases series with
    | false => exact ⟨_, .inr (.inr (.inr (.inl ⟨rows, hrows, rfl⟩))), rfl, rfl⟩
    | true => exact ⟨_, .inr (.inr (.inr (.inr (.inl ⟨rows, hrows, rfl⟩)))), rfl, rfl⟩

theorem items_legal (h : body.shown.Carries readings) : ∀ e ∈ body.items readings, e.2.Legal 7 := by
  have hseq := body.seq.toNat_lt
  have hrev := body.rev.toNat_lt
  have hnext := body.shown.next.toNat_lt
  have htotal := body.total.toNat_lt
  have houtcome := body.outcome.number.toNat_lt
  have harray : ∀ series rows, filled (rowsOf series readings) = some rows → (Item.ofItems rows).Legal 7 := by
    intro series rows hrows
    obtain rfl := filled_some hrows
    apply Item.ofItems_legal ((h.short series).trans (by decide))
    intro i hi
    obtain ⟨r, -, rfl⟩ := List.mem_map.mp hi
    exact r.item_legal
  unfold items tailItems
  simp only [List.forall_mem_append, List.forall_mem_cons]
  refine ⟨Item.ofNat_legal (by omega), Item.ofNat_legal (by omega), ?_, ?_, ?_, Item.ofNat_legal (by omega),
    Item.ofNat_legal (by omega), Item.ofNat_legal (by omega), by simp⟩
  · intro e he
    obtain ⟨time, -, rfl⟩ := entry_mem.mp he
    have htime := time.toNat_lt
    exact Item.ofNat_legal (by omega)
  · intro e he
    obtain ⟨rows, hrows, rfl⟩ := entry_mem.mp he
    exact harray false rows hrows
  · intro e he
    obtain ⟨rows, hrows, rfl⟩ := entry_mem.mp he
    exact harray true rows hrows

theorem item_legal (h : body.shown.Carries readings) : (bodyItem (body.items readings)).Legal maxDepth :=
  bodyItem_legal items_rising (items_legal h)

theorem rows_at (h : body.shown.Carries readings) (series : Bool) :
    valueAt (keyedPairs (body.items readings)) (BodyKey.number (rowsKey series)) =
      (filled (rowsOf series readings)).map .ofItems := by
  apply Option.ext
  intro i
  rw [keyedPairs_value (item_legal h).2.1, Option.map_eq_some_iff]
  have hkey : ∀ e : ReadingsKey × Item,
      (BodyKey.number e.1 : ℤ) = BodyKey.number (rowsKey series) ↔ e.1 = rowsKey series := by
    intro e
    constructor
    · exact Table.number_inj
    · intro he
      rw [he]
  simp only [hkey]
  exact items_rows series i

theorem series_rows (h : body.shown.Carries readings) : SeriesRows (bodyItem (body.items readings)).spelling
    ((readings.filterMap Reading.series?).map fun s => (bodyItem s.items).spelling) := by
  have hvalue : valueAt (keyedPairs (body.items readings)) 5 = (filled (rowsOf true readings)).map .ofItems :=
    rows_at h true
  refine ⟨_, keyedPairs (body.items readings), item_legal h, rfl, ?_⟩
  rw [hvalue, rowsOf_series]
  cases readings.filterMap Reading.series? with
  | nil => rfl
  | cons s rest =>
    refine ⟨_, rfl, ?_⟩
    rw [List.map_map]
    rfl

theorem samples_bytes (h : body.shown.Carries readings) : decodeBody samplesTable.slots
    (bodyItem (body.items readings)).spelling = .ok fun _ => (filled (rowsOf false readings)).map fun rows =>
      (Item.ofItems rows).spelling := by
  apply (samples_decode.map (item_legal h)).mpr
  refine ⟨keyedPairs_keyed _, ?_⟩
  rintro ⟨⟩
  have hvalue : valueAt (keyedPairs (body.items readings)) (BodyKey.number SamplesKey.samples) =
      (filled (rowsOf false readings)).map .ofItems := rows_at h false
  unfold Table.SlotOf
  rw [hvalue]
  cases filled (rowsOf false readings) with
  | none => rfl
  | some rows => exact ⟨rfl, rfl⟩

theorem samples_items (h : body.shown.Carries readings) {σ : Type} (each : σ → Sample → σ) (s : σ) :
    forEachSample (bodyItem (body.items readings)).spelling each s =
      (.ok (readings.filterMap Reading.sample?).length, (readings.filterMap Reading.sample?).foldl each s) := by
  have hbytes : decodeBody (do let n ← ask CborReader.map; pairLoop samplesStep n none)
      (bodyItem (body.items readings)).spelling =
        .ok ((filled (rowsOf false readings)).map fun rows => (Item.ofItems rows).spelling) :=
    (samples_records.body rfl _).trans (congrArg (Functor.map fun s => s .samples) (samples_bytes h))
  have hshort := h.short false
  rw [rowsOf_samples] at hbytes hshort
  rw [List.length_map] at hshort
  unfold forEachSample
  rw [hbytes]
  cases hsamples : readings.filterMap Reading.sample? with
  | nil => rfl
  | cons first rest =>
    rw [hsamples] at hshort
    obtain ⟨r, harray, hdeliver⟩ := deliver_array each hshort s
    have hfilled : filled ((first :: rest).map Sample.asItem) = some ((first :: rest).map Sample.asItem) := rfl
    rw [hfilled, Option.map_some]
    dsimp only
    rw [harray]
    dsimp only
    rw [hdeliver]
    rfl

end ReadingsBody

end Km43.Readings
