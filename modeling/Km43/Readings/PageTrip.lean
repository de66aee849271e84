import Km43.Library.Serving
import Km43.Readings.Page
import Km43.Cbor.Carried

namespace Km43.Readings

open Library Cbor CborReader CborWriter

inductive Reading
  | sample (s : Sample)
  | series (s : Series)

namespace Reading

def sig : Reading → Id
  | sample s => s.sig
  | series s => s.sig

def isSeries : Reading → Bool
  | sample _ => false
  | series _ => true

def item : Reading → Item
  | sample s => s.asItem
  | series s => bodyItem s.items

def slot (r : Reading) : Slot := ⟨r.item.spelling.length, r.isSeries⟩

def push (page : ReadingsPage) : Reading → Except ReadingsError Bool × ReadingsPage
  | sample s => page.pushSample s
  | series s => page.pushSeries s

def sample? : Reading → Option Sample
  | sample s => some s
  | series _ => none

def series? : Reading → Option Series
  | sample _ => none
  | series s => some s

theorem item_legal (r : Reading) : r.item.Legal 6 := by
  cases r with
  | sample s => exact s.item_legal
  | series s => exact bodyItem_legal s.items_rising s.items_legal

theorem item_length (r : Reading) : r.item.spelling.length ≤ seriesMaxBytes := by
  cases r with
  | sample s => exact s.item_length.trans (by decide)
  | series s => exact s.item_length

end Reading

def rowsOf (series : Bool) (readings : List Reading) : List Item :=
  (readings.filter fun r => r.isSeries = series).map Reading.item

namespace ReadingsPage

def rows (page : ReadingsPage) (series : Bool) : ℕ := if series then page.series else page.samples

def most (series : Bool) : ℕ := if series then maxSeries else maxSamples

def added (page : ReadingsPage) (r : Reading) : ReadingsPage where
  scratch := page.scratch ++ r.item.spelling
  slots := page.slots ++ [r.slot]
  samples := if r.isSeries then page.samples else page.samples + 1
  series := if r.isSeries then page.series + 1 else page.series
  next := page.next

def Full (page : ReadingsPage) (r : Reading) : Prop :=
  most r.isSeries ≤ page.rows r.isSeries ∨ maxReadingsBytes < page.scratch.length + r.item.spelling.length ∨
    maxReadingsRows ≤ page.samples + page.series

structure Carries (page : ReadingsPage) (readings : List Reading) : Prop where
  scratch : page.scratch = Item.spellAll (readings.map Reading.item)
  slots : page.slots = readings.map Reading.slot
  rows : ∀ series, page.rows series = (rowsOf series readings).length
  few : ∀ series, page.rows series ≤ most series
  within : page.scratch.length ≤ maxReadingsBytes

variable {page : ReadingsPage} {readings : List Reading}

theorem keep_some {row : Bytes} {series : Bool}
    (hroom : page.scratch.length + row.length ≤ maxReadingsBytes ∧ page.samples + page.series < maxReadingsRows) :
    page.keep row series =
      some { page with scratch := page.scratch ++ row, slots := page.slots ++ [⟨row.length, series⟩] } := by
  apply if_neg
  omega

theorem keep_none {row : Bytes} {series : Bool}
    (hfull : maxReadingsBytes < page.scratch.length + row.length ∨ maxReadingsRows ≤ page.samples + page.series) :
    page.keep row series = none := by
  apply if_pos
  omega

theorem pushRow_full {rows most width : ℕ} {write : Encoder ReadingsError Unit} {series : Bool} {sig : Id}
    {counted : ReadingsPage → ReadingsPage} {one : Bytes} (hone : encodeBody write width = .ok one)
    (hfull : most ≤ rows ∨ page.keep one series = none) :
    page.pushRow rows most width write series sig counted = (.ok false, { page with next := sig.raw }) := by
  unfold pushRow
  by_cases hrows : rows ≥ most
  · exact if_pos hrows
  · rw [if_neg hrows, hone]
    simp only [hfull.resolve_left hrows]

theorem pushRow_took {rows most width : ℕ} {write : Encoder ReadingsError Unit} {series : Bool} {sig : Id}
    {counted : ReadingsPage → ReadingsPage} {one : Bytes} {kept : ReadingsPage} (hone : encodeBody write width = .ok one)
    (hrows : rows < most) (hkeep : page.keep one series = some kept) :
    page.pushRow rows most width write series sig counted = (.ok true, counted kept) := by
  unfold pushRow
  rw [if_neg (Nat.not_le.mpr hrows), hone]
  simp only [hkeep]

theorem sample_encodes (s : Sample) : encodeBody s.encode sampleMaxBytes = .ok s.asItem.spelling :=
  s.encode_ok.mpr ⟨rfl, s.item_length⟩

theorem series_encodes (s : Series) : encodeBody (s.encode maxSeriesLen) seriesMaxBytes = .ok (bodyItem s.items).spelling :=
  s.encode_ok.mpr ⟨s.short, rfl, s.item_length⟩

theorem push_full {r : Reading} (h : page.Full r) : r.push page = (.ok false, { page with next := r.sig.raw }) := by
  cases r with
  | sample s =>
    apply pushRow_full (sample_encodes s)
    rcases h with hrows | hroom
    · exact .inl hrows
    · exact .inr (keep_none hroom)
  | series s =>
    apply pushRow_full (series_encodes s)
    rcases h with hrows | hroom
    · exact .inl hrows
    · exact .inr (keep_none hroom)

theorem push_took {r : Reading} (h : ¬page.Full r) : r.push page = (.ok true, page.added r) := by
  obtain ⟨hrows, hbytes, hall⟩ : page.rows r.isSeries < most r.isSeries ∧
      page.scratch.length + r.item.spelling.length ≤ maxReadingsBytes ∧
      page.samples + page.series < maxReadingsRows := by
    unfold Full at h
    omega
  cases r with
  | sample s => exact pushRow_took (sample_encodes s) hrows (keep_some ⟨hbytes, hall⟩)
  | series s => exact pushRow_took (series_encodes s) hrows (keep_some ⟨hbytes, hall⟩)

theorem rowsOf_append (series : Bool) (xs ys : List Reading) :
    rowsOf series (xs ++ ys) = rowsOf series xs ++ rowsOf series ys := by
  rw [rowsOf, List.filter_append, List.map_append, rowsOf, rowsOf]

theorem new_carries : Carries new [] := by
  refine ⟨rfl, rfl, ?_, ?_, ?_⟩
  · intro series
    cases series <;> rfl
  · intro series
    cases series <;> decide
  · decide

theorem added_carries {r : Reading} (h : page.Carries readings) (hroom : ¬page.Full r) :
    (page.added r).Carries (readings ++ [r]) := by
  have hfew : page.rows r.isSeries < most r.isSeries ∧
      page.scratch.length + r.item.spelling.length ≤ maxReadingsBytes := by
    unfold Full at hroom
    omega
  have hrows : ∀ series, (page.added r).rows series = page.rows series + if r.isSeries = series then 1 else 0 := by
    intro series
    unfold rows added
    cases series <;> cases r <;> rfl
  constructor
  · rw [List.map_append, Item.spellAll_eq, List.flatMap_append, ← Item.spellAll_eq, ← h.scratch]
    simp [added]
  · rw [List.map_append, ← h.slots]
    rfl
  · intro series
    rw [hrows, h.rows, rowsOf_append, List.length_append]
    congr 1
    unfold rowsOf
    by_cases hkind : r.isSeries = series <;> simp [hkind]
  · intro series
    rw [hrows]
    by_cases hkind : r.isSeries = series
    · subst hkind
      rw [if_pos rfl]
      exact hfew.1
    · rw [if_neg hkind]
      exact h.few series
  · rw [added, List.length_append]
    exact hfew.2

theorem named_carries (h : page.Carries readings) (next : UInt16) : Carries { page with next := next } readings :=
  ⟨h.scratch, h.slots, h.rows, h.few, h.within⟩

theorem new_room (r : Reading) : ¬new.Full r := by
  have hlen := r.item_length
  unfold Full
  rintro (hrows | hbytes | hall)
  · have hnone : ∀ series, new.rows series < most series := by
      intro series
      cases series <;> decide
    exact absurd hrows (Nat.not_le.mpr (hnone _))
  · unfold seriesMaxBytes at hlen
    have hempty : new.scratch.length = 0 := rfl
    unfold maxReadingsBytes at hbytes
    omega
  · revert hall
    decide

def place (r : Reading) : ℕ := r.sig.raw.toNat

theorem pages : Pages Reading.push new (fun page => page.next.toNat) place (fun _ => True) Carries := by
  constructor
  · exact new_carries
  · rfl
  · intro r _
    rw [push_took (new_room r)]
  · intro page held r _ _
    by_cases hfull : page.Full r
    · exact ⟨false, by rw [push_full hfull]⟩
    · exact ⟨true, by rw [push_took hfull]⟩
  · intro page held r hheld _ htook
    have hroom : ¬page.Full r := by
      intro hfull
      rw [push_full hfull] at htook
      cases htook
    rw [push_took hroom]
    exact ⟨added_carries hheld hroom, rfl⟩
  · intro page held r hheld hleft
    have hfull : page.Full r := by
      by_contra hroom
      rw [push_took hroom] at hleft
      cases hleft
    rw [push_full hfull]
    exact ⟨named_carries hheld _, rfl⟩

end ReadingsPage

def filled (rows : List Item) : Option (List Item) := if rows = [] then none else some rows

def arrayCalls (rows : List Item) : List Call := .array (UInt64.ofNat rows.length) :: rows.map fun i => .raw i.spelling

theorem filled_some {rows some' : List Item} (h : filled rows = some some') : some' = rows := by
  unfold filled at h
  split_ifs at h
  exact (Option.some.inj h).symm

namespace ReadingsPage

variable {page : ReadingsPage} {readings : List Reading}

theorem copyRow_tells {i : Item} (hi : i.Legal maxDepth) : Tells (copyRow i.spelling) [.raw i.spelling] := by
  have htop := new_atTop i.spelling 0
  obtain ⟨r, hraw, -⟩ := raw_takes htop.1 htop.2.1 hi (List.append_nil _).symm
  have hask : (ask raw : Read ReadingsError Bytes) (.new i.spelling) = .ok (i.spelling, r) := by
    rw [ask, hraw]
  exact .check hask (.call (.raw i.spelling))

theorem copyRows_tells (series : Bool) (readings : List Reading) :
    Tells (copyRows series (readings.map Reading.slot) (Item.spellAll (readings.map Reading.item)))
      ((rowsOf series readings).map fun i => .raw i.spelling) := by
  induction readings with
  | nil => exact .none
  | cons r readings ih =>
    have hone : Tells (onlyIf (r.isSeries = series) (copyRow r.item.spelling))
        ((rowsOf series [r]).map fun i => .raw i.spelling) := by
      unfold rowsOf onlyIf
      by_cases hkind : r.isSeries = series
      · simpa [hkind] using copyRow_tells (r.item_legal.mono (by decide))
      · simpa [hkind] using Tells.none
    have hsplit : rowsOf series (r :: readings) = rowsOf series [r] ++ rowsOf series readings := rowsOf_append series [r] readings
    have hroom : ¬(r.item.spelling ++ Item.spellAll (readings.map Reading.item)).length < r.slot.len := by
      rw [List.length_append]
      exact Nat.not_lt.mpr (Nat.le_add_right _ _)
    rw [hsplit, List.map_append, List.map_cons, List.map_cons, Item.spellAll, copyRows, if_neg hroom]
    have htake : (r.item.spelling ++ Item.spellAll (readings.map Reading.item)).take r.slot.len = r.item.spelling :=
      List.take_left
    have hdrop : (r.item.spelling ++ Item.spellAll (readings.map Reading.item)).drop r.slot.len =
        Item.spellAll (readings.map Reading.item) := List.drop_left
    rw [htake, hdrop]
    exact hone.append ih

theorem Carries.short (h : page.Carries readings) (series : Bool) : (rowsOf series readings).length < 256 := by
  have hmost : most series < 256 := by cases series <;> decide
  rw [← h.rows series]
  exact (h.few series).trans_lt hmost

theorem encodeArray_tells (h : page.Carries readings) (series : Bool) :
    Tells (page.encodeArray series) (arrayCalls (rowsOf series readings)) := by
  have hshort := h.short series
  have hcount : Tells (tell (CborWriter.array (page.rows series)) : Encoder ReadingsError Unit)
      [.array (UInt64.ofNat (rowsOf series readings).length)] := by
    have hcall := Tells.call (ε := ReadingsError) (.array (UInt64.ofNat (rowsOf series readings).length))
    rw [h.rows series]
    rwa [Call.write, UInt64.toNat_ofNat_of_lt' (hshort.trans (by decide))] at hcall
  have hcopy := copyRows_tells series readings
  rw [← h.slots, ← h.scratch] at hcopy
  exact hcount.append hcopy

theorem Carries.onlyIf_filled (h : page.Carries readings) (series : Bool) (m : Encoder ReadingsError Unit) :
    onlyIf (page.rows series > 0) m = whenSome (filled (rowsOf series readings)) fun _ => m := by
  rw [onlyIf, h.rows series]
  cases hrows : rowsOf series readings with
  | nil => rfl
  | cons i rest => rfl

theorem Carries.array_tells (h : page.Carries readings) (series : Bool) (k : ReadingsKey) :
    Tells (onlyIf (page.rows series > 0) do
      tell (CborWriter.key (BodyKey.number k))
      page.encodeArray series) (entryCalls (entryOf k (filled (rowsOf series readings)) arrayCalls)) := by
  rw [h.onlyIf_filled]
  apply Tells.maybe
  intro rows hrows
  obtain rfl := filled_some hrows
  exact encodeArray_tells h series

end ReadingsPage

namespace ReadingsBody

variable {body : ReadingsBody} {readings : List Reading}

def tail (body : ReadingsBody) : List (ReadingsKey × List Call) :=
  [(.next, [.u64 body.shown.next.toUInt64]), (.total, [.u64 body.total.toUInt64]),
    (.outcome, [.u64 body.outcome.number.toUInt64])]

def tailItems (body : ReadingsBody) : List (ReadingsKey × Item) :=
  [(.next, .ofNat body.shown.next.toNat), (.total, .ofNat body.total.toNat), (.outcome, .ofNat body.outcome.number.toNat)]

def entries (body : ReadingsBody) (readings : List Reading) : List (ReadingsKey × List Call) :=
  (.seq, [.u64 body.seq]) :: (.rev, [.u64 body.rev.toUInt64]) :: (entryOf .time body.time (fun time => [.u64 time]) ++
    (entryOf .samples (filled (rowsOf false readings)) arrayCalls ++
      (entryOf .series (filled (rowsOf true readings)) arrayCalls ++ body.tail)))

def items (body : ReadingsBody) (readings : List Reading) : List (ReadingsKey × Item) :=
  (.seq, .ofNat body.seq.toNat) :: (.rev, .ofNat body.rev.toNat) :: (entryOf .time body.time (fun time => .ofNat time.toNat) ++
    (entryOf .samples (filled (rowsOf false readings)) .ofItems ++
      (entryOf .series (filled (rowsOf true readings)) .ofItems ++ body.tailItems)))

theorem items_rising : Rising (body.items readings) := by
  unfold items tailItems
  cases body.time <;> cases filled (rowsOf false readings) <;> cases filled (rowsOf true readings) <;>
    simp [Rising, BodyKey.number, ReadingsKey.number]

theorem rows_writes (series : Bool) (hshort : (rowsOf series readings).length < 256) {rows : List Item}
    (h : filled (rowsOf series readings) = some rows) : Writes 7 (writeAll (arrayCalls rows)) (.ofItems rows) := by
  obtain rfl := filled_some h
  apply writes_spliced
  · exact UInt64.toNat_ofNat_of_lt' (hshort.trans (by decide))
  · intro i hi
    obtain ⟨r, -, rfl⟩ := List.mem_map.mp hi
    exact r.item_legal

theorem spelled (hshort : ∀ series, (rowsOf series readings).length < 256) :
    Spelled 7 (body.entries readings) (body.items readings) := by
  have htail : Spelled 7 body.tail body.tailItems :=
    .cons ⟨rfl, writes_one rfl⟩ <| .cons ⟨rfl, writes_one rfl⟩ <| .cons ⟨rfl, writes_one rfl⟩ .nil
  have htime : Spelled 7 (entryOf ReadingsKey.time body.time fun time => [.u64 time])
      (entryOf .time body.time fun time => .ofNat time.toNat) := .maybe _ fun _ _ => writes_one rfl
  have hsamples : Spelled 7 (entryOf ReadingsKey.samples (filled (rowsOf false readings)) arrayCalls)
      (entryOf .samples (filled (rowsOf false readings)) .ofItems) := .maybe _ fun _ => rows_writes false (hshort false)
  have hseries : Spelled 7 (entryOf ReadingsKey.series (filled (rowsOf true readings)) arrayCalls)
      (entryOf .series (filled (rowsOf true readings)) .ofItems) := .maybe _ fun _ => rows_writes true (hshort true)
  have hrest := List.rel_append htime (List.rel_append hsamples (List.rel_append hseries htail))
  exact .cons ⟨rfl, writes_one rfl⟩ (.cons ⟨rfl, writes_one rfl⟩ hrest)

theorem items_length : (body.items readings).length = 5 + body.time.isSome.toNat +
    (filled (rowsOf false readings)).isSome.toNat + (filled (rowsOf true readings)).isSome.toNat := by
  unfold items tailItems
  simp only [List.length_cons, List.length_append, List.length_nil, entry_length]
  omega

theorem items_few : (body.items readings).length ≤ 8 := by
  have htime := Bool.toNat_le body.time.isSome
  have hsamples := Bool.toNat_le (filled (rowsOf false readings)).isSome
  have hseries := Bool.toNat_le (filled (rowsOf true readings)).isSome
  rw [items_length]
  omega

theorem items_pairs (h : body.shown.Carries readings) : (body.items readings).length = body.pairs := by
  have hkind : ∀ series, (if body.shown.rows series > 0 then 1 else 0) = (filled (rowsOf series readings)).isSome.toNat := by
    intro series
    rw [h.rows series]
    cases rowsOf series readings <;> rfl
  have htime : body.time.toList.length = body.time.isSome.toNat := by cases body.time <;> rfl
  rw [items_length, ← hkind false, ← hkind true, ← htime]
  rfl

theorem items_count (h : body.shown.Carries readings) : (body.items readings).length = (UInt64.ofNat body.pairs).toNat := by
  have hfew := @items_few body readings
  rw [items_pairs h] at hfew ⊢
  exact (UInt64.toNat_ofNat_of_lt' (hfew.trans_lt (by decide))).symm

theorem write_tells (h : body.shown.Carries readings) :
    Tells body.write (.map (UInt64.ofNat body.pairs) :: entryCalls (body.entries readings)) := by
  have hcount : Tells (tell (CborWriter.map body.pairs) : Encoder ReadingsError Unit) [.map (UInt64.ofNat body.pairs)] := by
    have hcall := Tells.call (ε := ReadingsError) (.map (UInt64.ofNat body.pairs))
    rwa [Call.write, ← items_count h, items_pairs h] at hcall
  have htime : Tells (keyed 3 body.time fun time => tell (CborWriter.u64 time.toNat))
      (entryCalls (entryOf ReadingsKey.time body.time fun time => [.u64 time])) :=
    .maybe ReadingsKey.time fun time _ => .call (.u64 time)
  have hsamples := h.array_tells false .samples
  have hseries := h.array_tells true .series
  have htail : Tells (do
      tell (CborWriter.key 6)
      tell (CborWriter.u64 body.shown.next.toNat)
      tell (CborWriter.key 7)
      tell (CborWriter.u64 body.total.toNat)
      tell (CborWriter.key 8)
      tell (CborWriter.u64 body.outcome.number.toNat) : Encoder ReadingsError Unit) (entryCalls body.tail) :=
    .cons (c := .key 6) <| .cons (c := .u64 body.shown.next.toUInt64) <| .cons (c := .key 7) <|
      .cons (c := .u64 body.total.toUInt64) <| .cons (c := .key 8) <| .call (.u64 body.outcome.number.toUInt64)
  have hcalls : entryCalls (body.entries readings) = .key 1 :: .u64 body.seq :: .key 2 :: .u64 body.rev.toUInt64 ::
      (entryCalls (entryOf ReadingsKey.time body.time fun time => [.u64 time]) ++
        (entryCalls (entryOf ReadingsKey.samples (filled (rowsOf false readings)) arrayCalls) ++
          (entryCalls (entryOf ReadingsKey.series (filled (rowsOf true readings)) arrayCalls) ++ entryCalls body.tail))) := by
    rw [entries, entryCalls, List.flatMap_cons, List.flatMap_cons, List.flatMap_append, List.flatMap_append,
      List.flatMap_append]
    rfl
  rw [hcalls]
  exact hcount.append <| .cons (c := .key 1) <| .cons (c := .u64 body.seq) <| .cons (c := .key 2) <|
    .cons (c := .u64 body.rev.toUInt64) <| htime.append <| hsamples.append <| hseries.append htail

def Written (body : ReadingsBody) : Prop := body.outcome ≠ .ok → ∀ page ∈ body.page, page.isEmpty = true

theorem encode_written (hwritten : body.Written) (dst : ℕ) : body.encode dst = encodeBody body.write dst := by
  obtain ⟨seq, rev, time, outcome, total, page⟩ := body
  apply if_neg
  rw [Bool.and_eq_true_iff]
  rintro ⟨hnot, hheld⟩
  have houtcome : outcome ≠ .ok := by simpa [answered] using hnot
  cases page with
  | none => cases hheld
  | some page =>
    have hempty := hwritten houtcome page rfl
    simp [hempty] at hheld

theorem encode_ok (hwritten : body.Written) (h : body.shown.Carries readings) {dst : ℕ} {out : Bytes} :
    body.encode dst = .ok out ↔ out = (bodyItem (body.items readings)).spelling ∧
      (bodyItem (body.items readings)).spelling.length ≤ dst := by
  rw [encode_written hwritten]
  exact encodeBody_item (write_tells h) (bodyItem_writes (spelled h.short) items_rising (items_count h))

theorem rows_entry (k : ReadingsKey) {rows : List Item} (hshort : rows.length < 256) :
    ((entryOf k (filled rows) Item.ofItems).map fun e => 1 + e.2.spelling.length).sum ≤ 3 + (Item.spellAll rows).length := by
  have harray := ofItems_length_u8 hshort
  cases hrows : filled rows with
  | none => exact Nat.zero_le _
  | some some' =>
    obtain rfl := filled_some hrows
    rw [entry_some, List.map_singleton, List.sum_singleton]
    change 1 + (Item.ofItems some').spelling.length ≤ _
    omega

theorem rows_spelling (readings : List Reading) : (Item.spellAll (rowsOf false readings)).length +
    (Item.spellAll (rowsOf true readings)).length = (Item.spellAll (readings.map Reading.item)).length := by
  induction readings with
  | nil => rfl
  | cons r readings ih =>
    have hfirst : ∀ series, (Item.spellAll (rowsOf series (r :: readings))).length =
        (if r.isSeries = series then r.item.spelling.length else 0) + (Item.spellAll (rowsOf series readings)).length := by
      intro series
      unfold rowsOf
      by_cases hkind : r.isSeries = series
      · simp [hkind, Item.spellAll]
      · simp [hkind]
    rw [hfirst, hfirst, List.map_cons, Item.spellAll, List.length_append]
    cases hkind : r.isSeries <;> simp <;> omega

theorem items_spelling (h : body.shown.Carries readings) :
    (bodyItem (body.items readings)).spelling.length ≤ innerBodyBytes := by
  have hseq := ofNat_length_u64 body.seq
  have hrev := ofNat_length_u32 body.rev
  have htime := entry_spelling ReadingsKey.time body.time ofNat_length_u64
  have hsamples := rows_entry .samples (h.short false)
  have hseries := rows_entry .series (h.short true)
  have hnext := ofNat_length_u16 body.shown.next
  have htotal := ofNat_length_u16 body.total
  have houtcome := ofNat_length_u8 body.outcome.number
  have hrows := rows_spelling readings
  have hwithin := h.within
  rw [h.scratch] at hwithin
  unfold maxReadingsBytes at hwithin
  unfold innerBodyBytes
  rw [bodyItem_length (items_few.trans_lt (by decide)) ReadingsKey.narrow]
  unfold items tailItems
  simp only [List.map_cons, List.map_append, List.map_nil, List.sum_cons, List.sum_append, List.sum_nil]
  omega

end ReadingsBody

end Km43.Readings
