import Km43.Readings.Received

namespace Km43.Readings

open Library Cbor CborReader

structure Stamp where
  seq : UInt64
  rev : UInt32
  time : Option UInt64
  total : UInt16

structure Selection where
  readings : List Reading
  stamp : ℕ → Stamp

structure Exchange where
  page : ReadingsPage
  payload : Bytes
  header : ReadingsHeader
  samples : List Sample
  rows : ℕ

namespace Selection

def page (s : Selection) (start : ℕ) : Except ReadingsError ReadingsPage :=
  fillPage Reading.push .new (fromPosition ReadingsPage.place start s.readings)

def body (s : Selection) (start : ℕ) (page : ReadingsPage) : ReadingsBody :=
  let stamp := s.stamp start
  ⟨stamp.seq, stamp.rev, stamp.time, .ok, stamp.total, some page⟩

def exchange (s : Selection) (start : ℕ) : Except ReadingsError Exchange := do
  let page ← s.page start
  let payload ← (s.body start page).encode innerBodyBytes
  let header ← ReadingsHeader.decode payload
  let walked := ReadingsHeader.forEachSample payload (fun taken sample => taken ++ [sample]) []
  let rows ← walked.1
  .ok ⟨page, payload, header, walked.2, rows⟩

def walk (s : Selection) (start : ℕ) : Except ReadingsError (List Exchange) :=
  serve s.exchange (fun e => e.header.next.toNat) (s.readings.length + 1) start

end Selection

def ShowsSeries (row : Bytes) (s : Series) : Prop :=
  Series.check row = .ok (s.sig.raw, s.q.length) ∧ Series.Describes row s.contents

/-- An exchange that handed over just these readings, as many of each kind as its header says. -/
structure Exchange.Delivers (e : Exchange) (readings : List Reading) : Prop where
  carries : e.page.Carries readings
  fits : e.payload.length ≤ innerBodyBytes
  samples : e.samples = readings.filterMap Reading.sample?
  counted : e.rows = e.samples.length ∧ e.header.samples = e.samples.length
  series : ∃ rows, SeriesRows e.payload rows ∧ e.header.series = rows.length ∧
    List.Forall₂ ShowsSeries rows (readings.filterMap Reading.series?)

namespace Selection

variable {s : Selection}

theorem series_shown (readings : List Series) :
    List.Forall₂ ShowsSeries (readings.map fun s => (bodyItem s.items).spelling) readings := by
  rw [List.forall₂_map_left_iff, List.forall₂_same]
  intro s _
  exact ⟨s.check_item, s.items_describe⟩

theorem foldl_collect {α : Type} (xs done : List α) : xs.foldl (fun done x => done ++ [x]) done = done ++ xs := by
  induction xs generalizing done with
  | nil => rw [List.foldl_nil, List.append_nil]
  | cons x xs ih => rw [List.foldl_cons, ih, List.append_assoc, List.singleton_append]

theorem exchange_spec (s : Selection) (start : ℕ) : ∃ e taken left, s.exchange start = .ok e ∧
    fromPosition ReadingsPage.place start s.readings = taken ++ left ∧ e.Delivers taken ∧
    e.header.next.toNat = resumesAt ReadingsPage.place left ∧ (left ≠ [] → taken ≠ []) := by
  have hfits : ∀ r ∈ fromPosition ReadingsPage.place start s.readings, True := fun _ _ => trivial
  obtain ⟨page, taken, left, hpage, hsplit, hcarries, hnext, hmoves⟩ := ReadingsPage.pages.fills_new hfits
  have hshown : (s.body start page).shown.Carries taken := hcarries
  have hwritten : (s.body start page).Written := fun hnot => absurd rfl hnot
  have hspelling := ReadingsBody.items_spelling hshown
  have hencode := (ReadingsBody.encode_ok hwritten hshown).mpr ⟨rfl, hspelling⟩
  have hdecode := ReadingsBody.decode_items hwritten hshown
  have hwalked := ReadingsBody.samples_items hshown (fun samples sample => samples ++ [sample]) []
  rw [foldl_collect, List.nil_append] at hwalked
  refine ⟨⟨page, (bodyItem ((s.body start page).items taken)).spelling, (s.body start page).header,
    taken.filterMap Reading.sample?, (taken.filterMap Reading.sample?).length⟩, taken, left, ?_, hsplit,
    ⟨hcarries, hspelling, rfl, ⟨rfl, ?_⟩, _, ReadingsBody.series_rows hshown, ?_, series_shown _⟩, hnext, hmoves⟩
  · refine bind_ok.mpr ⟨page, hpage, bind_ok.mpr ⟨_, hencode, bind_ok.mpr ⟨_, hdecode, ?_⟩⟩⟩
    rw [hwalked]
    rfl
  · have hrows := hcarries.rows false
    rw [rowsOf_samples, List.length_map] at hrows
    exact hrows
  · have hrows := hcarries.rows true
    rw [rowsOf_series, List.length_map] at hrows
    rw [List.length_map]
    exact hrows

/-- A walk hands over each reading once, the samples and the series each in their order, and every row and body fits
the buffer it is written to. -/
theorem readings_delivered (s : Selection) (hrise : s.readings.Pairwise fun a b => a.sig.raw < b.sig.raw) :
    (∀ sample : Sample, ∃ row, encodeBody sample.encode sampleMaxBytes = .ok row ∧ row.length ≤ sampleMaxBytes) ∧
    (∀ series : Series, ∃ row, encodeBody (series.encode maxSeriesLen) seriesMaxBytes = .ok row ∧
      row.length ≤ seriesMaxBytes) ∧
    (∀ page (r : Reading), ∃ took, (r.push page).1 = .ok took) ∧
    fromPosition ReadingsPage.place 0 s.readings = s.readings ∧
    ∀ start, ∃ exchanges parts, s.walk start = .ok exchanges ∧ List.Forall₂ Exchange.Delivers exchanges parts ∧
      parts.flatten = fromPosition ReadingsPage.place start s.readings ∧
      EndsOnce (fun e => e.header.next.toNat) exchanges := by
  have hrise : s.readings.Pairwise fun a b => ReadingsPage.place a < ReadingsPage.place b :=
    hrise.imp fun h => UInt16.lt_iff_toNat_lt.mp h
  refine ⟨?_, ?_, ?_, fromPosition_zero, ?_⟩
  · intro sample
    exact ⟨_, ReadingsPage.sample_encodes sample, sample.item_length⟩
  · intro series
    exact ⟨_, ReadingsPage.series_encodes series, series.item_length⟩
  · intro page r
    by_cases hfull : page.Full r
    · exact ⟨false, by rw [ReadingsPage.push_full hfull]⟩
    · exact ⟨true, by rw [ReadingsPage.push_took hfull]⟩
  · intro start
    have hfuel : (fromPosition ReadingsPage.place start s.readings).length < s.readings.length + 1 :=
      Nat.lt_succ_of_le (List.length_filter_le _ _)
    exact serve_delivers hrise s.exchange_spec _ start hfuel

theorem measured_agrees : ∃ v p, pack .ok .measured = pack v p ∧ (hasValue v = true ↔ p ≠ .none) :=
  ⟨.ok, .measured, rfl, by decide⟩

def measured : SignalQuality := ⟨pack .ok .measured, measured_agrees⟩

theorem air_nonzero (n : Fin 45) : UInt16.ofNat (n + 1) ≠ 0 := by decide +revert

theorem cells_nonzero : (46 : UInt16) ≠ 0 := by decide

theorem measured_carries : (some (215 : Int32)).isSome = measured.carriesValue := by decide

theorem measured_fresh : (none : Option UInt32).isSome = measured.isStale := by decide

theorem pair_long : 2 ≤ [measured, measured].length := le_refl 2

theorem pair_short : [measured, measured].length ≤ maxSeriesLen := by decide

theorem pair_counted : [(3301 : Int32), 3302].length = carrying [measured, measured] := by decide

theorem pair_fresh : (none : Option UInt32).isSome = anyStale [measured, measured] := by decide

def airSample (n : Fin 45) : Sample :=
  ⟨⟨UInt16.ofNat (n + 1), air_nonzero n⟩, some 215, measured, none, measured_carries, measured_fresh⟩

def cellSeries : Series :=
  ⟨⟨46, cells_nonzero⟩, [measured, measured], [3301, 3302], none, pair_long, pair_short, pair_counted, pair_fresh⟩

def roomsAndCells : Selection :=
  ⟨(List.ofFn fun n => .sample (airSample n)) ++ [.series cellSeries], fun _ => ⟨7, 3, none, 2⟩⟩

theorem roomsAndCells_paged : (roomsAndCells.readings.Pairwise fun a b => a.sig.raw < b.sig.raw) ∧
    (roomsAndCells.page 0).map ReadingsPage.next = .ok 41 := by
  decide +kernel

theorem readings_delivered_rooms : (roomsAndCells.page 0).map ReadingsPage.next = .ok 41 ∧ ∃ exchanges parts,
    roomsAndCells.walk 0 = .ok exchanges ∧ List.Forall₂ Exchange.Delivers exchanges parts ∧
    parts.flatten = roomsAndCells.readings := by
  obtain ⟨hrise, hnext⟩ := roomsAndCells_paged
  obtain ⟨-, -, -, hall, hwalk⟩ := readings_delivered roomsAndCells hrise
  obtain ⟨exchanges, parts, hok, hdelivers, hflat, -⟩ := hwalk 0
  rw [hall] at hflat
  exact ⟨hnext, exchanges, parts, hok, hdelivers, hflat⟩

end Selection

end Km43.Readings
