import Km43.Cbor.Gauge
import Km43.Log.Live

namespace Km43.Log

open Library Cbor CborWriter

theorem Event.encodeInto_relays (e : Event) : Relays EventError.cbor e.encodeInto e.calls := by
  obtain ⟨seq, time, kind, body, shapely⟩ := e
  have hrest : Relays EventError.cbor (do
      tell (CborWriter.key EventKey.kind.number)
      tell (CborWriter.u64 kind.toNat)
      tell (CborWriter.key EventKey.body.number)
      tell (CborWriter.raw body) : Encoder EventError Unit)
      [.key 3, .u64 kind.toUInt64, .key 4, .raw body] :=
    .cons (c := .key 3) <| .cons (c := .u64 kind.toUInt64) <| .cons (c := .key 4) <| .call (.raw body)
  cases time with
  | none =>
    exact .cons (c := .map 3) <| .cons (c := .key 1) <| .cons (c := .u64 seq) <| Relays.none.append hrest
  | some time =>
    exact .cons (c := .map 4) <| .cons (c := .key 1) <| .cons (c := .u64 seq) <| .cons (c := .key 2) <|
      .cons (c := .u64 time) hrest

namespace LogEntry

theorem encode_relays (r : LogEntry) : Relays (fun why => .entry (.cbor why)) r.encode r.calls :=
  .check r.asEvent_eq (r.event.encodeInto_relays.refused ReadLogError.entry)

def Shallow (r : LogEntry) : Prop := ∃ i : Item, i.Legal 5 ∧ i.spelling = r.body

end LogEntry

namespace LogPage

variable {page : LogPage}

def header (page : LogPage) : List Call := [.map 4, .key 1, .array (UInt64.ofNat page.entries.items.length)]

def trailer (page : LogPage) : List Call :=
  [.key 2, .u64 page.nextSeq, .key 3, .u64 page.oldestSeq, .key 4, .bool page.complete]

def entryCalls (page : LogPage) : List Call := page.entries.items.flatMap LogEntry.calls

theorem calls_parts (page : LogPage) : page.calls = page.header ++ page.entryCalls ++ page.trailer := rfl

def size (page : LogPage) : ℕ := sizes page.calls

def frontSize (page : LogPage) : ℕ := sizes (page.header ++ page.entryCalls)

theorem size_eq (page : LogPage) : page.size = page.frontSize + sizes page.trailer := by
  rw [size, calls_parts, sizes_append, frontSize]

theorem encodeInto_eq (page : LogPage) (capped : Bool) : page.encodeInto capped = (do
    mapErr ReadLogError.cbor (writeAll page.header)
    mapErr (fun why => outgrown capped (.entry (.cbor why))) (writeAll page.entryCalls)
    mapErr ReadLogError.cbor (writeAll page.trailer)) := by
  have hcount : Relays ReadLogError.cbor (tell (CborWriter.array page.entries.items.length))
      [.array (UInt64.ofNat page.entries.items.length)] := by
    have h := Relays.call (ε := ReadLogError) (.array (UInt64.ofNat page.entries.items.length))
    rwa [Call.write, count_toNat] at h
  have hheader : Relays ReadLogError.cbor (do
      tell (CborWriter.map 4)
      tell (CborWriter.key PageKey.entries.number)
      tell (CborWriter.array page.entries.items.length)) page.header :=
    .cons (c := .map 4) <| .cons (c := .key 1) hcount
  have hentries : Relays _ _ page.entryCalls :=
    .forM (fun r : LogEntry => r.encode_relays.refused (outgrown capped)) page.entries.items
  have htrailer : Relays ReadLogError.cbor (do
      tell (CborWriter.key PageKey.nextSeq.number)
      tell (CborWriter.u64 page.nextSeq.toNat)
      tell (CborWriter.key PageKey.oldestSeq.number)
      tell (CborWriter.u64 page.oldestSeq.toNat)
      tell (CborWriter.key PageKey.complete.number)
      tell (CborWriter.bool page.complete) : Encoder ReadLogError Unit) page.trailer :=
    .cons (c := .key 2) <| .cons (c := .u64 page.nextSeq) <| .cons (c := .key 3) <|
      .cons (c := .u64 page.oldestSeq) <| .cons (c := .key 4) <| .call (.bool page.complete)
  rw [← hheader, ← hentries, ← htrailer]
  simp only [encodeInto, bind_assoc]

theorem header_ok (page : LogPage) :
    ∃ w last, writeAll page.header (.new maxLogPageBytes) = .ok ((), w) ∧
      w.stack = owing [⟨.array, page.entries.items.length, none, 0⟩, ⟨.map, 6, last, 0⟩] := by
  have hall : ∀ n : Fin 65, ((writeAll [.map 4, .key 1, .array (UInt64.ofNat n)] (.new maxLogPageBytes)).toOption.map
      fun p => p.2.nest.opened) = some [⟨.array, n, none, 0⟩, ⟨.map, 6, some (Key.ofNat 1).rank, 0⟩] := by
    decide +kernel
  have hrun : (writeAll page.header (.new maxLogPageBytes)).toOption.map (fun p => p.2.nest.opened) =
      some [⟨.array, page.entries.items.length, none, 0⟩, ⟨.map, 6, some (Key.ofNat 1).rank, 0⟩] :=
    hall ⟨page.entries.items.length, Nat.lt_succ_of_le page.entries.fits⟩
  cases h : writeAll page.header (.new maxLogPageBytes) with
  | error why =>
    rw [h] at hrun
    cases hrun
  | ok p =>
    rw [h] at hrun
    exact ⟨p.2, some (Key.ofNat 1).rank, rfl, congrArg owing (Option.some.inj hrun)⟩

theorem entries_shallow {entries : List LogEntry} {w w' : CborWriter} {last : Option KeyRank} {start : ℕ}
    {level : Open} (hok : writeAll (entries.flatMap LogEntry.calls) w = .ok ((), w'))
    (hstack : w.stack = owing [⟨.array, entries.length, last, start⟩, level]) : ∀ r ∈ entries, r.Shallow := by
  induction entries generalizing w with
  | nil => simp
  | cons r entries ih =>
    rw [List.flatMap_cons, writeAll_append] at hok
    obtain ⟨⟨⟩, w₁, h₁, hok⟩ := bind_run_ok.mp hok
    rw [owing_pos (by simp)] at hstack
    have hlevels : w.stack.length = 2 := by rw [hstack]; rfl
    obtain ⟨i, hi, hspell⟩ := r.event.body_legal (d := 5) (by rw [hlevels]; rfl) h₁
    have hready : w.Ready 6 := by
      refine ⟨?_, by rw [hlevels]; rfl, fun hnone => ?_⟩
      · have hopened : w.nest.settle.opened = _ := hstack
        simp [Nest.atKey, hopened]
      · rw [hnone] at hlevels
        cases hlevels
    have hwrote := (r.event.writes hi hspell).of_ok hready h₁
    rw [List.forall_mem_cons]
    refine ⟨⟨i, hi, hspell⟩, ih hok ?_⟩
    rw [hwrote.stack, stack_counted, hstack]
    rfl

theorem entries_write {entries : List LogEntry} (h : ∀ r ∈ entries, r.Shallow) :
    ∃ items, items.length = entries.length ∧ WritesItems 6 (writeAll (entries.flatMap LogEntry.calls)) items := by
  induction entries with
  | nil => exact ⟨[], rfl, .nil⟩
  | cons r entries ih =>
    obtain ⟨i, hi, hspell⟩ := h r (by simp)
    obtain ⟨items, hlen, hitems⟩ := ih fun s hs => h s (by simp [hs])
    refine ⟨r.event.item i :: items, by rw [List.length_cons, hlen, List.length_cons], ?_⟩
    rw [List.flatMap_cons, writeAll_append]
    exact .cons (r.event.writes hi hspell) hitems

theorem calls_write (h : ∀ r ∈ page.entries.items, r.Shallow) :
    ∃ i, Writes maxDepth (writeAll page.calls) i := by
  obtain ⟨items, hlen, hitems⟩ := entries_write h
  have hentries : WritesPairs 7
      (writeAll (.key 1 :: .array (UInt64.ofNat page.entries.items.length) :: page.entryCalls))
      [(Key.ofNat 1, .ofItems items)] :=
    .keyed (k := 1) (by decide) (writes_arrayCalls hitems (by rw [count_toNat, hlen]))
  have hnext : WritesPairs 7 (writeAll [.key 2, .u64 page.nextSeq]) [(Key.ofNat 2, .ofNat page.nextSeq.toNat)] :=
    .keyed (k := 2) (by decide) (writes_one (c := .u64 page.nextSeq) rfl)
  have holdest : WritesPairs 7 (writeAll [.key 3, .u64 page.oldestSeq]) [(Key.ofNat 3, .ofNat page.oldestSeq.toNat)] :=
    .keyed (k := 3) (by decide) (writes_one (c := .u64 page.oldestSeq) rfl)
  have hcomplete : WritesPairs 7 (writeAll [.key 4, .bool page.complete]) [(Key.ofNat 4, .bool page.complete)] :=
    .keyed (k := 4) (by decide) (writes_one (c := .bool page.complete) rfl)
  have hpage := writes_mapCalls (n := 4) (hentries.both (hnext.both (holdest.both hcomplete))) rfl (by
    simp [Ascends, Key.ofNat, Key.rank, KeyRank.le])
  have hcalls : page.calls = .map 4 ::
      ((.key 1 :: .array (UInt64.ofNat page.entries.items.length) :: page.entryCalls) ++
      ([.key 2, .u64 page.nextSeq] ++ ([.key 3, .u64 page.oldestSeq] ++ [.key 4, .bool page.complete]))) := by
    simp [calls, entryCalls]
  rw [hcalls]
  exact ⟨_, hpage⟩

theorem header_size (page : LogPage) : sizes page.header ≤ maxLogPageBytes := by
  have hwidth : ∀ w : Width, w.bytes ≤ 8 := by
    intro w
    cases w <;> decide
  have hcount := hwidth (Width.of (UInt64.ofNat page.entries.items.length).toNat)
  simp only [header, sizes, Call.size, List.map_cons, List.map_nil, List.sum_cons, List.sum_nil, maxLogPageBytes]
  have hmap := hwidth (Width.of (4 : UInt64).toNat)
  have hkey := hwidth (Width.of (1 : Int64).toInt.toNat)
  omega

/-- How a page whose records nest no deeper than it has levels for is written: the room is all that is asked. -/
structure Run (page : LogPage) (w₁ w₂ w₃ : CborWriter) : Prop where
  header : writeAll page.header (.new maxLogPageBytes) = .ok ((), w₁)
  entries : writeAll page.entryCalls w₁ =
    if page.frontSize ≤ maxLogPageBytes then .ok ((), w₂) else .error .destinationTooSmall
  trailer : page.frontSize ≤ maxLogPageBytes → writeAll page.trailer w₂ =
    if page.size ≤ maxLogPageBytes then .ok ((), w₃) else .error .destinationTooSmall
  finish : ∃ len w, CborWriter.finish w₃ = .ok (len, w)

theorem shallow_run (h : ∀ r ∈ page.entries.items, r.Shallow) : ∃ w₁ w₂ w₃, page.Run w₁ w₂ w₃ := by
  obtain ⟨i, hi⟩ := calls_write h
  obtain ⟨w₃, hw, -, w₄, hfinish⟩ := hi.run (show i.spelling.length ≤ i.spelling.length from le_rfl)
  have hsize := writeAll_size hw (Nat.zero_le _)
  rw [calls_parts, writeAll_append] at hw
  obtain ⟨⟨⟩, w₂, hfront, htrailer⟩ := bind_run_ok.mp hw
  have hfrontSize := writeAll_size hfront (Nat.zero_le _)
  rw [writeAll_append] at hfront
  obtain ⟨⟨⟩, w₁, hheader, hentries⟩ := bind_run_ok.mp hfront
  have hheaderSize := writeAll_size hheader (Nat.zero_le _)
  simp only [CborWriter.new, List.length_nil, Nat.zero_add] at hsize hfrontSize hheaderSize
  refine ⟨{ w₁ with capacity := maxLogPageBytes }, { w₂ with capacity := maxLogPageBytes },
    { w₃ with capacity := maxLogPageBytes }, ?_, ?_, fun hfits => ?_, ?_⟩
  · have hrun := ((writeAll_gauged page.header) _ _ _ hheader).2 maxLogPageBytes (Nat.zero_le _)
    rw [hheaderSize, if_pos page.header_size] at hrun
    exact hrun
  · have hrun := ((writeAll_gauged page.entryCalls) _ _ _ hentries).2 maxLogPageBytes (by
      rw [hheaderSize]
      exact page.header_size)
    rw [hfrontSize] at hrun
    exact hrun
  · have hrun := ((writeAll_gauged page.trailer) _ _ _ htrailer).2 maxLogPageBytes (by
      rw [hfrontSize]
      exact hfits)
    rw [hsize] at hrun
    exact hrun
  · simp only [CborWriter.finish] at hfinish ⊢
    split_ifs at hfinish ⊢
    exact ⟨_, _, rfl⟩

theorem encode_capped {dst : ℕ} (hd : maxLogPageBytes ≤ dst) : page.encode dst = (do
    let (_, cbor) ← page.encodeInto true (.new maxLogPageBytes)
    let (_, cbor) ← cbor.finish.mapError fun why => outgrown true (.cbor why)
    .ok cbor.out) := by
  have hcapped : decide (dst ≥ maxLogPageBytes) = true := decide_eq_true hd
  simp only [encode, hcapped, if_true]

theorem encode_shallow (h : ∀ r ∈ page.entries.items, r.Shallow) {dst : ℕ} (hd : maxLogPageBytes ≤ dst) :
    (maxLogPageBytes < page.frontSize → page.encode dst = .error (.pageTooLong maxLogPageBytes)) ∧
      (page.frontSize ≤ maxLogPageBytes → maxLogPageBytes < page.size →
        page.encode dst = .error (.cbor .destinationTooSmall)) ∧
      (page.size ≤ maxLogPageBytes → ∃ bytes, page.encode dst = .ok bytes) := by
  obtain ⟨w₁, w₂, w₃, hrun⟩ := shallow_run h
  have hinto : page.encodeInto true (.new maxLogPageBytes) = (do
      mapErr (fun why => outgrown true (.entry (.cbor why))) (writeAll page.entryCalls)
      mapErr ReadLogError.cbor (writeAll page.trailer)) w₁ := by
    rw [encodeInto_eq, bind_apply, mapErr, hrun.header]
    rfl
  rw [encode_capped hd, hinto, bind_apply, mapErr, hrun.entries]
  refine ⟨fun hlong => ?_, fun hfits hlong => ?_, fun hall => ?_⟩
  · rw [if_neg (Nat.not_le.mpr hlong)]
    rfl
  · rw [if_pos hfits]
    simp only [Except.mapError]
    rw [mapErr, hrun.trailer hfits, if_neg (Nat.not_le.mpr hlong)]
    rfl
  · have hfits : page.frontSize ≤ maxLogPageBytes := by
      have hsize := page.size_eq
      omega
    obtain ⟨len, w₄, hfinish⟩ := hrun.finish
    rw [if_pos hfits]
    simp only [Except.mapError]
    rw [mapErr, hrun.trailer hfits, if_pos hall]
    refine ⟨w₄.out, ?_⟩
    exact bind_ok.mpr ⟨((), w₃), rfl, bind_ok.mpr ⟨(len, w₄), mapError_ok.mpr hfinish, rfl⟩⟩

theorem encode_deep (h : ¬∀ r ∈ page.entries.items, r.Shallow) {dst : ℕ} (hd : maxLogPageBytes ≤ dst) :
    ∃ why, page.encode dst = .error why ∧ why ≠ .cbor .destinationTooSmall ∧
      why ≠ .entry (.cbor .destinationTooSmall) := by
  obtain ⟨w₁, last, hheader, hstack⟩ := page.header_ok
  cases hentries : writeAll page.entryCalls w₁ with
  | ok p =>
    exact absurd (entries_shallow hentries hstack) h
  | error why =>
    refine ⟨outgrown true (.entry (.cbor why)), ?_, ?_⟩
    · rw [encode_capped hd, encodeInto_eq, bind_apply, mapErr, hheader]
      simp only [Except.mapError]
      rw [bind_apply, mapErr, hentries]
      rfl
    · unfold outgrown
      by_cases hwhy : why = .destinationTooSmall
      · subst hwhy
        simp
      · simp [hwhy]

/-- What `encode` is to do with a destination of at least a page's length: no page is refused for the destination, and
one that takes no more than a page may is encoded. -/
structure AsDocumented (page : LogPage) (dst : ℕ) : Prop where
  refused : ∀ why, page.encode dst = .error why →
    why ≠ .cbor .destinationTooSmall ∧ why ≠ .entry (.cbor .destinationTooSmall)
  fits : page.size ≤ maxLogPageBytes → ∃ bytes, page.encode dst = .ok bytes

/-- A page within the cap needs shallow records; one past it, its records past it as well or one of them too deep. -/
def Judged (page : LogPage) : Prop :=
  if page.size ≤ maxLogPageBytes then ∀ r ∈ page.entries.items, r.Shallow
  else maxLogPageBytes < page.frontSize ∨ ∃ r ∈ page.entries.items, ¬r.Shallow

def lastBody : Bytes := [0xA1, 1, 0x59, 3, 0x70] ++ List.replicate 880 0

theorem shaped_last : shaped lastBody = .ok () := by decide +kernel

def lastEntry : LogEntry := ⟨1, none, 0x0501, lastBody, shaped_last⟩

theorem last_fits : [lastEntry].length ≤ maxLogPageEntries := by decide

def lastPage : LogPage := ⟨⟨[lastEntry], last_fits⟩, 2, 1, true⟩

theorem asDocumented_iff (page : LogPage) {dst : ℕ} (hd : maxLogPageBytes ≤ dst) :
    page.AsDocumented dst ↔ page.Judged := by
  have hsize := page.size_eq
  unfold Judged
  by_cases hdeep : ∀ r ∈ page.entries.items, r.Shallow
  · obtain ⟨hlong, htail, hfits⟩ := encode_shallow hdeep hd
    by_cases hall : page.size ≤ maxLogPageBytes
    · rw [if_pos hall]
      obtain ⟨bytes, hok⟩ := hfits hall
      refine ⟨fun _ => hdeep, fun _ => ⟨fun why hwhy => ?_, hfits⟩⟩
      rw [hok] at hwhy
      cases hwhy
    · rw [if_neg hall]
      constructor
      · intro henc
        by_contra hno
        have hfront : page.frontSize ≤ maxLogPageBytes := by
          by_contra hover
          exact hno (.inl (Nat.not_le.mp hover))
        exact (henc.refused _ (htail hfront (Nat.not_le.mp hall))).1 rfl
      · rintro (hfront | ⟨r, hr, hno⟩)
        · refine ⟨fun why hwhy => ?_, fun h => absurd h hall⟩
          rw [hlong hfront] at hwhy
          cases hwhy
          exact ⟨by simp, by simp⟩
        · exact absurd (hdeep r hr) hno
  · obtain ⟨why, hwhy, hne⟩ := encode_deep hdeep hd
    have hrefused : ∀ why, page.encode dst = .error why →
        why ≠ .cbor .destinationTooSmall ∧ why ≠ .entry (.cbor .destinationTooSmall) := by
      intro why' h
      rw [hwhy] at h
      cases h
      exact hne
    by_cases hall : page.size ≤ maxLogPageBytes
    · rw [if_pos hall]
      constructor
      · intro henc
        obtain ⟨bytes, hok⟩ := henc.fits hall
        rw [hwhy] at hok
        cases hok
      · exact fun h => absurd h hdeep
    · rw [if_neg hall]
      refine ⟨fun _ => .inr ?_, fun _ => ⟨hrefused, fun h => absurd h hall⟩⟩
      by_contra hno
      apply hdeep
      intro r hr
      by_contra hr'
      exact hno ⟨r, hr, hr'⟩

theorem asDocumented_iff_page : lastPage.AsDocumented maxLogPageBytes ↔ lastPage.Judged :=
  lastPage.asDocumented_iff le_rfl

/-- The record of this page fits it to the last byte, and the keys after the record do not. -/
theorem lastPage_refused :
    lastPage.Built ∧ lastPage.encode maxLogPageBytes = .error (.cbor .destinationTooSmall) ∧
      ¬lastPage.AsDocumented maxLogPageBytes := by
  have hrefused : lastPage.encode maxLogPageBytes = .error (.cbor .destinationTooSmall) := by decide +kernel
  have hbuilt : lastPage.Built := by
    have hpush : (LogPage.new 2 1 true).push lastEntry = .ok lastPage := rfl
    exact (Built.new 2 1 true).push hpush
  exact ⟨hbuilt, hrefused, fun h => (h.refused _ hrefused).1 rfl⟩

end LogPage

end Km43.Log
