import Km43.Cbor.Room
import Km43.Log.Event

namespace Km43.Log

open Library Cbor CborWriter CborReader

inductive ReadLogKey
  | fromSeq
  | maxEntries
  deriving DecidableEq

inductive PageKey
  | entries
  | nextSeq
  | oldestSeq
  | complete
  deriving DecidableEq

def PageKey.number : PageKey → ℤ
  | entries => 1
  | nextSeq => 2
  | oldestSeq => 3
  | complete => 4

def PageKey.of (number : ℤ) : Option PageKey :=
  if number = 1 then some entries
  else if number = 2 then some nextSeq
  else if number = 3 then some oldestSeq
  else if number = 4 then some complete
  else none

inductive ReadLogBodyKey
  | request (key : ReadLogKey)
  | page (key : PageKey)
  deriving DecidableEq

inductive ReadLogError
  | missing (key : ReadLogBodyKey)
  | duplicate (key : ReadLogBodyKey)
  | pageFull (cap : ℕ)
  | seqAtTheCeiling
  | pageTooLong (length : ℕ)
  | entry (why : EventError)
  | cbor (why : CborError)
  deriving DecidableEq

instance : FromCbor ReadLogError := ⟨.cbor⟩

structure LogEntry where
  seq : LogSeq
  time : Option UInt64
  kind : UInt16
  body : Bytes
  shapely : shaped body = .ok ()

namespace LogEntry

def fromEvent (e : Event) : LogEntry := ⟨e.seq, e.time, e.kind, e.body, e.shapely⟩

def new (seq : LogSeq) (time : Option UInt64) (kind : UInt16) (body : Bytes) : Except ReadLogError LogEntry :=
  ((Event.new seq time kind body).map fromEvent).mapError .entry

def asEvent (r : LogEntry) : Except ReadLogError Event :=
  (Event.new r.seq r.time r.kind r.body).mapError .entry

def encode (r : LogEntry) : Encoder ReadLogError Unit := do
  let event ← r.asEvent
  mapErr .entry event.encodeInto

def decode : Read ReadLogError LogEntry := mapErr .entry (fromEvent <$> Event.decodeFrom)

def event (r : LogEntry) : Event := ⟨r.seq, r.time, r.kind, r.body, r.shapely⟩

def calls (r : LogEntry) : List Call := r.event.calls

theorem asEvent_eq (r : LogEntry) : r.asEvent = .ok r.event := by
  have hnew : Event.new r.seq r.time r.kind r.body = .ok r.event := Event.new_ok.mpr ⟨rfl, rfl, rfl, rfl⟩
  rw [asEvent, hnew]
  rfl

theorem encode_tells (r : LogEntry) : Tells r.encode r.calls :=
  .check r.asEvent_eq r.event.encodeInto_tells.refused

theorem decode_takes (r : LogEntry) : Takes decode r.calls r :=
  (r.event.decodeFrom_takes.mapped (f := fromEvent)).refused

end LogEntry

structure Entries where
  items : List LogEntry
  fits : items.length ≤ maxLogPageEntries

theorem Entries.ext {a b : Entries} (h : a.items = b.items) : a = b := by
  cases a
  cases b
  cases h
  rfl

structure LogPage where
  entries : Entries
  nextSeq : LogSeq
  oldestSeq : LogSeq
  complete : Bool

namespace LogPage

def new (resumeAt oldestSeq : LogSeq) (complete : Bool) : LogPage :=
  ⟨⟨[], Nat.zero_le _⟩, resumeAt, oldestSeq, complete⟩

def push (page : LogPage) (entry : LogEntry) : Except ReadLogError LogPage :=
  match entry.seq.next with
  | none => .error .seqAtTheCeiling
  | some past =>
    if h : page.entries.items.length < maxLogPageEntries then
      .ok { page with
        entries := ⟨page.entries.items ++ [entry], List.length_append.trans_le h⟩
        nextSeq := if page.nextSeq < past then past else page.nextSeq }
    else .error (.pageFull maxLogPageEntries)

def outgrown (capped : Bool) (why : ReadLogError) : ReadLogError :=
  if capped ∧ (why = .entry (.cbor .destinationTooSmall) ∨ why = .cbor .destinationTooSmall) then
    .pageTooLong maxLogPageBytes
  else why

def encodeInto (page : LogPage) (capped : Bool) : Encoder ReadLogError Unit := do
  tell (CborWriter.map 4)
  tell (CborWriter.key PageKey.entries.number)
  tell (CborWriter.array page.entries.items.length)
  page.entries.items.forM fun entry => mapErr (outgrown capped) entry.encode
  tell (CborWriter.key PageKey.nextSeq.number)
  tell (CborWriter.u64 page.nextSeq.toNat)
  tell (CborWriter.key PageKey.oldestSeq.number)
  tell (CborWriter.u64 page.oldestSeq.toNat)
  tell (CborWriter.key PageKey.complete.number)
  tell (CborWriter.bool page.complete)

def encode (page : LogPage) (dst : ℕ) : Except ReadLogError Bytes := do
  let capped : Bool := dst ≥ maxLogPageBytes
  let room := if capped then maxLogPageBytes else dst
  let (_, cbor) ← page.encodeInto capped (CborWriter.new room)
  let (_, cbor) ← cbor.finish.mapError fun why => outgrown capped (.cbor why)
  .ok cbor.out

structure Slots where
  entries : Option Entries
  nextSeq : Option UInt64
  oldestSeq : Option UInt64
  complete : Option Bool

def Slots.empty : Slots := ⟨none, none, none, none⟩

def entriesFrom : Read ReadLogError Entries := do
  let count ← ask array
  if count > maxLogPageEntries then throw (.pageFull maxLogPageEntries)
  let page ← itemLoop (fun page => do
    let entry ← LogEntry.decode
    page.push entry) count (new 0 0 false)
  pure page.entries

def Slots.step (number : ℤ) (s : Slots) : Read ReadLogError Slots :=
  match PageKey.of number with
  | some .entries => slotField entriesFrom (.duplicate (.page .entries)) s.entries fun slot =>
      { s with entries := slot }
  | some .nextSeq => slotField (UInt64.ofNat <$> ask u64) (.duplicate (.page .nextSeq)) s.nextSeq fun slot =>
      { s with nextSeq := slot }
  | some .oldestSeq =>
    slotField (UInt64.ofNat <$> ask u64) (.duplicate (.page .oldestSeq)) s.oldestSeq fun slot =>
      { s with oldestSeq := slot }
  | some .complete => slotField (ask CborReader.bool) (.duplicate (.page .complete)) s.complete fun slot =>
      { s with complete := slot }
  | none => passOver s

def slots : Read ReadLogError Slots := do
  let pairs ← ask map
  pairLoop Slots.step pairs .empty

def Slots.page (s : Slots) : Except ReadLogError LogPage := do
  let entries ← slotRequired (.missing (.page .entries)) s.entries
  let nextSeq ← slotRequired (.missing (.page .nextSeq)) s.nextSeq
  let oldestSeq ← slotRequired (.missing (.page .oldestSeq)) s.oldestSeq
  let complete ← slotRequired (.missing (.page .complete)) s.complete
  .ok ⟨entries, nextSeq, oldestSeq, complete⟩

def decode (payload : Bytes) : Except ReadLogError LogPage :=
  if payload.length > maxLogPageBytes then .error (.pageTooLong payload.length)
  else do
    let (slots, body) ← slots (CborReader.new payload)
    body.finish.mapError FromCbor.cbor
    slots.page

def calls (page : LogPage) : List Call :=
  [.map 4, .key 1, .array (UInt64.ofNat page.entries.items.length)] ++
    page.entries.items.flatMap LogEntry.calls ++
    [.key 2, .u64 page.nextSeq, .key 3, .u64 page.oldestSeq, .key 4, .bool page.complete]

theorem count_toNat (entries : Entries) :
    (UInt64.ofNat entries.items.length).toNat = entries.items.length := by
  have hfits := entries.fits
  unfold maxLogPageEntries at hfits
  rw [UInt64.toNat_ofNat_of_lt']
  exact hfits.trans_lt (by decide)

theorem encodeInto_tells (page : LogPage) (capped : Bool) : Tells (page.encodeInto capped) page.calls := by
  have htail : Tells (do
      tell (CborWriter.key PageKey.nextSeq.number)
      tell (CborWriter.u64 page.nextSeq.toNat)
      tell (CborWriter.key PageKey.oldestSeq.number)
      tell (CborWriter.u64 page.oldestSeq.toNat)
      tell (CborWriter.key PageKey.complete.number)
      tell (CborWriter.bool page.complete) : Encoder ReadLogError Unit)
      [.key 2, .u64 page.nextSeq, .key 3, .u64 page.oldestSeq, .key 4, .bool page.complete] :=
    .cons (c := .key 2) <| .cons (c := .u64 page.nextSeq) <| .cons (c := .key 3) <|
      .cons (c := .u64 page.oldestSeq) <| .cons (c := .key 4) <| .call (.bool page.complete)
  have hentries := Tells.forM (fun r : LogEntry => r.encode_tells.refused (f := outgrown capped)) page.entries.items
  have hcount : Tells (tell (CborWriter.array page.entries.items.length) : Encoder ReadLogError Unit)
      [.array (UInt64.ofNat page.entries.items.length)] := by
    have h := Tells.call (ε := ReadLogError) (.array (UInt64.ofNat page.entries.items.length))
    rwa [Call.write, count_toNat] at h
  have hrest := hcount.append (hentries.append htail)
  have hall : Tells (page.encodeInto capped) _ := .cons (c := .map 4) <| .cons (c := .key 1) hrest
  simpa [calls] using hall

theorem push_ok {page page' : LogPage} {entry : LogEntry} (h : page.push entry = .ok page') :
    entry.seq ≠ ceiling ∧ page'.entries.items = page.entries.items ++ [entry] ∧
      page'.nextSeq.toNat = max page.nextSeq.toNat (entry.seq.toNat + 1) ∧
      page'.oldestSeq = page.oldestSeq ∧ page'.complete = page.complete := by
  unfold push at h
  cases hn : entry.seq.next with
  | none =>
    rw [hn] at h
    cases h
  | some past =>
    obtain ⟨hne, hpast⟩ := LogSeq.next_some.mp hn
    simp only [hn] at h
    split_ifs at h with hlen hless
    · cases h
      rw [UInt64.lt_iff_toNat_lt] at hless
      refine ⟨hne, rfl, ?_, rfl, rfl⟩
      simp only
      omega
    · cases h
      rw [UInt64.lt_iff_toNat_lt] at hless
      refine ⟨hne, rfl, ?_, rfl, rfl⟩
      simp only
      omega

theorem push_some (page : LogPage) {entry : LogEntry} (hseq : entry.seq ≠ ceiling)
    (hlen : page.entries.items.length < maxLogPageEntries) : ∃ page', page.push entry = .ok page' := by
  unfold push
  rw [LogSeq.next, if_neg hseq]
  simp only [dif_pos hlen]
  exact ⟨_, rfl⟩

/-- A page that came of `new`, of `push` and of setting its public fields. -/
inductive Built : LogPage → Prop
  | new (resumeAt oldestSeq : LogSeq) (complete : Bool) : Built (new resumeAt oldestSeq complete)
  | push {page page' : LogPage} {entry : LogEntry} (h : Built page) (hp : page.push entry = .ok page') :
    Built page'
  | set {page : LogPage} (h : Built page) (oldestSeq : LogSeq) (complete : Bool) :
    Built { page with oldestSeq := oldestSeq, complete := complete }

theorem Built.past {page : LogPage} (h : Built page) :
    ∀ r ∈ page.entries.items, r.seq < page.nextSeq := by
  induction h with
  | new resumeAt oldestSeq complete => simp [LogPage.new]
  | set _ _ _ ih => exact ih
  | push _ hp ih =>
    obtain ⟨-, hitems, hnext, -, -⟩ := push_ok hp
    intro r hr
    rw [UInt64.lt_iff_toNat_lt, hnext]
    rw [hitems, List.mem_append, List.mem_singleton] at hr
    rcases hr with hr | rfl
    · have hbelow := UInt64.lt_iff_toNat_lt.mp (ih r hr)
      omega
    · omega

theorem Built.seq_ne {page : LogPage} (h : Built page) : ∀ r ∈ page.entries.items, r.seq ≠ ceiling := by
  intro r hr hseq
  have hpast := UInt64.lt_iff_toNat_lt.mp (h.past r hr)
  have hmax := page.nextSeq.toNat_lt
  rw [hseq] at hpast
  simp only [ceiling, UInt64.reduceToNat] at hpast
  omega

theorem entries_takes {entries : List LogEntry} (hseq : ∀ r ∈ entries, r.seq ≠ ceiling) (page : LogPage)
    (hlen : page.entries.items.length + entries.length ≤ maxLogPageEntries) :
    ∃ page', page'.entries.items = page.entries.items ++ entries ∧
      Takes (itemLoop (fun page => do
        let entry ← LogEntry.decode
        page.push entry) entries.length page) (entries.flatMap LogEntry.calls) page' := by
  induction entries generalizing page with
  | nil => exact ⟨page, (List.append_nil _).symm, .itemsDone⟩
  | cons r entries ih =>
    rw [List.length_cons] at hlen
    obtain ⟨page₁, hpush⟩ := page.push_some (hseq r (by simp)) (by omega)
    have hitems := (push_ok hpush).2.1
    obtain ⟨page', hitems', htakes⟩ := ih (fun s hs => hseq s (by simp [hs])) page₁ (by
      rw [hitems, List.length_append, List.length_singleton]
      omega)
    refine ⟨page', by rw [hitems', hitems, List.append_assoc, List.singleton_append], ?_⟩
    have hstep : Takes (do
        let entry ← LogEntry.decode
        page.push entry) (r.calls ++ []) page₁ := r.decode_takes.bind (.check hpush)
    rw [List.append_nil] at hstep
    exact hstep.items htakes

theorem entriesFrom_takes (entries : Entries) (hseq : ∀ r ∈ entries.items, r.seq ≠ ceiling) :
    Takes entriesFrom (.array (UInt64.ofNat entries.items.length) :: entries.items.flatMap LogEntry.calls)
      entries := by
  obtain ⟨page, hitems, htakes⟩ := entries_takes hseq (new 0 0 false) (by
    rw [show (new 0 0 false).entries.items = [] from rfl, List.length_nil, Nat.zero_add]
    exact entries.fits)
  have hentries : page.entries = entries := by
    apply Entries.ext
    rw [hitems]
    rfl
  have hcount := Takes.array (ε := ReadLogError) (UInt64.ofNat entries.items.length)
  rw [count_toNat] at hcount
  have hloop := htakes.mapped (f := LogPage.entries)
  rw [hentries, map_eq_pure_bind] at hloop
  have hfits : ¬entries.items.length > maxLogPageEntries := Nat.not_lt.mpr entries.fits
  refine hcount.bind ?_
  simp only [if_neg hfits]
  exact hloop

theorem slots_takes (page : LogPage) (hseq : ∀ r ∈ page.entries.items, r.seq ≠ ceiling) :
    Takes slots page.calls ⟨some page.entries, some page.nextSeq, some page.oldestSeq, some page.complete⟩ := by
  have hentries : Takes (Slots.step (1 : Int64).toInt .empty)
      (.array (UInt64.ofNat page.entries.items.length) :: page.entries.items.flatMap LogEntry.calls)
      ⟨some page.entries, none, none, none⟩ := .slotField (entriesFrom_takes page.entries hseq)
  have hnext : Takes (Slots.step (2 : Int64).toInt ⟨some page.entries, none, none, none⟩)
      [.u64 page.nextSeq] ⟨some page.entries, some page.nextSeq, none, none⟩ := .slotField (.word page.nextSeq)
  have holdest : Takes (Slots.step (3 : Int64).toInt ⟨some page.entries, some page.nextSeq, none, none⟩)
      [.u64 page.oldestSeq] ⟨some page.entries, some page.nextSeq, some page.oldestSeq, none⟩ :=
    .slotField (.word page.oldestSeq)
  have hcomplete : Takes (Slots.step (4 : Int64).toInt
      ⟨some page.entries, some page.nextSeq, some page.oldestSeq, none⟩) [.bool page.complete]
      ⟨some page.entries, some page.nextSeq, some page.oldestSeq, some page.complete⟩ :=
    .slotField (.bool page.complete)
  have hpairs := Takes.pairs hentries (.pairs hnext (.pairs holdest (.pairs hcomplete .pairsDone)))
  have hall : Takes slots _ _ := (Takes.map 4).bind hpairs
  simpa [calls] using hall

theorem encode_ok {page : LogPage} {dst : ℕ} {bytes : Bytes} :
    page.encode dst = .ok bytes ↔
      ∃ w w' len, writeAll page.calls (.new (min dst maxLogPageBytes)) = .ok ((), w) ∧
        CborWriter.finish w = .ok (len, w') ∧ w'.out = bytes := by
  have hroom : (if decide (dst ≥ maxLogPageBytes) = true then maxLogPageBytes else dst) =
      min dst maxLogPageBytes := by
    simp only [ge_iff_le, decide_eq_true_eq]
    split_ifs <;> omega
  simp only [encode]
  rw [hroom]
  constructor
  · intro h
    obtain ⟨⟨⟨⟩, w⟩, hw, h⟩ := bind_ok.mp h
    obtain ⟨⟨len, w'⟩, hf, h⟩ := bind_ok.mp h
    cases h
    exact ⟨w, w', len, (encodeInto_tells page _ _ _).mp hw, mapError_ok.mp hf, rfl⟩
  · rintro ⟨w, w', len, hw, hf, rfl⟩
    exact bind_ok.mpr ⟨((), w), (encodeInto_tells page _ _ _).mpr hw,
      bind_ok.mpr ⟨(len, w'), mapError_ok.mpr hf, rfl⟩⟩

theorem decode_encode {page : LogPage} (hseq : ∀ r ∈ page.entries.items, r.seq ≠ ceiling) {dst : ℕ}
    {bytes : Bytes} (h : page.encode dst = .ok bytes) : decode bytes = .ok page := by
  obtain ⟨w, w', len, hw, hf, rfl⟩ := encode_ok.mp h
  have hout : w'.out = w.out := finish_out hf
  have hroom : min dst maxLogPageBytes < 2 ^ 64 := (min_le_right _ _).trans_lt (by decide)
  obtain ⟨r, hslots, hfinish⟩ := (slots_takes page hseq).run hroom hw hf
  have hgrows := writeAll_grows hw (Nat.zero_le _)
  have hwithin : w.out.length ≤ maxLogPageBytes := by
    have hcap := hgrows.within (Nat.zero_le _)
    rw [hgrows.capacity] at hcap
    exact hcap.trans (min_le_right _ _)
  rw [hout, decode, if_neg (Nat.not_lt.mpr hwithin)]
  refine bind_ok.mpr ⟨(_, r), hslots, bind_ok.mpr ⟨(), mapError_ok.mpr hfinish, rfl⟩⟩

end LogPage

end Km43.Log
