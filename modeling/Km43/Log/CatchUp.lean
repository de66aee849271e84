import Km43.Library.Paging
import Km43.Log.Page

namespace Km43.Log

open Library Cbor

namespace LogPage

variable {page page' : LogPage} {dst dst' : ℕ}

def Encodes (page : LogPage) (dst : ℕ) : Prop := ∃ bytes, page.encode dst = .ok bytes

theorem Encodes.narrower (h : page.Encodes dst) (hentries : page'.entries = page.entries)
    (hnext : page'.nextSeq ≤ page.nextSeq) (holdest : page'.oldestSeq ≤ page.oldestSeq)
    (hdst : dst ≤ dst') : page'.Encodes dst' := by
  obtain ⟨bytes, h⟩ := h
  obtain ⟨w, w₁, len, hw, hf, -⟩ := encode_ok.mp h
  have htail : List.Forall₂ Call.Narrower
      [.key 2, .u64 page'.nextSeq, .key 3, .u64 page'.oldestSeq, .key 4, .bool page'.complete]
      [.key 2, .u64 page.nextSeq, .key 3, .u64 page.oldestSeq, .key 4, .bool page.complete] :=
    .cons (.same _) <| .cons (.u64 hnext) <| .cons (.same _) <| .cons (.u64 holdest) <|
      .cons (.same _) <| .cons (.bool _ _) .nil
  have hsame : ∀ calls : List Call, List.Forall₂ Call.Narrower calls calls := fun calls =>
    List.forall₂_same.mpr fun c _ => .same c
  have hcalls : List.Forall₂ Call.Narrower page'.calls page.calls := by
    rw [calls, calls, hentries]
    exact List.rel_append (hsame _) htail
  obtain ⟨w', hw', hnest⟩ := writeAll_roomier hcalls
    (min_le_min_right maxLogPageBytes hdst) hw
  have hstack : w'.stack = [] := by
    rw [CborWriter.stack, hnest]
    exact (finish_inv hf).1
  exact ⟨_, encode_ok.mpr ⟨w', _, _, hw', finish_ok hstack, rfl⟩⟩

def emptyBytes : ℕ := 25

theorem new_encodes (resumeAt oldestSeq : LogSeq) (complete : Bool) (h : emptyBytes ≤ dst) :
    (new resumeAt oldestSeq complete).Encodes dst := by
  have hwidest : (new ceiling ceiling true).encode emptyBytes = .ok
      ([0xA4, 1, 0x80, 2, 0x1B] ++ List.replicate 8 0xFF ++ [3, 0x1B] ++ List.replicate 8 0xFF ++ [4, 0xF5]) := by
    decide +kernel
  have hencodes : (new ceiling ceiling true).Encodes emptyBytes := ⟨_, hwidest⟩
  have hentries : (new resumeAt oldestSeq complete).entries = (new ceiling ceiling true).entries := rfl
  have hle : ∀ seq : LogSeq, seq ≤ ceiling := fun seq =>
    UInt64.le_iff_toNat_le.mpr (Nat.le_of_lt_succ seq.toNat_lt)
  exact hencodes.narrower hentries (hle resumeAt) (hle oldestSeq) h

def FitsAlone (dst : ℕ) (oldest : LogSeq) (r : LogEntry) : Prop :=
  ∃ page, (new r.seq oldest true).push r = .ok page ∧ page.Encodes dst

/-- Records pushed in order, while there are fewer than `size` and the page still encodes. -/
def fill (dst size : ℕ) (page : LogPage) : List LogEntry → LogPage
  | [] => { page with complete := true }
  | r :: rest =>
    if page.entries.items.length < size then
      match page.push r with
      | .error _ => page
      | .ok next =>
        match next.encode dst with
        | .error _ => page
        | .ok _ => fill dst size next rest
    else page

theorem fill_cons (dst size : ℕ) (page : LogPage) (r : LogEntry) (rest : List LogEntry) :
    fill dst size page (r :: rest) = page ∨
      ∃ next, page.push r = .ok next ∧ next.Encodes dst ∧
        fill dst size page (r :: rest) = fill dst size next rest := by
  rw [fill]
  split_ifs
  · cases hp : page.push r with
    | error why => exact .inl rfl
    | ok next =>
      cases he : next.encode dst with
      | error why =>
        left
        simp only [he]
      | ok bytes =>
        right
        refine ⟨next, rfl, ⟨bytes, he⟩, ?_⟩
        simp only [he]
  · exact .inl rfl

/-- A page filled from these records: which it took, and where it stopped. -/
structure Filled (page page' : LogPage) (records : List LogEntry) : Prop where
  built : page.Built → page'.Built
  forward : page.nextSeq ≤ page'.nextSeq
  took : ∃ taken rest, records = taken ++ rest ∧
    page'.entries.items = page.entries.items ++ taken ∧
    (page'.complete = true ↔ rest = []) ∧ ∀ r ∈ rest, page'.nextSeq ≤ r.seq

theorem fill_filled (dst size : ℕ) {records : List LogEntry} (hopen : page.complete = false)
    (hrising : records.Pairwise fun a b => a.seq < b.seq) (habove : ∀ r ∈ records, page.nextSeq ≤ r.seq) :
    Filled page (fill dst size page records) records := by
  induction records generalizing page with
  | nil => exact ⟨fun h => h.set page.oldestSeq true, UInt64.le_rfl, [], [], by simp [fill]⟩
  | cons r rest ih =>
    rcases fill_cons dst size page r rest with h | ⟨next, hp, -, h⟩
    · rw [h]
      exact ⟨id, UInt64.le_rfl, [], r :: rest, rfl, by simp, by simp [hopen], habove⟩
    · obtain ⟨-, hitems, hnext, -, hcomplete⟩ := push_ok hp
      rw [List.pairwise_cons] at hrising
      have hr := UInt64.le_iff_toNat_le.mp (habove r (by simp))
      obtain ⟨hbuilt, hforward, taken, left, hsplit, htook, hdone, hleft⟩ := ih (hcomplete.trans hopen) hrising.2 (by
        intro s hs
        have hlt := UInt64.lt_iff_toNat_lt.mp (hrising.1 s hs)
        rw [UInt64.le_iff_toNat_le, hnext]
        omega)
      rw [h]
      refine ⟨fun hb => hbuilt (hb.push hp), ?_, r :: taken, left, ?_, ?_, hdone, hleft⟩
      · apply UInt64.le_trans _ hforward
        rw [UInt64.le_iff_toNat_le, hnext]
        omega
      · rw [hsplit, List.cons_append]
      · rw [htook, hitems, List.append_assoc, List.singleton_append]

theorem fill_encodes {size : ℕ} {records : List LogEntry} (h : page.Encodes dst) :
    (fill dst size page records).Encodes dst := by
  induction records generalizing page with
  | nil => exact h.narrower rfl UInt64.le_rfl UInt64.le_rfl le_rfl
  | cons r rest ih =>
    rcases fill_cons dst size page r rest with hf | ⟨next, -, he, hf⟩
    · rwa [hf]
    · rw [hf]
      exact ih he

theorem fill_takes {start oldest : LogSeq} {size : ℕ} {r : LogEntry} {rest : List LogEntry}
    (hfits : FitsAlone dst oldest r) (hsize : 0 < size) (hstart : start ≤ r.seq)
    (hrising : (r :: rest).Pairwise fun a b => a.seq < b.seq) :
    (fill dst size (new start oldest false) (r :: rest)).entries.items ≠ [] := by
  obtain ⟨alone, hpush, hencodes⟩ := hfits
  obtain ⟨hne, hitems, hnext, hold, -⟩ := push_ok hpush
  obtain ⟨next, hp⟩ := (new start oldest false).push_some hne (Nat.zero_lt_succ 63)
  obtain ⟨-, hitems', hnext', hold', hopen⟩ := push_ok hp
  rw [UInt64.le_iff_toNat_le] at hstart
  have hentries : next.entries = alone.entries := by
    apply Entries.ext
    rw [hitems', hitems]
    rfl
  have hle : next.nextSeq ≤ alone.nextSeq := by
    rw [UInt64.le_iff_toNat_le, hnext, hnext']
    simp only [new]
    omega
  obtain ⟨bytes, he⟩ := hencodes.narrower hentries hle (by rw [hold', hold]; exact UInt64.le_rfl) le_rfl
  have hempty : (new start oldest false).entries.items.length < size := hsize
  rw [fill, if_pos hempty]
  simp only [hp, he]
  rw [List.pairwise_cons] at hrising
  obtain ⟨-, -, taken, left, -, htook, -, -⟩ := fill_filled dst size hopen hrising.2 (by
      intro s hs
      have hlt := UInt64.lt_iff_toNat_lt.mp (hrising.1 s hs)
      rw [UInt64.le_iff_toNat_le, hnext']
      simp only [new]
      omega)
  rw [htook, hitems']
  simp

end LogPage

/-- What the controller still holds when a request reaches it, and how many records that asks for. -/
structure Moment where
  log : List LogEntry
  maxEntries : UInt16

structure Exchange where
  fromSeq : LogSeq
  log : List LogEntry
  page : LogPage

def oldest : List LogEntry → LogSeq
  | [] => 0
  | r :: _ => r.seq

def served (dst : ℕ) (request : ReadLog) (log : List LogEntry) : LogPage :=
  let start := request.startAt (oldest log)
  let records := log.filter fun r => decide (start ≤ r.seq)
  LogPage.fill dst request.pageSize (.new start (oldest log) false) records

def answer (dst : ℕ) (request : ReadLog) (log : List LogEntry) : Except ReadLogError Bytes :=
  (served dst request log).encode dst

def catchUp (dst : ℕ) : LogSeq → List Moment → List Exchange
  | _, [] => []
  | fromSeq, now :: later =>
    match answer dst ⟨fromSeq, now.maxEntries⟩ now.log with
    | .error _ => []
    | .ok bytes =>
      match LogPage.decode bytes with
      | .error _ => []
      | .ok page =>
        ⟨fromSeq, now.log, page⟩ :: if page.complete then [] else catchUp dst page.nextSeq later

/-- Records in ascending order, each of which fits a page on its own, and a request for one at least. -/
structure Moment.Proper (dst : ℕ) (now : Moment) : Prop where
  rising : now.log.Pairwise fun a b => a.seq < b.seq
  fits : ∀ r ∈ now.log, LogPage.FitsAlone dst (oldest now.log) r
  asks : 1 ≤ now.maxEntries

namespace Exchange

/-- The positions that the page answers for: up to its cursor, or all that are left. -/
def AnswersFor (x : Exchange) (seq : LogSeq) : Prop :=
  x.fromSeq ≤ seq ∧ (x.page.complete = true ∨ seq < x.page.nextSeq)

def turn (x : Exchange) : Turn LogEntry ℕ :=
  ⟨x.fromSeq.toNat, x.log, x.page.entries.items,
    if x.page.complete then none else some x.page.nextSeq.toNat⟩

theorem covers_iff {x : Exchange} {seq : LogSeq} : x.turn.covers seq.toNat ↔ x.AnswersFor seq := by
  unfold Turn.covers AnswersFor turn
  rw [UInt64.le_iff_toNat_le, UInt64.lt_iff_toNat_lt]
  split_ifs with h <;> simp [h]

end Exchange

def seqOf (r : LogEntry) : ℕ := r.seq.toNat

section

variable {dst : ℕ} {fromSeq : LogSeq} {log : List LogEntry} {now : Moment} {moments : List Moment}

theorem oldest_le (h : log.Pairwise fun a b => a.seq < b.seq) : ∀ r ∈ log, oldest log ≤ r.seq := by
  cases log with
  | nil => simp
  | cons a log =>
    rw [List.pairwise_cons] at h
    intro r hr
    rcases List.mem_cons.mp hr with rfl | hr
    · exact UInt64.le_rfl
    · exact UInt64.le_of_lt (h.1 r hr)

theorem startAt_toNat (request : ReadLog) (seq : LogSeq) :
    (request.startAt seq).toNat = max request.fromSeq.toNat seq.toNat := by
  show (if request.fromSeq ≤ seq then seq else request.fromSeq).toNat = _
  split_ifs with h
  · exact (max_eq_right (UInt64.le_iff_toNat_le.mp h)).symm
  · exact (max_eq_left (Nat.le_of_not_le (UInt64.le_iff_toNat_le.not.mp h))).symm

theorem startAt_le (h : log.Pairwise fun a b => a.seq < b.seq) {request : ReadLog} {r : LogEntry}
    (hr : r ∈ log) : request.startAt (oldest log) ≤ r.seq ↔ request.fromSeq ≤ r.seq := by
  have hold := UInt64.le_iff_toNat_le.mp (oldest_le h r hr)
  rw [UInt64.le_iff_toNat_le, UInt64.le_iff_toNat_le, startAt_toNat]
  omega

theorem served_filled (dst : ℕ) (h : log.Pairwise fun a b => a.seq < b.seq) (request : ReadLog) :
    (LogPage.new (request.startAt (oldest log)) (oldest log) false).Filled (served dst request log)
      (log.filter fun r => decide (request.startAt (oldest log) ≤ r.seq)) := by
  apply LogPage.fill_filled _ _ rfl (h.filter _)
  intro r hr
  exact of_decide_eq_true (List.mem_filter.mp hr).2

theorem served_built (h : log.Pairwise fun a b => a.seq < b.seq) (request : ReadLog) :
    (served dst request log).Built := (served_filled dst h request).built (.new _ _ _)

theorem served_fair (dst : ℕ) (fromSeq : LogSeq) (h : log.Pairwise fun a b => a.seq < b.seq) (maxEntries : UInt16) :
    (Exchange.mk fromSeq log (served dst ⟨fromSeq, maxEntries⟩ log)).turn.Fair seqOf := by
  have hbuilt : (served dst ⟨fromSeq, maxEntries⟩ log).Built := served_built h _
  obtain ⟨-, hforward, taken, rest, hsplit, htook, hdone, hrest⟩ :=
    served_filled dst h ⟨fromSeq, maxEntries⟩
  generalize served dst ⟨fromSeq, maxEntries⟩ log = page at hbuilt hforward htook hdone hrest ⊢
  have hitems : page.entries.items = taken := htook
  refine ⟨?_, ?_, ?_⟩
  · apply h.imp
    intro a b hab
    exact UInt64.lt_iff_toNat_lt.mp hab
  · have hcovers : ∀ r ∈ log, decide ((Exchange.mk fromSeq log page).turn.covers (seqOf r)) =
        (decide (page.complete = true ∨ r.seq < page.nextSeq) &&
          decide ((⟨fromSeq, maxEntries⟩ : ReadLog).startAt (oldest log) ≤ r.seq)) := by
      intro r hr
      rw [← Bool.decide_and, decide_eq_decide, startAt_le h hr, and_comm]
      exact Exchange.covers_iff
    have htaken : taken.filter (fun r => decide (page.complete = true ∨ r.seq < page.nextSeq)) = taken := by
      rw [List.filter_eq_self]
      intro r hr
      simp [hbuilt.past r (hitems ▸ hr)]
    have hleft : rest.filter (fun r => decide (page.complete = true ∨ r.seq < page.nextSeq)) = [] := by
      rw [List.filter_eq_nil_iff]
      intro r hr
      have hopen : ¬page.complete = true := fun hc => by simp [hdone.mp hc] at hr
      simp [hopen, UInt64.not_lt.mpr (hrest r hr)]
    show page.entries.items = log.filter _
    rw [List.filter_congr hcovers, ← List.filter_filter, hsplit, List.filter_append, htaken, hleft, hitems,
      List.append_nil]
  · intro n hn
    simp only [Exchange.turn] at hn ⊢
    split_ifs at hn
    · cases hn
    · cases hn
      have hstart : ((⟨fromSeq, maxEntries⟩ : ReadLog).startAt (oldest log)).toNat ≤ page.nextSeq.toNat :=
        UInt64.le_iff_toNat_le.mp hforward
      rw [startAt_toNat] at hstart
      exact (le_max_left _ _).trans hstart

theorem answer_decoded (h : log.Pairwise fun a b => a.seq < b.seq) (hdst : LogPage.emptyBytes ≤ dst)
    (request : ReadLog) : ∃ bytes, answer dst request log = .ok bytes ∧
      LogPage.decode bytes = .ok (served dst request log) := by
  obtain ⟨bytes, hbytes⟩ : (served dst request log).Encodes dst :=
    LogPage.fill_encodes (LogPage.new_encodes _ _ _ hdst)
  exact ⟨bytes, hbytes, LogPage.decode_encode (served_built h request).seq_ne hbytes⟩

theorem served_carries (fromSeq : LogSeq) (h : now.Proper dst)
    (hopen : (served dst ⟨fromSeq, now.maxEntries⟩ now.log).complete = false) :
    (served dst ⟨fromSeq, now.maxEntries⟩ now.log).entries.items ≠ [] := by
  have hsize : 0 < (⟨fromSeq, now.maxEntries⟩ : ReadLog).pageSize := by
    have hasks := UInt16.le_iff_toNat_le.mp h.asks
    exact lt_min hasks (by decide)
  have hrising := h.rising.filter fun r =>
    decide ((⟨fromSeq, now.maxEntries⟩ : ReadLog).startAt (oldest now.log) ≤ r.seq)
  unfold served at hopen ⊢
  cases hrecords : now.log.filter fun r =>
      decide ((⟨fromSeq, now.maxEntries⟩ : ReadLog).startAt (oldest now.log) ≤ r.seq) with
  | nil =>
    simp only [hrecords, LogPage.fill] at hopen
    cases hopen
  | cons r rest =>
    rw [hrecords] at hrising
    obtain ⟨hlog, hstart⟩ := List.mem_filter.mp (hrecords ▸ List.mem_cons_self (l := rest) :
      r ∈ now.log.filter fun r =>
        decide ((⟨fromSeq, now.maxEntries⟩ : ReadLog).startAt (oldest now.log) ≤ r.seq))
    simp only [hrecords]
    exact LogPage.fill_takes (h.fits r hlog) hsize (of_decide_eq_true hstart) hrising

theorem catchUp_cons (h : now.Proper dst) (hdst : LogPage.emptyBytes ≤ dst) :
    catchUp dst fromSeq (now :: moments) =
      ⟨fromSeq, now.log, served dst ⟨fromSeq, now.maxEntries⟩ now.log⟩ ::
        if (served dst ⟨fromSeq, now.maxEntries⟩ now.log).complete then []
        else catchUp dst (served dst ⟨fromSeq, now.maxEntries⟩ now.log).nextSeq moments := by
  obtain ⟨bytes, hbytes, hdecode⟩ := answer_decoded h.rising hdst ⟨fromSeq, now.maxEntries⟩
  rw [catchUp, hbytes]
  simp only [hdecode]

theorem catchUp_walk (h : ∀ now ∈ moments, now.Proper dst) (hdst : LogPage.emptyBytes ≤ dst) :
    Walk seqOf fromSeq.toNat ((catchUp dst fromSeq moments).map Exchange.turn) := by
  induction moments generalizing fromSeq with
  | nil => exact .nil _
  | cons now moments ih =>
    obtain ⟨hnow, hlater⟩ := List.forall_mem_cons.mp h
    rw [catchUp_cons hnow hdst]
    have hfair := served_fair dst fromSeq hnow.rising now.maxEntries
    split_ifs with hc
    · exact .last hfair rfl (if_pos hc)
    · exact .more hfair rfl (if_neg hc) (ih hlater)

def carried (exchanges : List Exchange) : List LogEntry := exchanges.flatMap fun x => x.page.entries.items

def Caught (exchanges : List Exchange) : Prop := ∃ x ∈ exchanges, x.page.complete = true

theorem delivered_turns (exchanges : List Exchange) :
    delivered (exchanges.map Exchange.turn) = carried exchanges := by
  rw [delivered, List.flatMap_map]
  rfl

theorem ended_turns {exchanges : List Exchange} (h : Caught exchanges) :
    Ended (exchanges.map Exchange.turn) := by
  obtain ⟨x, hx, hc⟩ := h
  exact ⟨x.turn, List.mem_map_of_mem hx, if_pos hc⟩

theorem catchUp_answered (fromSeq : LogSeq) (h : ∀ now ∈ moments, now.Proper dst) (hdst : LogPage.emptyBytes ≤ dst) :
    (catchUp dst fromSeq moments).map Exchange.log <+: moments.map Moment.log ∧
      (Caught (catchUp dst fromSeq moments) ∨ (catchUp dst fromSeq moments).length = moments.length) ∧
      ∀ x ∈ catchUp dst fromSeq moments, x.page.complete = false → x.page.entries.items ≠ [] := by
  induction moments generalizing fromSeq with
  | nil => simp [catchUp]
  | cons now moments ih =>
    obtain ⟨hnow, hlater⟩ := List.forall_mem_cons.mp h
    rw [catchUp_cons hnow hdst]
    have hcarries := served_carries fromSeq hnow
    split_ifs with hc
    · refine ⟨by simp, .inl ⟨_, List.mem_singleton_self _, hc⟩, ?_⟩
      intro x hx hopen
      rw [List.mem_singleton.mp hx, hc] at hopen
      cases hopen
    · obtain ⟨hlogs, hanswered, hall⟩ := ih _ hlater
      refine ⟨List.cons_prefix_cons.mpr ⟨rfl, hlogs⟩, ?_, List.forall_mem_cons.mpr ⟨hcarries, hall⟩⟩
      rcases hanswered with ⟨x, hx, hx'⟩ | hlen
      · exact .inl ⟨x, List.mem_cons_of_mem _ hx, hx'⟩
      · exact .inr (by rw [List.length_cons, List.length_cons, hlen])

theorem carried_length {exchanges : List Exchange} (h : ∀ x ∈ exchanges, x.page.entries.items ≠ []) :
    exchanges.length ≤ (carried exchanges).length := by
  induction exchanges with
  | nil => simp
  | cons x exchanges ih =>
    obtain ⟨hx, hrest⟩ := List.forall_mem_cons.mp h
    have hpos := List.length_pos_of_ne_nil hx
    have hlen := ih hrest
    simp only [carried, List.flatMap_cons, List.length_append, List.length_cons] at hlen ⊢
    omega

end

/-- Pages are read back as they were built, and a client that follows their cursors has each record
that is held when its page is built once, in order. -/
theorem catches_up :
    (∀ page : LogPage, page.Built → ∀ dst bytes, page.encode dst = .ok bytes →
      LogPage.decode bytes = .ok page ∧ ∀ r ∈ page.entries.items, r.seq < page.nextSeq) ∧
    ∀ (dst : ℕ) (fromSeq : LogSeq) (moments : List Moment), LogPage.emptyBytes ≤ dst →
      (∀ now ∈ moments, now.Proper dst) →
      (carried (catchUp dst fromSeq moments)).Pairwise (fun a b => a.seq < b.seq) ∧
      (∀ r ∈ carried (catchUp dst fromSeq moments), fromSeq ≤ r.seq ∧
        ∃ x ∈ catchUp dst fromSeq moments, r ∈ x.log ∧ x.AnswersFor r.seq) ∧
      (∀ x ∈ catchUp dst fromSeq moments, ∀ r ∈ x.log, x.AnswersFor r.seq →
        (carried (catchUp dst fromSeq moments)).filter (fun s => decide (s.seq = r.seq)) = [r]) ∧
      (Caught (catchUp dst fromSeq moments) → ∀ seq, fromSeq ≤ seq →
        ∃ x ∈ catchUp dst fromSeq moments, x.AnswersFor seq) ∧
      (catchUp dst fromSeq moments).map Exchange.log <+: moments.map Moment.log ∧
      (Caught (catchUp dst fromSeq moments) ∨ (catchUp dst fromSeq moments).length = moments.length) ∧
      (∀ x ∈ catchUp dst fromSeq moments, x.page.complete = false → x.page.entries.items ≠ []) ∧
      (∀ log : List LogEntry, (∀ now ∈ moments, now.log <:+ log) → log.length < moments.length →
        Caught (catchUp dst fromSeq moments)) := by
  refine ⟨fun page hb dst bytes h => ⟨LogPage.decode_encode hb.seq_ne h, hb.past⟩, ?_⟩
  intro dst fromSeq moments hdst h
  have hwalk : Walk seqOf fromSeq.toNat ((catchUp dst fromSeq moments).map Exchange.turn) :=
    catchUp_walk h hdst
  obtain ⟨hlogs, hanswered, hcarries⟩ := catchUp_answered fromSeq h hdst
  have hrising := hwalk.delivered_rising
  have hmem : ∀ r, r ∈ carried (catchUp dst fromSeq moments) ↔
      ∃ x ∈ catchUp dst fromSeq moments, r ∈ x.log ∧ x.AnswersFor r.seq := by
    intro r
    rw [← delivered_turns, hwalk.mem_delivered]
    constructor
    · rintro ⟨t, ht, hr, hcovers⟩
      obtain ⟨x, hx, rfl⟩ := List.mem_map.mp ht
      exact ⟨x, hx, hr, Exchange.covers_iff.mp hcovers⟩
    · rintro ⟨x, hx, hr, hanswers⟩
      exact ⟨x.turn, List.mem_map_of_mem hx, hr, Exchange.covers_iff.mpr hanswers⟩
  have honce : ∀ r ∈ carried (catchUp dst fromSeq moments),
      (carried (catchUp dst fromSeq moments)).filter (fun s => decide (s.seq = r.seq)) = [r] := by
    intro r hr
    rw [← delivered_turns] at hr ⊢
    rw [← hwalk.delivered_once hr]
    apply List.filter_congr
    intro s _
    rw [decide_eq_decide]
    exact UInt64.toNat_inj.symm
  rw [delivered_turns] at hrising
  refine ⟨?_, ?_, ?_, ?_, hlogs, hanswered, hcarries, ?_⟩
  · exact hrising.imp fun hab => UInt64.lt_iff_toNat_lt.mpr hab
  · intro r hr
    refine ⟨?_, (hmem r).mp hr⟩
    rw [← delivered_turns] at hr
    exact UInt64.le_iff_toNat_le.mpr (hwalk.delivered_ge r hr)
  · intro x hx r hr hanswers
    exact honce r ((hmem r).mpr ⟨x, hx, hr, hanswers⟩)
  · intro hcaught seq hseq
    obtain ⟨t, ht, hcovers⟩ := hwalk.covered (ended_turns hcaught) (UInt64.le_iff_toNat_le.mp hseq)
    obtain ⟨x, hx, rfl⟩ := List.mem_map.mp ht
    exact ⟨x, hx, Exchange.covers_iff.mp hcovers⟩
  · intro log hsuffix hlen
    rcases hanswered with hcaught | hall
    · exact hcaught
    · by_contra hnot
      have hcarry : ∀ x ∈ catchUp dst fromSeq moments, x.page.entries.items ≠ [] := by
        intro x hx
        apply hcarries x hx
        rw [← Bool.not_eq_true]
        intro hc
        exact hnot ⟨x, hx, hc⟩
      have hsubset : carried (catchUp dst fromSeq moments) ⊆ log := by
        intro r hr
        obtain ⟨x, hx, hheld, -⟩ := (hmem r).mp hr
        obtain ⟨now, hnow, hlog⟩ := List.mem_map.mp (hlogs.subset (List.mem_map_of_mem hx))
        exact (hsuffix now hnow).subset (hlog ▸ hheld)
      have hnodup : (carried (catchUp dst fromSeq moments)).Nodup := hrising.imp fun hab heq => by
        rw [heq] at hab
        exact lt_irrefl _ hab
      have hcount := carried_length hcarry
      have hheld := (hnodup.subperm hsubset).length_le
      omega

theorem LogPage.encodes_of_some {page : LogPage} {dst : ℕ} (h : (page.encode dst).toOption.isSome = true) :
    page.Encodes dst := by
  cases he : page.encode dst with
  | error why =>
    rw [he] at h
    cases h
  | ok bytes => exact ⟨bytes, he⟩

def noted (seq : LogSeq) : LogEntry := ⟨seq, none, 3, [0xA1, 1, 3], by decide +kernel⟩

def dropping : List Moment := [⟨[noted 7, noted 9], 1⟩, ⟨[noted 9], 1⟩, ⟨[noted 9], 1⟩]

theorem noted_fits (old seq : LogSeq) (h : (old = 7 ∨ old = 9) ∧ (seq = 7 ∨ seq = 9)) :
    LogPage.FitsAlone maxLogPageBytes old (noted seq) := by
  rcases h with ⟨rfl | rfl, rfl | rfl⟩ <;>
  exact ⟨_, rfl, LogPage.encodes_of_some (by decide +kernel)⟩

theorem catches_up_dropping :
    Caught (catchUp maxLogPageBytes 5 dropping) ∧
      LogPage.decode [0xA4, 1, 0x80, 2, 5, 3, 1, 4, 0xF5] = .ok (LogPage.new 5 1 true) := by
  refine ⟨?_, (catches_up.1 _ (.new 5 1 true) maxLogPageBytes _ (by decide +kernel)).1⟩
  have hproper : ∀ now ∈ dropping, now.Proper maxLogPageBytes := by
    intro now hnow
    simp only [dropping, List.mem_cons, List.not_mem_nil, or_false] at hnow
    rcases hnow with rfl | rfl | rfl
    · refine ⟨by simp [noted], ?_, by decide⟩
      exact List.forall_mem_cons.mpr ⟨noted_fits 7 7 (by decide),
        List.forall_mem_singleton.mpr (noted_fits 7 9 (by decide))⟩
    · exact ⟨by simp, List.forall_mem_singleton.mpr (noted_fits 9 9 (by decide)), by decide⟩
    · exact ⟨by simp, List.forall_mem_singleton.mpr (noted_fits 9 9 (by decide)), by decide⟩
  have hsuffix : ∀ now ∈ dropping, now.log <:+ [noted 7, noted 9] := by
    simp [dropping, List.suffix_cons_iff]
  exact (catches_up.2 maxLogPageBytes 5 dropping (by decide) hproper).2.2.2.2.2.2.2 _ hsuffix (by decide)

end Km43.Log
