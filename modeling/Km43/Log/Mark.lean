import Km43.Library.Machine
import Km43.Log.Event

namespace Km43.Log

open Library Cbor

structure EventMark where
  floor : LogSeq

namespace EventMark

def acceptingFrom (acceptedFromSeq : LogSeq) : EventMark := ⟨acceptedFromSeq⟩

def accept (m : EventMark) (event : Event) : Except EventError Unit × EventMark :=
  if event.seq < m.floor then (.error (.replayed m.floor event.seq), m)
  else
    match LogSeq.next event.seq with
    | some next => (.ok (), ⟨next⟩)
    | none => (.error .seqAtTheCeiling, m)

def offer : Machine EventMark Bytes (Except EventError Event) := fun m payload =>
  match Event.decode payload with
  | .error why => (m, .error why)
  | .ok event =>
    match m.accept event with
    | (.ok (), m) => (m, .ok event)
    | (.error why, m) => (m, .error why)

def taken (outcome : Except EventError Event) : Option LogSeq := outcome.toOption.map Event.seq

def accepted (m : EventMark) (payloads : List Bytes) : List LogSeq :=
  (Machine.outputs offer m payloads).filterMap taken

def after (m : EventMark) (payloads : List Bytes) : EventMark := Machine.final offer m payloads

theorem accept_ok {m : EventMark} {event : Event} :
    (m.accept event).1 = .ok () ↔ m.floor ≤ event.seq ∧ event.seq ≠ ceiling := by
  unfold accept
  split_ifs with h
  · simp [UInt64.not_le.mpr h]
  · have hfloor := UInt64.not_lt.mp h
    cases hn : LogSeq.next event.seq with
    | none =>
      have hc : ¬(event.seq ≠ ceiling) := fun hne => by simp [LogSeq.next, hne] at hn
      simp [not_not.mp hc]
    | some next => simp [hfloor, (LogSeq.next_some.mp hn).1]

theorem accept_floor {m : EventMark} {event : Event} (h : (m.accept event).1 = .ok ()) :
    (m.accept event).2.floor.toNat = event.seq.toNat + 1 := by
  unfold accept at h ⊢
  split_ifs at h ⊢
  cases hn : LogSeq.next event.seq with
  | none =>
    rw [hn] at h
    cases h
  | some next => exact (LogSeq.next_some.mp hn).2

theorem accept_refused {m : EventMark} {event : Event} (h : (m.accept event).1 ≠ .ok ()) :
    (m.accept event).2 = m := by
  unfold accept at h ⊢
  split_ifs at h ⊢
  · rfl
  · cases hn : LogSeq.next event.seq with
    | none => rfl
    | some next => simp [hn] at h

theorem offer_decoded {m : EventMark} {payload : Bytes} {event : Event}
    (h : Event.decode payload = .ok event) :
    (offer m payload).1 = (m.accept event).2 ∧
      ((m.accept event).1 = .ok () → taken (offer m payload).2 = some event.seq) ∧
      ((m.accept event).1 ≠ .ok () → taken (offer m payload).2 = none) := by
  simp only [offer, h]
  rcases m.accept event with ⟨result, m'⟩
  cases result <;> simp [taken, Except.toOption]

/-- What a mark has left to accept, from where it started and what it accepted since. -/
structure Followed (start : LogSeq) (m : EventMark) (seqs : List LogSeq) : Prop where
  rising : seqs.Pairwise (· < ·)
  above : ∀ seq ∈ seqs, start ≤ seq
  floor : ∀ seq, m.floor ≤ seq ↔ start ≤ seq ∧ ∀ s ∈ seqs, s < seq

theorem followed_start (start : LogSeq) : Followed start (acceptingFrom start) [] :=
  ⟨.nil, by simp, by simp [acceptingFrom]⟩

theorem Followed.accept {start : LogSeq} {m : EventMark} {seqs : List LogSeq}
    (h : Followed start m seqs) {event : Event} (ha : (m.accept event).1 = .ok ()) :
    Followed start (m.accept event).2 (seqs ++ [event.seq]) := by
  obtain ⟨hstart, hbelow⟩ := (h.floor event.seq).mp (accept_ok.mp ha).1
  refine ⟨?_, ?_, ?_⟩
  · rw [List.pairwise_append]
    refine ⟨h.rising, List.pairwise_singleton _ _, ?_⟩
    intro s hs t ht
    rw [List.mem_singleton.mp ht]
    exact hbelow s hs
  · intro s hs
    rcases List.mem_append.mp hs with hs | hs
    · exact h.above s hs
    · rw [List.mem_singleton.mp hs]
      exact hstart
  · intro seq
    rw [UInt64.le_iff_toNat_le, accept_floor ha, Nat.succ_le_iff, ← UInt64.lt_iff_toNat_lt]
    constructor
    · intro hlt
      refine ⟨UInt64.le_of_lt (UInt64.lt_of_le_of_lt hstart hlt), ?_⟩
      intro s hs
      rcases List.mem_append.mp hs with hs | hs
      · exact UInt64.lt_trans (hbelow s hs) hlt
      · rw [List.mem_singleton.mp hs]
        exact hlt
    · intro hall
      exact hall.2 event.seq (by simp)

theorem Followed.offer {start : LogSeq} {m : EventMark} {seqs : List LogSeq}
    (h : Followed start m seqs) (payload : Bytes) :
    Followed start (offer m payload).1 (seqs ++ (taken (offer m payload).2).toList) := by
  cases hd : Event.decode payload with
  | error why => simpa [EventMark.offer, hd, taken, Except.toOption] using h
  | ok event =>
    obtain ⟨hm, hok, hno⟩ := offer_decoded (m := m) hd
    rw [hm]
    by_cases ha : (m.accept event).1 = .ok ()
    · rw [hok ha]
      exact h.accept ha
    · rw [hno ha, accept_refused ha]
      simpa using h

theorem followed (start : LogSeq) (payloads : List Bytes) :
    Followed start ((acceptingFrom start).after payloads) ((acceptingFrom start).accepted payloads) := by
  have hrun := Machine.final_history (m := EventMark.offer)
    (fun m _ outcomes => Followed start m (outcomes.filterMap taken))
    (fun m _ outcomes payload hm => by
      rw [filterMap_snoc]
      exact hm.offer payload)
    [] [] (followed_start start) payloads
  simp only [List.nil_append] at hrun
  exact hrun

theorem offer_taken {start : LogSeq} {m : EventMark} {seqs : List LogSeq} (h : Followed start m seqs)
    {payload : Bytes} {event : Event} (hd : Event.decode payload = .ok event) :
    taken (EventMark.offer m payload).2 = some event.seq ↔
      event.seq ≠ ceiling ∧ start ≤ event.seq ∧ ∀ seq ∈ seqs, seq < event.seq := by
  obtain ⟨-, hok, hno⟩ := offer_decoded (m := m) hd
  rw [← h.floor, and_comm, ← accept_ok]
  by_cases ha : (m.accept event).1 = .ok ()
  · simp [ha, hok ha]
  · simp [ha, hno ha]

theorem offer_refused {m : EventMark} {payload : Bytes}
    (h : taken (EventMark.offer m payload).2 = none) : (EventMark.offer m payload).1 = m := by
  cases hd : Event.decode payload with
  | error why => simp [EventMark.offer, hd]
  | ok event =>
    obtain ⟨hm, hok, -⟩ := offer_decoded (m := m) hd
    rw [hm]
    apply accept_refused
    intro ha
    rw [hok ha] at h
    cases h

/-- A subscription's mark accepts, of any stream, what lies at its start or above and rises. -/
theorem accepts_rising (request : Subscribe) (log : LogExtent) (ack : SubscribeAck)
    (h : SubscribeAck.answer request log = .ok ack) (payloads : List Bytes) :
    ((acceptingFrom ack.acceptedFromSeq).accepted payloads).Pairwise (· < ·) ∧
    (∀ seq ∈ (acceptingFrom ack.acceptedFromSeq).accepted payloads, ack.acceptedFromSeq ≤ seq) ∧
    (∀ before payload rest, payloads = before ++ payload :: rest →
      (∀ event, Event.decode payload = .ok event →
        (taken (offer ((acceptingFrom ack.acceptedFromSeq).after before) payload).2 = some event.seq ↔
          event.seq ≠ ceiling ∧ ack.acceptedFromSeq ≤ event.seq ∧
          ∀ seq ∈ (acceptingFrom ack.acceptedFromSeq).accepted before, seq < event.seq)) ∧
      (taken (offer ((acceptingFrom ack.acceptedFromSeq).after before) payload).2 = none →
        (offer ((acceptingFrom ack.acceptedFromSeq).after before) payload).1 =
          (acceptingFrom ack.acceptedFromSeq).after before)) ∧
    (∀ payload rest event, payloads = payload :: rest → Event.decode payload = .ok event →
      event.seq = ack.acceptedFromSeq → event.seq ≠ ceiling →
      ((acceptingFrom ack.acceptedFromSeq).accepted payloads).head? = some ack.acceptedFromSeq) ∧
    (request.replay = .liveOnly →
      ∀ seq ∈ (acceptingFrom ack.acceptedFromSeq).accepted payloads, log.newest < seq) ∧
    (ack.gap = true ↔ ∃ at', request.replay = .from at' ∧ at' < log.oldest) ∧
    (∀ read : ReadLog, request.replay = .from read.fromSeq →
      read.startAt log.oldest = ack.acceptedFromSeq) := by
  have hall := followed ack.acceptedFromSeq payloads
  refine ⟨hall.rising, hall.above, ?_, ?_, ?_, SubscribeAck.gap_iff h, ?_⟩
  · rintro before payload rest -
    have hbefore := followed ack.acceptedFromSeq before
    exact ⟨fun event hd => offer_taken hbefore hd, offer_refused⟩
  · rintro payload rest event rfl hd hseq hmax
    have htaken := (offer_taken (followed_start ack.acceptedFromSeq) hd).mpr
      ⟨hmax, UInt64.le_of_eq hseq.symm, by simp⟩
    rw [accepted, Machine.outputs_cons, List.filterMap_cons, htaken, ← hseq]
    rfl
  · intro hr seq hs
    have hstart := (SubscribeAck.answer_liveOnly h hr).1
    have hle := UInt64.le_iff_toNat_le.mp (hall.above seq hs)
    rw [UInt64.lt_iff_toNat_lt]
    omega
  · intro read hr
    exact (SubscribeAck.answer_from h hr).1.symm

theorem accepts_rising_behind :
    ∃ log ack, SubscribeAck.answer ⟨.from 3⟩ log = .ok ack ∧ ack.gap = true ∧
      ((acceptingFrom ack.acceptedFromSeq).accepted [[0xA3, 1, 5, 3, 1, 4, 0xA0],
        [0xA3, 1, 5, 3, 1, 4, 0xA0], [0xA3, 1, 8, 3, 1, 4, 0xA0]]).Pairwise (· < ·) := by
  refine ⟨⟨5, 9, .inr (by decide)⟩, _, rfl, rfl, ?_⟩
  exact (accepts_rising ⟨.from 3⟩ ⟨5, 9, .inr (by decide)⟩ _ rfl _).1

end EventMark

end Km43.Log
