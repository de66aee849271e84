import Km43.Framing.Forms
import Km43.Framing.Resync

namespace Km43.Framing

open Library Library.Stuffing

inductive Event
  | push (byte : UInt8)
  | tick (byte : Option UInt8) (sinceMs : UInt32)
  | discard
  deriving DecidableEq

namespace Event

def byte : Event → Option UInt8
  | push byte => some byte
  | tick byte _ => byte
  | discard => none

def silentMs : Event → ℕ
  | tick none sinceMs => sinceMs.toNat
  | tick (some _) _ | push _ | discard => 0

end Event

/-- What came since the last delimiter, abandoned run or discard, each byte after the silence in front
of it, and the silence since the last byte. -/
structure Line where
  run : List (ℕ × UInt8)
  silence : ℕ

namespace Line

def quiet : Line := ⟨[], 0⟩

def bytes (l : Line) : Bytes := l.run.map Prod.snd

def gaps (l : Line) : List ℕ := (l.run.map Prod.fst).tail

def hear (l : Line) (e : Event) (o : Received) : Line :=
  match e.byte with
  | some byte => if byte = delimiter then quiet else ⟨l.run ++ [(l.silence, byte)], 0⟩
  | none => ⟨if e = .discard ∨ o = .abandoned then [] else l.run, l.silence + e.silentMs⟩

structure Lawful (l : Line) (e : Event) (o : Received) : Prop where
  frame : ∀ envelope, o = .frame envelope ↔ e.byte = some delimiter ∧ l.run.length ≤ maxEncoded ∧
    unstuff l.bytes = .ok (covered envelope) ∧ envelope.length ≤ maxPayload
  unbroken : ∀ envelope, o = .frame envelope → ∀ gap ∈ l.gaps ++ [l.silence], gap < incompleteAfterMs
  overlong : o = .dropped .frameTooLong ↔ e.byte = some delimiter ∧ maxEncoded < l.run.length
  abandoned : o = .abandoned ↔
    e.byte = none ∧ e ≠ .discard ∧ l.run ≠ [] ∧ incompleteAfterMs ≤ l.silence + e.silentMs

@[simp] theorem bytes_length (l : Line) : l.bytes.length = l.run.length := List.length_map _

theorem bytes_snoc (run : List (ℕ × UInt8)) (gap silence : ℕ) (byte : UInt8) :
    (⟨run ++ [(gap, byte)], silence⟩ : Line).bytes = (⟨run, gap⟩ : Line).bytes ++ [byte] := by
  simp [bytes]

theorem gaps_snoc (l : Line) (byte : UInt8) {gap : ℕ}
    (h : gap ∈ (⟨l.run ++ [(l.silence, byte)], 0⟩ : Line).gaps) : l.run ≠ [] ∧ (gap ∈ l.gaps ∨ gap = l.silence) := by
  unfold gaps at h ⊢
  cases hrun : l.run with
  | nil =>
    rw [hrun] at h
    simp at h
  | cons first rest =>
    rw [hrun] at h
    simpa using h

end Line

theorem toLeBytes_fromLeBytes (low high : UInt8) : toLeBytes (fromLeBytes low high) = [low, high] := by
  have hlow := low.toNat_lt
  have hhigh := high.toNat_lt
  simp only [toLeBytes, fromLeBytes, UInt16.toNat_ofNat', List.cons.injEq, and_true]
  constructor <;> apply UInt8.toNat_inj.mp <;> rw [UInt8.toNat_ofNat'] <;> omega

theorem checked_iff {frame envelope : Bytes} :
    FrameReader.checked frame = .ok envelope ↔ frame = covered envelope := by
  constructor
  · intro h
    unfold FrameReader.checked at h
    dsimp only at h
    split at h
    · rename_i low high hdrop
      split_ifs at h with hcrc
      cases h
      have hsplit := List.take_append_drop (frame.length - crcBytes) frame
      rw [hdrop] at hsplit
      have hle : toLeBytes (crc16 (frame.take (frame.length - crcBytes))) = [low, high] := by
        rw [not_ne_iff.mp hcrc]
        exact toLeBytes_fromLeBytes low high
      rw [covered, hle, hsplit]
    · cases h
  · rintro rfl
    exact checked_covered envelope

namespace FrameReader

def serve : Machine FrameReader Event Received := fun r e =>
  match e with
  | .push byte => r.push byte
  | .tick byte sinceMs => r.tick byte sinceMs.toNat
  | .discard => (r.discard, .nothing)

def listen : Machine (FrameReader × Line) Event Received := fun s e =>
  (((s.1.serve e).1, s.2.hear e (s.1.serve e).2), (s.1.serve e).2)

def after (es : List Event) : FrameReader × Line := Machine.final listen (new, .quiet) es

/-- A byte of a run is pushed only while the clock stands at nothing. -/
def Cued (r : FrameReader) (e : Event) : Prop := ∀ byte, e = .push byte → byte ≠ delimiter → r.waiting = 0

/-- The reader stores the run of the line, as far as its buffer goes. -/
structure Stores (r : FrameReader) (l : Line) : Prop where
  len : r.len = min l.run.length maxEncoded
  overlong : r.overlong = decide (maxEncoded < l.run.length)
  encoded : r.encoded.held r.len = l.bytes.take maxEncoded

/-- No silence of the run reached the limit, and the clock tells of the last one at least. -/
structure Keeps (r : FrameReader) (l : Line) : Prop where
  stores : Stores r l
  gaps : ∀ gap ∈ l.gaps, gap < incompleteAfterMs
  clock : l.run ≠ [] → l.silence ≤ r.waiting ∧ l.silence < incompleteAfterMs

def Synced (r : FrameReader) (l : Line) : Prop := l.run ≠ [] → r.waiting = l.silence

variable {r : FrameReader} {l : Line}

theorem Stores.empty (hlen : r.len = 0) (hover : r.overlong = false) (silence : ℕ) : Stores r ⟨[], silence⟩ := by
  refine ⟨hlen, hover, ?_⟩
  rw [hlen]
  rfl

theorem Keeps.empty (hlen : r.len = 0) (hover : r.overlong = false) (silence : ℕ) : Keeps r ⟨[], silence⟩ :=
  ⟨.empty hlen hover silence, by simp [Line.gaps], fun h => (h rfl).elim⟩

theorem Stores.hold (h : Stores r l) (byte : UInt8) (gap silence : ℕ) :
    Stores (r.hold byte) ⟨l.run ++ [(gap, byte)], silence⟩ := by
  have hbytes : (⟨l.run ++ [(gap, byte)], silence⟩ : Line).bytes = l.bytes ++ [byte] := Line.bytes_snoc ..
  have hlen := h.len
  have hover := h.overlong
  unfold FrameReader.hold
  by_cases hroom : l.run.length < maxEncoded
  · obtain ⟨encoded, hset, hheld⟩ := r.encoded.set_held r.len [byte] (by
      rw [List.length_singleton]
      omega)
    rw [List.length_singleton] at hheld
    rw [hset]
    refine ⟨?_, ?_, ?_⟩
    · simp only [List.length_append, List.length_singleton]
      omega
    · rw [hover, decide_eq_decide]
      simp only [List.length_append, List.length_singleton]
      omega
    · have hwhole : l.bytes.take maxEncoded = l.bytes := List.take_of_length_le (by simpa using hroom.le)
      rw [hheld, h.encoded, hwhole, hbytes, List.take_of_length_le]
      simpa using hroom
  · have hset := r.encoded.set_none r.len [byte] (by
      rw [List.length_singleton]
      omega)
    rw [hset]
    refine ⟨?_, ?_, ?_⟩
    · simp only [List.length_append, List.length_singleton]
      omega
    · apply Eq.symm
      rw [decide_eq_true_eq]
      simp only [List.length_append, List.length_singleton]
      omega
    · rw [hbytes, List.take_append_of_le_length (by simpa using not_lt.mp hroom)]
      exact h.encoded

theorem hold_waiting (r : FrameReader) (byte : UInt8) : (r.hold byte).waiting = r.waiting := by
  unfold hold
  split <;> rfl

theorem Stores.take (h : Stores r l) (hrun : l.run ≠ []) (hfit : l.run.length ≤ maxEncoded) {s : FrameReader}
    (hs : s.encoded = r.encoded) (envelope : Bytes) :
    ((s.take r.len).1 = .ok envelope ↔
      unstuff l.bytes = .ok (covered envelope) ∧ envelope.length ≤ maxPayload) ∧
    (s.take r.len).1 ≠ .error .frameTooLong := by
  have hlen : r.len = l.run.length := by rw [h.len, min_eq_left hfit]
  have hne : l.bytes ≠ [] := by simpa [Line.bytes] using hrun
  have hbody : s.encoded.get 0 r.len = some l.bytes := by
    rw [hs, Buffer.get_held (Nat.zero_le _) (by omega), List.drop_zero, h.encoded, List.take_of_length_le]
    simpa using hfit
  simp only [FrameReader.take, hbody]
  cases hdecode : decode l.bytes s.decoded.items with
  | mk result out =>
    cases result with
    | error why =>
      refine ⟨⟨fun hok => by simp at hok, fun hok => ?_⟩, ?_⟩
      · obtain ⟨tail, hd, -⟩ := decode_eq s.decoded.items hne hok.1 (by
          rw [s.decoded.size, covered_length, maxDecoded]
          exact Nat.add_le_add_right hok.2 _)
        rw [hd] at hdecode
        cases hdecode
      · cases why <;> simp [takeError]
    | ok filled =>
      obtain ⟨-, hunstuff⟩ := decode_ok hdecode
      have hout : out.length = maxDecoded := by
        have hsize := decode_length l.bytes s.decoded.items
        rwa [hdecode, s.decoded.size] at hsize
      have hfilled : filled ≤ maxDecoded := by
        by_contra hover
        obtain ⟨tail, hd, hl⟩ := decode_eq s.decoded.items hne hunstuff (by
          rw [List.length_take, s.decoded.size]
          omega)
        rw [hd] at hdecode
        obtain ⟨hn, -⟩ := Prod.mk.inj hdecode
        have hn := Except.ok.inj hn
        rw [List.length_take] at hn
        omega
      have hget : (s.decodeInto l.bytes).decoded.get 0 filled = some (out.take filled) := by
        rw [Buffer.get_held (Nat.zero_le _) hfilled, List.drop_zero]
        simp only [decodeInto, Buffer.held, hdecode]
      simp only [hget]
      refine ⟨?_, ?_⟩
      · rw [checked_iff, hunstuff]
        constructor
        · intro hc
          refine ⟨by rw [hc], ?_⟩
          have hsize := congrArg List.length hc
          rw [covered_length, List.length_take] at hsize
          simp only [maxDecoded, crcBytes] at hfilled hsize
          omega
        · rintro ⟨hc, -⟩
          exact Except.ok.inj hc
      · unfold checked
        dsimp only
        split
        · split_ifs <;> simp
        · simp

theorem Stores.ended (h : Stores r l) :
    (∀ envelope, (r.push delimiter).2 = .frame envelope ↔ l.run.length ≤ maxEncoded ∧
      unstuff l.bytes = .ok (covered envelope) ∧ envelope.length ≤ maxPayload) ∧
    ((r.push delimiter).2 = .dropped .frameTooLong ↔ maxEncoded < l.run.length) ∧
    (r.push delimiter).2 ≠ .abandoned := by
  have hlen := h.len
  have hpush : r.push delimiter = _ := if_neg (not_not.mpr rfl)
  by_cases hlong : maxEncoded < l.run.length
  · have hover : r.overlong = true := by rw [h.overlong, decide_eq_true hlong]
    simp only [hpush, hover, if_true, hlong, reduceCtorEq, false_iff, not_and, ne_eq, not_false_eq_true, and_true]
    intro envelope hfit
    omega
  have hover : r.overlong = false := by rw [h.overlong, decide_eq_false hlong]
  by_cases hrun : l.run = []
  · have hzero : r.len = 0 := by simpa [hrun] using hlen
    have hbytes : l.bytes = [] := by simp [Line.bytes, hrun]
    simp only [hpush, hover, if_false, hzero, if_true, hbytes, unstuff, Bool.false_eq_true, reduceCtorEq, false_iff,
      hlong, ne_eq, not_false_eq_true, and_true]
    rintro envelope ⟨-, hok, -⟩
    have hsize := congrArg List.length (Except.ok.inj hok)
    rw [covered_length] at hsize
    simp [crcBytes] at hsize
  · have hpos := List.length_pos_of_ne_nil hrun
    have hmax : 0 < maxEncoded := by decide
    have hzero : r.len ≠ 0 := by omega
    have htake := h.take hrun (not_lt.mp hlong) (s := { r with waiting := 0, len := 0, overlong := false }) rfl
    simp only [hpush, hover, if_false, hzero, Bool.false_eq_true]
    cases hmade : ({ r with waiting := 0, len := 0, overlong := false } : FrameReader).take r.len with
    | mk result r' =>
      rw [hmade] at htake
      cases result with
      | ok envelope =>
        refine ⟨fun e => ?_, by simp [hlong], by simp⟩
        simpa [not_lt.mp hlong] using (htake e).1
      | error why =>
        refine ⟨fun e => ?_, ?_, by simp⟩
        · simpa [not_lt.mp hlong] using (htake e).1
        · have hwhy := (htake []).2
          simp only [Received.dropped.injEq, hlong, iff_false]
          simpa using hwhy

theorem Stores.clocked (h : Stores r l) (waiting silence : ℕ) :
    Stores { r with waiting := waiting } ⟨l.run, silence⟩ := ⟨h.len, h.overlong, h.encoded⟩

theorem serve_byte (r : FrameReader) {e : Event} {byte : UInt8} (h : e.byte = some byte) :
    ∃ waiting, (e = .push byte → waiting = r.waiting) ∧ (e ≠ .push byte → waiting = 0) ∧
      r.serve e = { r with waiting := waiting }.push byte := by
  cases e with
  | push b =>
    cases h
    exact ⟨r.waiting, fun _ => rfl, fun he => (he rfl).elim, rfl⟩
  | tick b sinceMs =>
    cases h
    exact ⟨0, fun he => (Event.noConfusion he), fun _ => rfl, rfl⟩
  | discard => cases h

theorem len_pos_iff (h : Stores r l) : r.len > 0 ↔ l.run ≠ [] := by
  have hmax : 0 < maxEncoded := by decide
  rw [h.len, ← List.length_pos_iff]
  omega

theorem Stores.abandoned (h : Stores r l) (e : Event) :
    (r.serve e).2 = .abandoned ↔ e.byte = none ∧ e ≠ .discard ∧ l.run ≠ [] ∧
      incompleteAfterMs ≤ min (r.waiting + e.silentMs) u32Max := by
  cases hbyte : e.byte with
  | some byte =>
    obtain ⟨waiting, -, -, hserve⟩ := r.serve_byte hbyte
    simp only [reduceCtorEq, false_and, iff_false]
    rw [hserve]
    by_cases hd : byte = delimiter
    · subst hd
      exact (h.clocked waiting l.silence).ended.2.2
    · rw [push, if_pos hd]
      exact Received.noConfusion
  | none =>
    cases e with
    | push b => cases hbyte
    | discard => simp [serve]
    | tick b sinceMs =>
      cases hbyte
      have hopen := len_pos_iff h
      simp only [serve, tick, hopen, Event.silentMs, true_and, ne_eq, reduceCtorEq, not_false_eq_true]
      split_ifs with hwait
      · simpa using hwait
      · simpa using hwait

theorem Keeps.answers (h : Keeps r l) (e : Event) :
    (∀ envelope, (r.serve e).2 = .frame envelope ↔ e.byte = some delimiter ∧ l.run.length ≤ maxEncoded ∧
      unstuff l.bytes = .ok (covered envelope) ∧ envelope.length ≤ maxPayload) ∧
    ((r.serve e).2 = .dropped .frameTooLong ↔ e.byte = some delimiter ∧ maxEncoded < l.run.length) := by
  cases hbyte : e.byte with
  | some byte =>
    obtain ⟨waiting, -, -, hserve⟩ := r.serve_byte hbyte
    rw [hserve]
    by_cases hd : byte = delimiter
    · subst hd
      obtain ⟨hframe, hover, -⟩ := (h.stores.clocked waiting l.silence).ended
      exact ⟨fun envelope => by simpa using hframe envelope, by simpa using hover⟩
    · rw [push, if_pos hd]
      simp [hd]
  | none =>
    cases e with
    | push b => cases hbyte
    | discard => simp [serve]
    | tick b sinceMs =>
      cases hbyte
      simp only [serve, tick]
      split_ifs <;> simp

theorem Keeps.unbroken (h : Keeps r l) {e : Event} {envelope : Bytes} (he : (r.serve e).2 = .frame envelope) :
    ∀ gap ∈ l.gaps ++ [l.silence], gap < incompleteAfterMs := by
  obtain ⟨-, -, hok, -⟩ := ((h.answers e).1 envelope).mp he
  have hrun : l.run ≠ [] := by
    intro hrun
    have hbytes : l.bytes = [] := by simp [Line.bytes, hrun]
    rw [hbytes, unstuff] at hok
    have hsize := congrArg List.length (Except.ok.inj hok)
    rw [covered_length] at hsize
    simp [crcBytes] at hsize
  intro gap hgap
  rw [List.mem_append, List.mem_singleton] at hgap
  obtain hgap | rfl := hgap
  · exact h.gaps gap hgap
  · exact (h.clock hrun).2

theorem Keeps.next (h : Keeps r l) (e : Event) : Keeps (r.serve e).1 (l.hear e (r.serve e).2) := by
  cases hbyte : e.byte with
  | some byte =>
    obtain ⟨waiting, -, -, hserve⟩ := r.serve_byte hbyte
    simp only [Line.hear, hbyte, hserve]
    by_cases hd : byte = delimiter
    · subst hd
      have hheld := push_delimiter { r with waiting := waiting }
      rw [if_pos rfl]
      exact .empty hheld.len hheld.overlong 0
    · rw [if_neg hd, push, if_pos hd]
      have hzero : 0 < incompleteAfterMs := by decide
      refine ⟨(h.stores.clocked waiting l.silence).hold byte _ _, ?_, fun _ => ⟨Nat.zero_le _, hzero⟩⟩
      intro gap hgap
      obtain ⟨hrun, hgap | rfl⟩ := l.gaps_snoc byte hgap
      · exact h.gaps gap hgap
      · exact (h.clock hrun).2
  | none =>
    cases e with
    | push b => cases hbyte
    | discard => exact .empty rfl rfl _
    | tick b sinceMs =>
      cases hbyte
      have hopen := len_pos_iff h.stores
      have hmax : incompleteAfterMs ≤ u32Max := by decide
      simp only [serve, tick, hopen, Line.hear, Event.byte, Event.silentMs]
      split_ifs with hwait hquit hquit
      · exact .empty rfl rfl _
      · simp at hquit
      · simp at hquit
      · refine ⟨h.stores.clocked _ _, h.gaps, fun hrun => ?_⟩
        obtain ⟨hclock, -⟩ := h.clock hrun
        have hshort := not_and.mp hwait hrun
        simp only [ge_iff_le, not_le] at hshort ⊢
        omega

theorem Synced.next (h : Keeps r l) (hs : Synced r l) {e : Event} (hc : Cued r e) :
    Synced (r.serve e).1 (l.hear e (r.serve e).2) := by
  intro hrun
  cases hbyte : e.byte with
  | some byte =>
    obtain ⟨waiting, hpushed, hticked, hserve⟩ := r.serve_byte hbyte
    simp only [Line.hear, hbyte] at hrun ⊢
    by_cases hd : byte = delimiter
    · rw [if_pos hd] at hrun
      exact (hrun rfl).elim
    · rw [if_neg hd, hserve, push, if_pos hd, hold_waiting]
      by_cases he : e = .push byte
      · exact (hpushed he).trans (hc byte he hd)
      · exact hticked he
  | none =>
    cases e with
    | push b => cases hbyte
    | discard => exact (hrun rfl).elim
    | tick b sinceMs =>
      cases hbyte
      have hopen := len_pos_iff h.stores
      have hmax : incompleteAfterMs ≤ u32Max := by decide
      simp only [serve, tick, hopen, Line.hear, Event.byte, Event.silentMs] at hrun ⊢
      split_ifs at hrun ⊢ with hwait hquit hquit
      · exact (hrun rfl).elim
      · simp at hquit
      · simp at hquit
      · have hsync := hs hrun
        have hshort := not_and.mp hwait hrun
        simp only [ge_iff_le, not_le] at hshort ⊢
        omega

theorem Synced.lawful (h : Keeps r l) (hs : Synced r l) (e : Event) : l.Lawful e (r.serve e).2 := by
  obtain ⟨hframe, hover⟩ := h.answers e
  have hmax : incompleteAfterMs ≤ u32Max := by decide
  refine ⟨hframe, fun _ he => h.unbroken he, hover, ?_⟩
  rw [h.stores.abandoned]
  refine and_congr_right fun _ => and_congr_right fun _ => and_congr_right fun hrun => ?_
  rw [hs hrun, le_min_iff]
  exact and_iff_left hmax

theorem Keeps.uncued (h : Keeps r l) {byte : UInt8} (hd : byte ≠ delimiter) (hw : r.waiting ≠ 0) :
    ∃ sinceMs : UInt32, ¬(l.hear (.push byte) (r.serve (.push byte)).2).Lawful (.tick none sinceMs)
      ((r.serve (.push byte)).1.serve (.tick none sinceMs)).2 := by
  let sinceMs := UInt32.ofNat (incompleteAfterMs - r.waiting)
  refine ⟨sinceMs, fun hlaw => ?_⟩
  have hnext := h.next (.push byte)
  have hmax : incompleteAfterMs ≤ u32Max := by decide
  have hsince : sinceMs.toNat = incompleteAfterMs - r.waiting := by
    rw [UInt32.toNat_ofNat']
    simp only [incompleteAfterMs]
    omega
  have hwaiting : (r.serve (.push byte)).1.waiting = r.waiting := by
    simp only [serve, push, if_pos hd, hold_waiting]
  have hheard : l.hear (.push byte) (r.serve (.push byte)).2 = ⟨l.run ++ [(l.silence, byte)], 0⟩ := if_neg hd
  rw [hheard] at hlaw hnext
  have hkept : Event.tick none sinceMs ≠ .discard := by simp
  have hgone := (hnext.stores.abandoned (.tick none sinceMs)).mpr ⟨rfl, hkept, by simp, by
    simp only [Event.silentMs, hsince, hwaiting]
    omega⟩
  obtain ⟨-, -, -, hlong⟩ := hlaw.abandoned.mp hgone
  simp only [Event.silentMs, hsince] at hlong
  have hpos : 0 < incompleteAfterMs := by decide
  omega

theorem keeps_after (es : List Event) : Keeps (after es).1 (after es).2 := by
  have step : ∀ (s : FrameReader × Line) (e : Event), Keeps s.1 s.2 → True →
      Keeps (listen s e).1.1 (listen s e).1.2 := fun s e h _ => h.next e
  have hnew : Keeps new .quiet := .empty rfl rfl 0
  exact Machine.final_invariant step hnew fun e (_ : e ∈ es) => trivial

theorem after_snoc (es : List Event) (e : Event) : after (es ++ [e]) = (listen (after es) e).1 := by
  rw [after, Machine.final_append]
  rfl

theorem synced_after {es : List Event} (h : ∀ before e, before ++ [e] <+: es → Cued (after before).1 e) :
    Synced (after es).1 (after es).2 := by
  induction es using List.reverseRecOn with
  | nil => exact fun hrun => (hrun rfl).elim
  | append_singleton es e ih =>
    rw [after_snoc]
    have hsynced := ih fun before e' hb => h before e' (hb.trans (List.prefix_append es [e]))
    exact hsynced.next (keeps_after es) (h es e (List.prefix_refl _))

/-- All along a run of calls, and whatever call comes next, the reader answers lawfully, exactly where
no byte of a run is pushed under a clock that stands at more than nothing. -/
theorem lawful_iff_cued (es : List Event) :
    (∀ before, before <+: es → ∀ e, (after before).2.Lawful e ((after before).1.serve e).2) ↔
      ∀ before e, before ++ [e] <+: es → Cued (after before).1 e := by
  constructor
  · rintro hlaw before e hb byte rfl hd
    by_contra hw
    obtain ⟨sinceMs, hbroken⟩ := (keeps_after before).uncued hd hw
    apply hbroken
    have hnext := hlaw _ hb (.tick none sinceMs)
    rwa [after_snoc] at hnext
  · intro hcued before hb e
    exact (synced_after fun first e' hf => hcued first e' (hf.trans hb)).lawful (keeps_after before) e

/-- A byte pushed on a line long idle is abandoned at once. -/
theorem idle_clock_carried :
    ¬∀ es : List Event, ∀ e, (after es).2.Lawful e ((after es).1.serve e).2 := by
  intro hlaw
  have hgone : ((after [.tick none 60, .push 1]).1.serve (.tick none 0)).2 = .abandoned := by decide +kernel
  have hsilent : (after [.tick none 60, .push 1]).2.silence = 0 := by decide +kernel
  obtain ⟨-, -, -, hlong⟩ := (hlaw [.tick none 60, .push 1] (.tick none 0)).abandoned.mp hgone
  rw [hsilent] at hlong
  revert hlong
  decide

end FrameReader

end Km43.Framing
