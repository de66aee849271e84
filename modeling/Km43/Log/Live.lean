import Km43.Cbor.Carried
import Km43.Cbor.Splice
import Km43.Log.Page
import Km43.Sealed.Room

namespace Km43.Log

open Library Cbor CborReader CborWriter

namespace Event

def encode (e : Event) (dst : ℕ) : Except EventError Bytes := do
  let (_, cbor) ← e.encodeInto (CborWriter.new dst)
  let (_, cbor) ← cbor.finish.mapError FromCbor.cbor
  .ok cbor.out

def leading (e : Event) : List (Key × Item) :=
  [(Key.ofNat 1, .ofNat e.seq.toNat)] ++ (e.time.map fun time => (Key.ofNat 2, Item.ofNat time.toNat)).toList ++
    [(Key.ofNat 3, .ofNat e.kind.toUInt64.toNat)]

def leadingCalls (e : Event) : List Call :=
  [.key 1, .u64 e.seq] ++ (e.time.toList.flatMap fun time => [.key 2, .u64 time]) ++ [.key 3, .u64 e.kind.toUInt64]

def item (e : Event) (body : Item) : Item := .ofPairs (e.leading ++ [(Key.ofNat 4, body)])

variable {e : Event} {body : Item} {d : ℕ}

theorem calls_eq (e : Event) : e.calls =
    .map (if e.time.isNone then 3 else 4) :: (e.leadingCalls ++ [.key 4, .raw e.body]) := by
  simp [calls, leadingCalls]

theorem leading_writes (e : Event) : WritesPairs d (writeAll e.leadingCalls) e.leading := by
  have hseq : WritesPairs d (writeAll [.key 1, .u64 e.seq]) [(Key.ofNat 1, .ofNat e.seq.toNat)] :=
    .keyed (k := 1) (by decide) (writes_one (c := .u64 e.seq) rfl)
  have hkind : WritesPairs d (writeAll [.key 3, .u64 e.kind.toUInt64]) [(Key.ofNat 3, .ofNat e.kind.toUInt64.toNat)] :=
    .keyed (k := 3) (by decide) (writes_one (c := .u64 e.kind.toUInt64) rfl)
  apply WritesPairs.both _ hkind
  apply hseq.both
  cases e.time with
  | none => exact .nil
  | some time => exact .keyed (k := 2) (by decide) (writes_one (c := .u64 time) rfl)

theorem leading_length (e : Event) :
    (if e.time.isNone then 3 else 4 : UInt64).toNat = e.leading.length + 1 := by
  unfold leading
  cases e.time <;> rfl

theorem leading_ascends (e : Event) (i : Item) : Ascends none (e.leading ++ [(Key.ofNat 4, i)]) := by
  unfold leading
  cases e.time <;> simp [Ascends, Key.ofNat, Key.rank, KeyRank.le]

theorem writes (hbody : body.Legal d) (hspell : body.spelling = e.body) :
    Writes (d + 1) (writeAll e.calls) (e.item body) := by
  rw [calls_eq]
  apply writes_mapCalls _ _ (e.leading_ascends body)
  · apply e.leading_writes.both
    exact .keyed (k := 4) (by decide) (writes_one (c := .raw e.body) ⟨hbody, hspell⟩)
  · rw [leading_length, List.length_append, List.length_singleton]

theorem body_legal {w w' : CborWriter} (hlevels : w.stack.length + 1 + d = maxDepth)
    (hok : writeAll e.calls w = .ok ((), w')) : ∃ i : Item, i.Legal d ∧ i.spelling = e.body := by
  rw [calls_eq] at hok
  exact spliced_last e.leading_writes e.leading_length ((ascends_append _ _ _).mp (e.leading_ascends (.bool true))).1
    hlevels hok

theorem encode_ok {dst : ℕ} {bytes : Bytes} (h : e.encode dst = .ok bytes) :
    ∃ w w' len, writeAll e.calls (.new dst) = .ok ((), w) ∧ CborWriter.finish w = .ok (len, w') ∧ w'.out = bytes := by
  obtain ⟨⟨⟨⟩, w⟩, hw, h⟩ := bind_ok.mp h
  obtain ⟨⟨len, w'⟩, hf, h⟩ := bind_ok.mp h
  cases h
  exact ⟨w, w', len, (encodeInto_tells e _ _).mp hw, mapError_ok.mp hf, rfl⟩

def numberBytes (n : ℕ) : ℕ := (Width.of n).bytes + 1

def timeBytes (time : Option UInt64) : ℕ := (time.map fun time => 1 + numberBytes time.toNat).getD 0

theorem item_length (hspell : body.spelling = e.body) :
    (e.item body).spelling.length =
      4 + numberBytes e.seq.toNat + timeBytes e.time + numberBytes e.kind.toNat + e.body.length := by
  have hlead := e.leading_length
  rw [item, Item.ofPairs, Item.spelling, Token.spelling, List.length_append, headBytes_length, Item.spellPairs_append,
    List.length_append, ← hspell]
  unfold leading timeBytes numberBytes
  cases e.time <;>
  · simp [Item.spellPairs, Item.spelling, Item.ofNat, Key.ofNat, Key.spelling, Key.token, Token.spelling, Width.of,
      Width.bytes]
    omega

end Event

namespace LogPage

def single (page : LogPage) (entry : Item) : Item :=
  .ofPairs [(Key.ofNat 1, .ofItems [entry]), (Key.ofNat 2, .ofNat page.nextSeq.toNat),
    (Key.ofNat 3, .ofNat page.oldestSeq.toNat), (Key.ofNat 4, .bool page.complete)]

variable {page : LogPage} {r : LogEntry} {body : Item} {d : ℕ}

theorem calls_single (h : page.entries.items = [r]) : page.calls =
    .map 4 :: ((.key 1 :: .array 1 :: r.calls) ++
      [.key 2, .u64 page.nextSeq, .key 3, .u64 page.oldestSeq, .key 4, .bool page.complete]) := by
  simp [calls, h]

theorem single_writes (h : page.entries.items = [r]) (hbody : body.Legal d) (hspell : body.spelling = r.body) :
    Writes (d + 3) (writeAll page.calls) (page.single (r.event.item body)) := by
  have hitem : Writes (d + 1) (writeAll r.calls) (r.event.item body) := r.event.writes hbody hspell
  have hitems : WritesItems (d + 1) (writeAll ([r].flatMap LogEntry.calls)) ([r].map fun _ => r.event.item body) := by
    apply WritesItems.flatMap
    intro s hs
    obtain rfl := List.mem_singleton.mp hs
    exact hitem
  rw [List.flatMap_singleton] at hitems
  have hentries : WritesPairs (d + 2) (writeAll (.key 1 :: .array 1 :: r.calls))
      [(Key.ofNat 1, .ofItems [r.event.item body])] :=
    .keyed (k := 1) (by decide) (writes_arrayCalls hitems rfl)
  have hnext : WritesPairs (d + 2) (writeAll [.key 2, .u64 page.nextSeq])
      [(Key.ofNat 2, .ofNat page.nextSeq.toNat)] :=
    .keyed (k := 2) (by decide) (writes_one (c := .u64 page.nextSeq) rfl)
  have holdest : WritesPairs (d + 2) (writeAll [.key 3, .u64 page.oldestSeq])
      [(Key.ofNat 3, .ofNat page.oldestSeq.toNat)] :=
    .keyed (k := 3) (by decide) (writes_one (c := .u64 page.oldestSeq) rfl)
  have hcomplete : WritesPairs (d + 2) (writeAll [.key 4, .bool page.complete])
      [(Key.ofNat 4, .bool page.complete)] :=
    .keyed (k := 4) (by decide) (writes_one (c := .bool page.complete) rfl)
  rw [calls_single h]
  refine writes_mapCalls (hentries.both (hnext.both (holdest.both hcomplete))) rfl ?_
  simp [Ascends, Key.ofNat, Key.rank, KeyRank.le]

theorem single_legal (h : page.entries.items = [r]) {capacity : ℕ} {w : CborWriter}
    (hok : writeAll page.calls (.new capacity) = .ok ((), w)) : ∃ i : Item, i.Legal 5 ∧ i.spelling = r.body := by
  rw [calls_single h] at hok
  obtain ⟨⟨⟩, w₁, h₁, hok⟩ := bind_run_ok.mp hok
  obtain ⟨⟨⟩, w₂, h₂, hok⟩ := bind_run_ok.mp hok
  obtain ⟨⟨⟩, w₃, h₃, hok⟩ := bind_run_ok.mp hok
  obtain ⟨-, -, -, hfirst⟩ := box_wrote h₁
  obtain ⟨-, level, base, m, hlevel, -, -, -, -, hkey⟩ := key_wrote h₂
  obtain ⟨-, -, -, hthird⟩ := box_wrote h₃
  rw [hfirst, stack_inside, owing_pos (by decide)] at hlevel
  cases hlevel
  have hrest : writeAll (r.calls ++ _) w₃ = .ok ((), w) := hok
  rw [writeAll_append] at hrest
  obtain ⟨⟨⟩, w₄, h₄, -⟩ := bind_run_ok.mp hrest
  have hstack : w₃.stack.length = 2 := by
    rw [hthird, stack_inside, owing_pos (by decide), List.length_cons, countTop_length, hkey, stack_eq,
      owing_pos (by simp)]
    rfl
  exact r.event.body_legal (by rw [hstack]; rfl) h₄

theorem single_length (hspell : body.spelling = r.body) :
    (page.single (r.event.item body)).spelling.length =
      11 + Event.numberBytes r.seq.toNat + Event.timeBytes r.time + Event.numberBytes r.kind.toNat + r.body.length +
        Event.numberBytes page.nextSeq.toNat + Event.numberBytes page.oldestSeq.toNat := by
  have hitem : (r.event.item body).spelling.length = _ := Event.item_length hspell
  have hevent : r.event.seq = r.seq ∧ r.event.time = r.time ∧ r.event.kind = r.kind ∧ r.event.body = r.body :=
    ⟨rfl, rfl, rfl, rfl⟩
  rw [hevent.1, hevent.2.1, hevent.2.2.1, hevent.2.2.2] at hitem
  unfold Event.numberBytes at hitem ⊢
  simp only [single, Item.ofPairs, Item.ofItems, Item.spelling, Item.spellPairs, Item.spellAll, Item.ofNat,
    Token.spelling, List.length_append, headBytes_length, List.length_cons, List.length_nil, hitem, Key.ofNat,
    Key.spelling, Key.token]
  simp [Width.of, Width.bytes]
  omega

end LogPage

/-- What a page of one record needs: three levels above the body, and its bytes. -/
structure FitsPage (seq : LogSeq) (time : Option UInt64) (kind : UInt16) (body : Bytes)
    (resumeAt oldestSeq : LogSeq) : Prop where
  levels : ∃ walk, (CborReader.new body).skip = .ok ((), walk) ∧ walk.nest.deepest + 3 ≤ maxDepth
  room : 11 + Event.numberBytes seq.toNat + Event.timeBytes time + Event.numberBytes kind.toNat + body.length +
    Event.numberBytes (max resumeAt.toNat (seq.toNat + 1)) + Event.numberBytes oldestSeq.toNat ≤ maxLogPageBytes

/-- A record that was sent live is read back from a page that carries it alone exactly where it fits one. -/
theorem live_pages_iff {seq : LogSeq} {time : Option UInt64} {kind : UInt16} {body : Bytes} {e : Event}
    {sent : Bytes} (hseq : seq ≠ ceiling) (hnew : Event.new seq time kind body = .ok e)
    (hsent : e.encode maxPayload = .ok sent) (resumeAt oldestSeq : LogSeq) (complete : Bool) :
    (∃ r page bytes, LogEntry.new seq time kind body = .ok r ∧
      (LogPage.new resumeAt oldestSeq complete).push r = .ok page ∧ page.encode maxLogPageBytes = .ok bytes ∧
      LogPage.decode bytes = .ok page ∧ page.entries.items = [r]) ↔
    FitsPage seq time kind body resumeAt oldestSeq := by
  have hentry : LogEntry.new seq time kind body = .ok (.fromEvent e) := by
    rw [LogEntry.new, hnew]
    rfl
  obtain ⟨rfl, rfl, rfl, rfl⟩ := Event.new_ok.mp hnew
  obtain ⟨page, hpush⟩ : ∃ page, (LogPage.new resumeAt oldestSeq complete).push (.fromEvent e) = .ok page :=
    (LogPage.new resumeAt oldestSeq complete).push_some hseq (Nat.zero_lt_succ 63)
  obtain ⟨-, hitems, hnext, hold, -⟩ := LogPage.push_ok hpush
  have hsingle : page.entries.items = [.fromEvent e] := hitems
  have hwidth : ∀ i : Item, i.spelling = e.body → (page.single (e.item i)).spelling.length =
      11 + Event.numberBytes e.seq.toNat + Event.timeBytes e.time + Event.numberBytes e.kind.toNat + e.body.length +
        Event.numberBytes (max resumeAt.toNat (e.seq.toNat + 1)) + Event.numberBytes oldestSeq.toNat := by
    intro i hspell
    have hlen := @LogPage.single_length page (.fromEvent e) i hspell
    rw [hnext, hold] at hlen
    exact hlen
  have hwrites : ∀ {d : ℕ} {i : Item}, i.Legal d → i.spelling = e.body →
      Writes (d + 3) (writeAll page.calls) (page.single (e.item i)) :=
    fun hi hspell => LogPage.single_writes (r := .fromEvent e) hsingle hi hspell
  constructor
  · rintro ⟨r, page', bytes, hr, hp, hencode, -, -⟩
    rw [hentry, Except.ok.injEq] at hr
    subst hr
    rw [hpush, Except.ok.injEq] at hp
    subst hp
    obtain ⟨w, w', len, hw, -, rfl⟩ := LogPage.encode_ok.mp hencode
    obtain ⟨i, hi, hspell⟩ := LogPage.single_legal hsingle hw
    obtain ⟨walk, hskip, -, hdeep⟩ := hi.walked (by decide)
    have hdepth := hi.depth_le
    rw [hspell] at hskip
    refine ⟨⟨walk, hskip, by unfold maxDepth; omega⟩, ?_⟩
    have hwrote := (hwrites hi hspell).of_ok ⟨rfl, rfl, fun _ => rfl⟩ hw
    have hwithin := (writeAll_grows hw (Nat.zero_le _)).within (Nat.zero_le _)
    rw [hwrote.out, hwrote.capacity] at hwithin
    rw [← hwidth i hspell]
    simpa [CborWriter.new] using hwithin
  · rintro ⟨⟨walk, hskip, hlevels⟩, hroom⟩
    obtain ⟨w, w', len, hw, -, -⟩ := Event.encode_ok hsent
    obtain ⟨i, hi, hspell⟩ := Event.body_legal (d := 7) rfl hw
    obtain ⟨walk', hskip', -, hdeep⟩ := hi.walked (by decide)
    rw [hspell, hskip, Except.ok.injEq, Prod.mk.injEq] at hskip'
    obtain ⟨-, rfl⟩ := hskip'
    have hshallow : i.Legal 5 := hi.of_depth (by unfold maxDepth at hlevels; omega)
    rw [← hwidth i hspell] at hroom
    obtain ⟨v, hv, hout, v', hfinish⟩ := (hwrites hshallow hspell).run hroom
    have hencode : page.encode maxLogPageBytes = .ok v'.out :=
      LogPage.encode_ok.mpr ⟨v, v', _, by rw [min_self]; exact hv, hfinish, rfl⟩
    have hceiling : ∀ r ∈ page.entries.items, r.seq ≠ ceiling := by
      intro r hr
      rw [hsingle, List.mem_singleton] at hr
      rw [hr]
      exact hseq
    exact ⟨_, page, _, hentry, hpush, hencode, LogPage.decode_encode hceiling hencode, hsingle⟩

def nestedBody : Bytes := [0xA1, 1, 0x81, 0x81, 0x81, 0x81, 0x80]

def pagedBody : Bytes := [0xA1, 1, 0x81, 0x81, 0x81, 0x80]

def wideBody : Bytes := [0xA1, 1, 0x59, 3, 0x7A] ++ List.replicate 890 0

def sentLive (body : Bytes) : Except EventError Bytes := do
  let event ← Event.new 1 none 0x0501 body
  event.encode maxPayload

def paged (body : Bytes) : Except ReadLogError Bytes := do
  let entry ← LogEntry.new 1 none 0x0501 body
  let page ← (LogPage.new 2 1 true).push entry
  page.encode maxLogPageBytes

theorem bodies_sent :
    (sentLive nestedBody).isOk = true ∧ paged nestedBody = .error (.entry (.cbor .depthExceeded)) ∧
      (sentLive wideBody).isOk = true ∧ paged wideBody = .error (.pageTooLong 896) ∧
      (sentLive pagedBody).isOk = true ∧
      ((CborReader.new pagedBody).skip.map fun walked => walked.2.nest.deepest) = .ok 5 := by
  decide +kernel

theorem live_not_paged :
    (sentLive nestedBody).isOk = true ∧ paged nestedBody = .error (.entry (.cbor .depthExceeded)) ∧
      (sentLive wideBody).isOk = true ∧ paged wideBody = .error (.pageTooLong 896) := by
  obtain ⟨hnested, hdeep, hwide, hlong, -⟩ := bodies_sent
  exact ⟨hnested, hdeep, hwide, hlong⟩

theorem live_pages_iff_nested : ∃ r page bytes, LogEntry.new 1 none 0x0501 pagedBody = .ok r ∧
    (LogPage.new 2 1 true).push r = .ok page ∧ page.encode maxLogPageBytes = .ok bytes ∧
    LogPage.decode bytes = .ok page ∧ page.entries.items = [r] := by
  obtain ⟨-, -, -, -, hlive, hwalked⟩ := bodies_sent
  obtain ⟨sent, hsent⟩ : ∃ sent, sentLive pagedBody = .ok sent := by
    cases h : sentLive pagedBody with
    | error why =>
      rw [h] at hlive
      cases hlive
    | ok sent => exact ⟨sent, rfl⟩
  obtain ⟨e, hnew, hsent⟩ := bind_ok.mp hsent
  refine (live_pages_iff (by decide) hnew hsent 2 1 true).mpr ⟨?_, by decide⟩
  cases h : (CborReader.new pagedBody).skip with
  | error why =>
    rw [h] at hwalked
    cases hwalked
  | ok walked =>
    rw [h] at hwalked
    have hdeep : walked.2.nest.deepest = 5 := Except.ok.inj hwalked
    exact ⟨walked.2, rfl, by rw [hdeep]; decide⟩

def envelopeBytes : ℕ := 11
def sealedControllerContentsBytes : ℕ := 30
def eventFramingBytes : ℕ := envelopeBytes + sealedControllerContentsBytes
def eventFixedBytes : ℕ := 25
def eventRecordMapHeaderBytes : ℕ := 1

theorem maxEventBody_eq :
    maxEventBody = maxPayload - eventFramingBytes - eventRecordMapHeaderBytes - eventFixedBytes := rfl

theorem walkPairs_reads : Reads (fun _ => True) maxDepth walkPairs
    fun i => i.pairs?.bind fun pairs => foldPairs (fun _ s _ => some s) pairs () := by
  have hsteps : Steps (fun _ => True) 7 (fun _ => (passOver : Unit → Read EventError Unit)) (fun _ s _ => some s)
      (fun _ => False) fun _ s => s := ⟨fun _ _ h => h.elim, fun _ _ _ => rfl⟩
  have hfills : Fills (fun _ (s : Unit) (_ : Item) => some s) (fun _ => False) (fun _ _ => False) fun _ s => s :=
    ⟨fun _ _ _ _ h => h.elim, fun _ _ _ _ => rfl, fun _ _ _ _ h => h.elim⟩
  exact Reads.mapFrom (fun _ => trivial) hsteps hfills fun _ h => h.elim

theorem shaped_nests {body : Bytes} (h : shaped body = .ok ()) : body.length ≤ maxEventBody ∧ Nests maxDepth body := by
  unfold shaped at h
  split_ifs at h with hlong
  have hdecode : decodeBody walkPairs body = .ok () := by
    obtain ⟨⟨⟨⟩, cbor⟩, hwalk, hfinish⟩ := bind_ok.mp h
    exact bind_ok.mpr ⟨((), cbor), hwalk, bind_ok.mpr ⟨(), hfinish, rfl⟩⟩
  obtain ⟨i, hi, hspell, -⟩ := (decodeBody_ok walkPairs_reads).mp hdecode
  exact ⟨not_lt.mp hlong, i, hi, hspell⟩

namespace Event

variable {e : Event}

theorem encode_iff (e : Event) {i : Item} (hi : i.Legal 7) (hspell : i.spelling = e.body) {dst : ℕ} {bytes : Bytes} :
    e.encode dst = .ok bytes ↔ bytes = (e.item i).spelling ∧ (e.item i).spelling.length ≤ dst :=
  encodeBody_item e.encodeInto_tells (e.writes hi hspell)

theorem decode_encode {dst : ℕ} (hdst : dst < 2 ^ 64) {bytes : Bytes} (h : e.encode dst = .ok bytes) :
    decode bytes = .ok e := by
  obtain ⟨w, w', len, hw, hf, rfl⟩ := encode_ok h
  obtain ⟨r, hread, hfinish⟩ := (decodeFrom_takes e).run hdst hw hf
  rw [finish_out hf]
  exact bind_ok.mpr ⟨(e, r), hread, bind_ok.mpr ⟨(), mapError_ok.mpr hfinish, rfl⟩⟩

theorem item_fits (e : Event) {i : Item} (hspell : i.spelling = e.body) (hbody : e.body.length ≤ maxEventBody) :
    (e.item i).spelling.length ≤ maxPayload - eventFramingBytes := by
  have hseq : numberBytes e.seq.toNat ≤ 9 := by
    simpa [numberBytes] using (headBytes_le .unsigned (n := e.seq.toNat)).1
  have htime : timeBytes e.time ≤ 10 := by
    unfold timeBytes
    cases e.time with
    | none => exact Nat.zero_le _
    | some time =>
      have htime := (headBytes_le .unsigned (n := time.toNat)).1
      simp only [headBytes_length, Option.map_some, Option.getD_some, numberBytes] at htime ⊢
      omega
  have hkind : numberBytes e.kind.toNat ≤ 3 := by
    simpa [numberBytes] using (headBytes_le .unsigned).2.2.1 (Nat.le_of_lt_succ e.kind.toNat_lt)
  rw [item_length hspell]
  simp only [maxEventBody, maxPayload, eventFramingBytes, envelopeBytes, sealedControllerContentsBytes] at *
  omega

/-- An event is encoded where its framing leaves room, decoded back, and sealed into a payload. -/
def Sendable (e : Event) : Prop :=
  ∃ bytes, e.encode (maxPayload - eventFramingBytes) = .ok bytes ∧ decode bytes = .ok e ∧
    ∀ aead : Sealed.Aead, aead.Encrypts → ∀ (sealer : Sealed.ControllerSealer) (session : Sealed.SessionId)
      (dst : Bytes), sealer.next ≠ Sealed.lastNonce → dst.length = maxPayload →
      ∃ len, len ≤ maxPayload ∧ (sealer.seal aead ⟨.eventResponse, session, 0⟩ bytes dst).1.result = .ok len

theorem sealed_fits {aead : Sealed.Aead} (haead : aead.Encrypts) {sealer : Sealed.ControllerSealer}
    (session : Sealed.SessionId) {inner dst : Bytes} (hnext : sealer.next ≠ Sealed.lastNonce)
    (hinner : inner.length ≤ maxPayload - eventFramingBytes) (hdst : dst.length = maxPayload) :
    ∃ len, len ≤ maxPayload ∧ (sealer.seal aead ⟨.eventResponse, session, 0⟩ inner dst).1.result = .ok len := by
  have hcheck : Sealed.Direction.check ⟨.eventResponse, session, 0⟩ = .ok .controller := rfl
  have hlen : (List.replicate (inner.length + Sealed.tagBytes) (0 : UInt8)).length = inner.length + 16 :=
    List.length_replicate
  simp only [maxPayload, eventFramingBytes, envelopeBytes, sealedControllerContentsBytes] at hinner hdst ⊢
  have hkind : (Item.ofNat (4 : ℕ)).spelling.length ≤ 1 := ofNat_length_inline (by decide)
  have hid : (Item.ofNat (0 : ℕ)).spelling.length ≤ 1 := ofNat_length_inline (by decide)
  have henvelope : (Sealed.envelopeItem ⟨.eventResponse, session, 0⟩ (some sealer.next)
      (List.replicate (inner.length + Sealed.tagBytes) 0)).spelling.length ≤ dst.length := by
    refine (Sealed.envelope_length _ _ (by omega)).trans ?_
    rw [hlen, hdst]
    exact Nat.le_trans (Nat.add_le_add_right (Nat.add_le_add_right
      (Nat.add_le_add (Nat.add_le_add_left hkind 10) hid) _) _) (by omega)
  obtain ⟨len, hle, hok⟩ := Sealed.write_ok haead sealer.key sealer.next.toNat henvelope
  refine ⟨len, hle.trans hdst.le, ?_⟩
  simp only [Sealed.ControllerSealer.seal, hcheck, ne_eq, not_true_eq_false, if_false, if_neg hnext]
  exact hok

/-- What `new` accepts can be sent where the body leaves a level for the event around it. -/
theorem sendable_iff {seq : LogSeq} {time : Option UInt64} {kind : UInt16} {body : Bytes}
    (h : new seq time kind body = .ok e) : e.Sendable ↔ Nests (maxDepth - 1) body := by
  obtain ⟨-, -, -, rfl⟩ := new_ok.mp h
  obtain ⟨hshort, -⟩ := shaped_nests e.shapely
  constructor
  · rintro ⟨bytes, hencode, -⟩
    obtain ⟨w, w', len, hw, -, -⟩ := encode_ok hencode
    exact body_legal rfl hw
  · rintro ⟨i, hi, hspell⟩
    have hfits := e.item_fits hspell hshort
    have hencode := (e.encode_iff hi hspell).mpr ⟨rfl, hfits⟩
    refine ⟨_, hencode, decode_encode (by decide) hencode, ?_⟩
    intro aead haead sealer session dst hnext hdst
    exact sealed_fits haead session hnext hfits hdst

def deepest : Bytes := (List.replicate 7 [0xA1, 0x00]).flatten ++ [0xA0]

theorem sample_bodies :
    shaped [0xA1, 0x00, 0xA0] = .ok () ∧ shaped deepest = .ok () ∧
      (new 1 none 0x0501 deepest >>= fun e => e.encode (maxPayload - eventFramingBytes)) =
        .error (.cbor .depthExceeded) := by
  decide +kernel

theorem shaped_shallow : shaped [0xA1, 0x00, 0xA0] = .ok () := sample_bodies.1

theorem sendable_shallow : (Event.mk 1 none 0x0501 [0xA1, 0x00, 0xA0] shaped_shallow).Sendable ↔
    Nests (maxDepth - 1) [0xA1, 0x00, 0xA0] :=
  sendable_iff (new_ok.mpr ⟨rfl, rfl, rfl, rfl⟩ : new 1 none 0x0501 [0xA1, 0x00, 0xA0] = .ok _)

theorem deepest_unsendable :
    ¬∀ (seq : LogSeq) (time : Option UInt64) (kind : UInt16) (body : Bytes) (e : Event),
      new seq time kind body = .ok e → e.Sendable := by
  intro hsent
  obtain ⟨-, hshaped, hrefused⟩ := sample_bodies
  have hnew : new 1 none 0x0501 deepest = .ok ⟨1, none, 0x0501, deepest, hshaped⟩ :=
    new_ok.mpr ⟨rfl, rfl, rfl, rfl⟩
  obtain ⟨bytes, hencode, -⟩ := hsent _ _ _ _ _ hnew
  rw [hnew] at hrefused
  change Event.encode _ _ = _ at hrefused
  rw [hrefused] at hencode
  cases hencode

end Event

end Km43.Log
