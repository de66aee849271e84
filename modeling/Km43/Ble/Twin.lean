import Km43.Ble.Link
import Km43.Ts.Ble

namespace Km43.Ble

open Library

inductive SenderOp
  | enqueue (message : Bytes) (limit : BleValueLimit)
  | fragment (out : Bytes)
  | accepted
  | reset

inductive ReceiverOp
  | receive (value : Bytes) (mtu : BleMtu) (nowMs : ℕ)
  | expire (nowMs : ℕ)
  | reset

def ReceiverOp.Representable : ReceiverOp → Prop
  | .receive _ _ nowMs | .expire nowMs => nowMs ≤ Ts.Number.maxSafe.toNat
  | .reset => True

structure Answer (α : Type) where
  result : Except Ts.Thrown α
  out : Bytes

def BleError.failure : BleError → Ts.Ble.BleFailure
  | .mtu => .mtu
  | .valueLimit => .valueLimit
  | .length => .length
  | .sequence => .sequence
  | .busy => .busy
  | .buffer => .buffer
  | .idle => .idle

def named {α : Type} : Except BleError α → Except Ts.Ble.BleFailure α
  | .ok a => .ok a
  | .error e => .error e.failure

def received : Except BleError (Option Bytes) → Ts.Ble.BleReceiveResult
  | .ok none => .pending
  | .ok (some message) => .message message
  | .error e => .rejected e.failure

abbrev SenderAnswer := Answer (Except Ts.Ble.BleFailure ℕ)

def BleSender.step : Machine BleSender SenderOp SenderAnswer
  | s, .enqueue message limit =>
    let (result, s) := s.enqueue message limit
    (s, ⟨.ok ((named result).map fun _ => 0), []⟩)
  | s, .fragment out =>
    let (result, s, out) := s.fragment out
    (s, ⟨.ok (named result), out⟩)
  | s, .accepted =>
    let (result, s) := s.accepted
    (s, ⟨.ok ((named result).map fun _ => 0), []⟩)
  | s, .reset => (s.reset, ⟨.ok (.ok 0), []⟩)

def BleReceiver.step : Machine BleReceiver ReceiverOp (Except Ts.Thrown Ts.Ble.BleReceiveResult)
  | r, .receive value mtu nowMs =>
    let (result, r) := r.receive value mtu nowMs
    (r, .ok (received result))
  | r, .expire nowMs => (r.expire nowMs, .ok .pending)
  | r, .reset => (r.reset, .ok .pending)

end Km43.Ble

namespace Km43.Ts.Ble

open Library Km43.Ble

def BleValueLimit.of (limit : Km43.Ble.BleValueLimit) : BleValueLimit :=
  ⟨limit.valueLen, limit.bounded⟩

def BleSender.step : Machine BleSender SenderOp SenderAnswer
  | s, .enqueue message limit =>
    let (result, s) := s.enqueue message (.of limit)
    (s, ⟨result.map fun answer => answer.map fun _ => 0, []⟩)
  | s, .fragment out =>
    let (result, s, out) := s.fragment out
    (s, ⟨result, out⟩)
  | s, .accepted =>
    let (result, s) := s.accepted
    (s, ⟨.ok (result.map fun _ => 0), []⟩)
  | s, .reset => (s.reset, ⟨.ok (.ok 0), []⟩)

def BleReceiver.step : Machine BleReceiver ReceiverOp (Except Thrown BleReceiveResult)
  | r, .receive value mtu nowMs =>
    let (result, r) := r.receive value (.int mtu.mtu) (.int nowMs)
    (r, result)
  | r, .expire nowMs => (r.expire (.int nowMs), .ok .pending)
  | r, .reset => (r.reset, .ok .pending)

end Km43.Ts.Ble

namespace Km43.Ble

open Library

theorem valueLength_eq (mtu : BleMtu) : Ts.Ble.bleValueLength (.int mtu.mtu) = some mtu.valueLen := by
  have h := mtu.supported
  simp only [Ts.Ble.bleValueLength, BleMtu.valueLen]
  rw [if_pos (by omega), Int.toNat_natCast]

def Active.twin (a : Active) : Ts.Ble.Active := ⟨a.id.toNat, a.expected.toNat, a.lastMs⟩

structure Receivers (r : BleReceiver) (t : Ts.Ble.BleReceiver) : Prop where
  bytes : t.bytes = r.bytes
  length : t.length = r.len
  active : t.active = r.active.map Active.twin

theorem Receivers.reset {r : BleReceiver} {t : Ts.Ble.BleReceiver} (h : Receivers r t) :
    Receivers r.reset t.reset := ⟨h.bytes, rfl, rfl⟩

theorem safe_of_le {nowMs : ℕ} (h : nowMs ≤ Ts.Number.maxSafe.toNat) :
    (Ts.Number.int nowMs).isSafeInteger = true := by
  refine decide_eq_true ?_
  simp only [Ts.Number.maxSafe] at h ⊢
  omega

theorem Receivers.expire {r : BleReceiver} {t : Ts.Ble.BleReceiver} (h : Receivers r t) {nowMs : ℕ}
    (hn : nowMs ≤ Ts.Number.maxSafe.toNat) :
    Receivers (r.expire nowMs) (t.expire (.int nowMs)) := by
  have hsafe := safe_of_le hn
  have ha := h.active
  cases hr : r.active with
  | none =>
    simp only [hr, Option.map_none] at ha
    simpa only [BleReceiver.expire, Ts.Ble.BleReceiver.expire, hr, ha] using h
  | some a =>
    simp only [hr, Option.map_some] at ha
    have hiff : (nowMs < a.lastMs ∨ nowMs - a.lastMs ≥ timeoutMs) ↔
        ((Ts.Number.int nowMs).isSafeInteger = false ∨ (nowMs : ℤ) < a.twin.startedAt ∨
          (nowMs : ℤ) - a.twin.startedAt ≥ timeoutMs) := by
      simp only [hsafe, Active.twin, Bool.true_eq_false, false_or, ge_iff_le]
      omega
    simp only [BleReceiver.expire, Ts.Ble.BleReceiver.expire, hr, ha]
    by_cases hold : nowMs < a.lastMs ∨ nowMs - a.lastMs ≥ timeoutMs
    · rw [if_pos hold, if_pos (hiff.mp hold)]
      exact h.reset
    · rw [if_neg hold, if_neg (hiff.not.mp hold)]
      exact h

theorem Receivers.forId {r : BleReceiver} {t : Ts.Ble.BleReceiver} (h : Receivers r t) (id : UInt8) :
    Receivers (r.forId id) (t.forId id.toNat) := by
  have ha := h.active
  cases hr : r.active with
  | none =>
    simp only [hr, Option.map_none] at ha
    simpa only [BleReceiver.forId, Ts.Ble.BleReceiver.forId, hr, ha] using h
  | some a =>
    simp only [hr, Option.map_some] at ha
    have hiff : a.twin.id ≠ id.toNat ↔ a.id ≠ id := not_congr UInt8.toNat_inj
    simp only [BleReceiver.forId, Ts.Ble.BleReceiver.forId, hr, ha]
    by_cases hid : a.id ≠ id
    · rw [if_pos hid, if_pos (hiff.mpr hid)]
      exact h.reset
    · rw [if_neg hid, if_neg (hiff.not.mpr hid)]
      exact h

theorem Receivers.expecting {r : BleReceiver} {t : Ts.Ble.BleReceiver} (h : Receivers r t)
    (index : UInt8) :
    match r.expecting index with
    | none => index.toNat ≠ t.expected
    | some r' => index.toNat = t.expected ∧
        Receivers r' (if t.active = none then { t with length := 0 } else t) := by
  have ha := h.active
  cases hr : r.active with
  | none =>
    simp only [hr, Option.map_none] at ha
    have hiff : index.toNat = t.expected ↔ index = 0 := by
      simp only [Ts.Ble.BleReceiver.expected, ha, Option.map_none, Option.getD_none]
      exact ⟨fun hz => UInt8.toNat_inj.mp (by simpa using hz), fun hz => by simp [hz]⟩
    simp only [BleReceiver.expecting, hr]
    by_cases hz : index = 0
    · rw [if_neg (not_not.mpr hz), if_pos ha]
      exact ⟨hiff.mpr hz, h.bytes, rfl, by simp [ha]⟩
    · rw [if_pos hz]
      exact hiff.not.mpr hz
  | some a =>
    simp only [hr, Option.map_some] at ha
    have hiff : index.toNat = t.expected ↔ a.expected = index := by
      simp only [Ts.Ble.BleReceiver.expected, ha, Option.map_some, Option.getD_some, Active.twin]
      exact ⟨fun hz => UInt8.toNat_inj.mp hz.symm, fun hz => by rw [hz]⟩
    simp only [BleReceiver.expecting, hr]
    by_cases he : a.expected = index
    · rw [if_neg (not_not.mpr he), if_neg (by simp [ha])]
      exact ⟨hiff.mpr he, h⟩
    · rw [if_pos he]
      exact hiff.not.mpr he

theorem indexMask_toNat (flags : UInt8) :
    flags.toNat &&& indexMask.toNat = (flags &&& indexMask).toNat := (UInt8.toNat_and _ _).symm

theorem lastFlag_toNat (flags : UInt8) :
    decide (flags.toNat &&& lastFlag.toNat ≠ 0) = decide (flags &&& lastFlag ≠ 0) := by
  rw [← UInt8.toNat_and]
  exact decide_eq_decide.mpr (not_congr (UInt8.toNat_inj (b := 0)))

theorem masked_lt (flags : UInt8) : (flags &&& indexMask).toNat < 128 := by
  rw [UInt8.toNat_and]
  exact Nat.lt_succ_of_le Nat.and_le_right

theorem Receivers.store {r : BleReceiver} {t : Ts.Ble.BleReceiver} (h : Receivers r t)
    (id flags : UInt8) (last : Bool) (data : Bytes) (nowMs : ℕ) :
    match r.store id (flags &&& indexMask) last data nowMs with
    | (.ok done, r') => ∃ t', t.store id.toNat (flags &&& indexMask).toNat last data nowMs =
        (.ok (received (.ok (if done then r'.bytes.get 0 r'.len else none))), t') ∧ Receivers r' t'
    | (.error e, r') => ∃ t', t.store id.toNat (flags &&& indexMask).toNat last data nowMs =
        (.ok (received (.error e)), t') ∧ Receivers r'.reset t' := by
  have hmask : (flags &&& indexMask).toNat = indexMask.toNat ↔ flags &&& indexMask = indexMask :=
    UInt8.toNat_inj
  have hlt := masked_lt flags
  generalize flags &&& indexMask = index at hmask hlt
  simp only [BleReceiver.store, Ts.Ble.BleReceiver.store, h.length, h.bytes]
  by_cases hshort : last = false ∧ (index = indexMask ∨ r.len + data.length ≥ maxPayload)
  · have hts : r.len + data.length > maxPayload ∨ (last = false ∧
        (r.len + data.length = maxPayload ∨ index.toNat = indexMask.toNat)) := by
      rw [hmask]
      obtain ⟨hl, hi | hg⟩ := hshort
      · exact .inr ⟨hl, .inr hi⟩
      · rcases Nat.eq_or_lt_of_le hg with he | hlt
        · exact .inr ⟨hl, .inl he.symm⟩
        · exact .inl hlt
    rw [if_pos hshort, if_pos hts]
    exact ⟨_, rfl, h.reset⟩
  · rw [if_neg hshort]
    by_cases hlong : maxPayload < r.len + data.length
    · rw [if_pos (.inl hlong), Buffer.set_none _ _ _ hlong]
      exact ⟨_, rfl, h.reset⟩
    · obtain ⟨bytes, hset, -⟩ := r.bytes.set_held r.len data (by omega)
      have hts : ¬(r.len + data.length > maxPayload ∨ (last = false ∧
          (r.len + data.length = maxPayload ∨ index.toNat = indexMask.toNat))) := by
        rw [hmask]
        rintro (hg | ⟨hl, he | hi⟩)
        · exact hlong hg
        · exact hshort ⟨hl, .inr he.ge⟩
        · exact hshort ⟨hl, .inl hi⟩
      rw [if_neg hts, hset]
      cases last with
      | true =>
        have hget : bytes.get 0 (r.len + data.length) = some (bytes.held (r.len + data.length)) := by
          rw [Buffer.get_held (Nat.zero_le _) (by omega), List.drop_zero]
        simp only [if_true, hget]
        exact ⟨_, rfl, rfl, rfl, rfl⟩
      | false =>
        obtain ⟨next, hnext, hnat⟩ := nextIndex_some (show index.toNat < 255 by omega)
        simp only [Bool.false_eq_true, if_false, hnext]
        exact ⟨_, rfl, rfl, rfl, by simp [Active.twin, hnat]⟩

theorem Receivers.receive {r : BleReceiver} {t : Ts.Ble.BleReceiver} (h : Receivers r t)
    (value : Bytes) (mtu : BleMtu) {nowMs : ℕ} (hn : nowMs ≤ Ts.Number.maxSafe.toNat) :
    (t.receive value (.int mtu.mtu) (.int nowMs)).1 = .ok (received (r.receive value mtu nowMs).1) ∧
      Receivers (r.receive value mtu nowMs).2 (t.receive value (.int mtu.mtu) (.int nowMs)).2 := by
  have he := h.expire hn
  simp only [BleReceiver.receive, Ts.Ble.BleReceiver.receive, valueLength_eq]
  generalize r.expire nowMs = r₁ at he
  generalize t.expire (.int nowMs) = t₁ at he
  rcases value with _ | ⟨id, _ | ⟨flags, data⟩⟩
  · exact ⟨rfl, he.reset⟩
  · exact ⟨rfl, he.reset⟩
  · have hclock : ¬((Ts.Number.int nowMs).isSafeInteger = false ∨ (nowMs : ℤ) < 0) := by
      simp [safe_of_le hn]
    by_cases hbad : (id :: flags :: data).length < 3 ∨ (id :: flags :: data).length > mtu.valueLen
    · rw [BleReceiver.append, if_pos hbad]
      simp only [Ts.Ble.BleReceiver.accept]
      rw [if_pos (by tauto)]
      exact ⟨rfl, he.reset⟩
    · rw [BleReceiver.append, if_neg hbad]
      simp only [Ts.Ble.BleReceiver.accept]
      rw [if_neg (by tauto)]
      simp only [indexMask_toNat, lastFlag_toNat]
      have hf := he.forId id
      have hx := hf.expecting (flags &&& indexMask)
      cases hr : (r₁.forId id).expecting (flags &&& indexMask) with
      | none =>
        simp only [hr] at hx
        rw [if_pos hx]
        exact ⟨rfl, hf.reset⟩
      | some r₂ =>
        simp only [hr] at hx
        rw [if_neg (not_not.mpr hx.1)]
        have hs := hx.2.store id flags (decide (flags &&& lastFlag ≠ 0)) data nowMs
        cases hst : r₂.store id (flags &&& indexMask) (decide (flags &&& lastFlag ≠ 0)) data nowMs with
        | mk result r₃ =>
          rw [hst] at hs
          cases result with
          | error e =>
            obtain ⟨t', ht, hrel⟩ := hs
            simp only [ht, hst]
            exact ⟨trivial, hrel⟩
          | ok done =>
            obtain ⟨t', ht, hrel⟩ := hs
            simp only [ht, hst]
            cases done <;> exact ⟨rfl, hrel⟩

theorem Receivers.step (r : BleReceiver) (t : Ts.Ble.BleReceiver) (op : ReceiverOp)
    (h : Receivers r t) (hop : op.Representable) :
    (r.step op).2 = (t.step op).2 ∧ Receivers (r.step op).1 (t.step op).1 := by
  cases op with
  | receive value mtu nowMs =>
    obtain ⟨hr, hs⟩ := h.receive value mtu hop
    exact ⟨hr.symm, hs⟩
  | expire nowMs => exact ⟨rfl, h.expire hop⟩
  | reset => exact ⟨rfl, h.reset⟩

def BlePending.twin (p : BlePending) : Ts.Ble.Pending :=
  ⟨p.len, p.offset, p.index.toNat, p.limit.valueLen, p.offered⟩

structure Senders (s : BleSender) (t : Ts.Ble.BleSender) : Prop where
  bytes : t.bytes = s.bytes
  nextId : t.nextId = s.nextId.toNat
  pending : t.pending = s.pending.map BlePending.twin
  holds : ∀ p, s.pending = some p → ∃ message, p.Holds s.bytes message

theorem Senders.enqueue {s : BleSender} {t : Ts.Ble.BleSender} (h : Senders s t) (message : Bytes)
    (limit : BleValueLimit) :
    (t.enqueue message (.of limit)).1 = .ok (named (s.enqueue message limit).1) ∧
      Senders (s.enqueue message limit).2 (t.enqueue message (.of limit)).2 := by
  have hp := h.pending
  cases hs : s.pending with
  | some p =>
    simp only [hs, Option.map_some] at hp
    simp only [BleSender.enqueue, Ts.Ble.BleSender.enqueue, hs, hp]
    exact ⟨rfl, h⟩
  | none =>
    simp only [hs, Option.map_none] at hp
    simp only [BleSender.enqueue, Ts.Ble.BleSender.enqueue, hs, hp, List.length_eq_zero_iff, h.bytes]
    split_ifs with hbad
    · exact ⟨rfl, h⟩
    · simp only [not_or, Nat.not_lt] at hbad
      obtain ⟨bytes, hset, hheld⟩ := s.bytes.set_held 0 message
        (by simpa using hbad.2)
      simp only [hset]
      refine ⟨rfl, rfl, h.nextId, rfl, ?_⟩
      rintro _ ⟨rfl⟩
      exact ⟨message, rfl, hbad.2, by simpa using hheld, List.length_pos_of_ne_nil hbad.1, by simp,
        by simp⟩

theorem flags_twin (index : UInt8) (last : Prop) [Decidable last] :
    UInt8.ofNat (index.toNat ||| if last then lastFlag.toNat else 0) =
      fragmentFlags index (decide last) := by
  by_cases h : last <;> simp [h, fragmentFlags, ← UInt8.toNat_or]

theorem Senders.fragment {s : BleSender} {t : Ts.Ble.BleSender} (h : Senders s t) (out : Bytes) :
    (t.fragment out).1 = .ok (named (s.fragment out).1) ∧
      (t.fragment out).2.2 = (s.fragment out).2.2 ∧
      Senders (s.fragment out).2.1 (t.fragment out).2.1 := by
  have hp := h.pending
  cases hs : s.pending with
  | none =>
    simp only [hs, Option.map_none] at hp
    simp only [BleSender.fragment, Ts.Ble.BleSender.fragment, hs, hp]
    exact ⟨rfl, trivial, h⟩
  | some p =>
    obtain ⟨message, hm⟩ := h.holds p hs
    obtain ⟨hlt, hle⟩ := hm.stop_bounds
    have hroom := p.limit_room
    have hfit : p.stop ≤ maxPayload := hle.trans (hm.len.trans_le hm.fits)
    have hstop : min p.len (p.offset + p.limit.valueLen - 2) = p.stop := by
      simp only [BlePending.stop]
      omega
    have hget := Buffer.get_held (b := s.bytes) hlt.le hfit
    have hdata : ((s.bytes.held p.stop).drop p.offset).length = p.stop - p.offset := by
      rw [List.length_drop, Buffer.held_length hfit]
    simp only [hs, Option.map_some] at hp
    simp only [BleSender.fragment, Ts.Ble.BleSender.fragment, hs, hp, BlePending.twin, hstop, hget,
      h.bytes, h.nextId, UInt8.ofNat_toNat, flags_twin]
    generalize hd : (s.bytes.held p.stop).drop p.offset = data at hdata
    have htwo := paste_paste out [s.nextId, fragmentFlags p.index (decide (p.stop = p.len))] data
    simp only [List.length_cons, List.length_nil, List.cons_append, List.nil_append] at htwo
    simp only [htwo]
    by_cases hshort : out.length < p.stop - p.offset + 2
    · rw [if_pos hshort, paste_none _ _ _ (by simp only [List.length_cons]; omega)]
      exact ⟨rfl, rfl, h⟩
    · rw [if_neg hshort, paste_some _ _ _ (by simp only [List.length_cons]; omega)]
      refine ⟨by simp [named, hdata], rfl, ⟨rfl, rfl, rfl, ?_⟩⟩
      rintro _ ⟨rfl⟩
      exact ⟨message, hm.offer⟩

theorem Senders.accepted {s : BleSender} {t : Ts.Ble.BleSender} (h : Senders s t) :
    t.accepted.1 = named s.accepted.1 ∧ Senders s.accepted.2 t.accepted.2 := by
  have hp := h.pending
  cases hs : s.pending with
  | none =>
    simp only [hs, Option.map_none] at hp
    simp only [BleSender.accepted, Ts.Ble.BleSender.accepted, hs, hp]
    exact ⟨rfl, h⟩
  | some p =>
    obtain ⟨message, hm⟩ := h.holds p hs
    simp only [hs, Option.map_some] at hp
    simp only [BleSender.accepted, Ts.Ble.BleSender.accepted, hs, hp, BlePending.twin]
    cases ho : p.offered with
    | none => exact ⟨rfl, h⟩
    | some stop =>
      obtain rfl := hm.offered stop ho
      simp only
      by_cases hlast : p.stop = p.len
      · simp only [hlast, if_true]
        refine ⟨rfl, h.bytes, ?_, rfl, by simp⟩
        have hlt := s.nextId.toNat_lt
        simp only [h.nextId, nextIndex]
        split_ifs with hid
        · simp [hid]
        · simp [UInt8.toNat_add]
      · obtain ⟨next, hnext, hi, hh⟩ := hm.next hlast
        obtain ⟨next', hn, hnat⟩ := nextIndex_some (show p.index.toNat < 255 by
          have := hm.index_lt; omega)
        obtain rfl : next' = next := Option.some.inj (hn.symm.trans hnext)
        simp only [hlast, if_false, hn]
        refine ⟨rfl, h.bytes, h.nextId, by simp [BlePending.twin, hnat], ?_⟩
        rintro _ ⟨rfl⟩
        exact ⟨message, hh⟩

theorem Senders.step (s : BleSender) (t : Ts.Ble.BleSender) (op : SenderOp) (h : Senders s t)
    (_ : True) : (s.step op).2 = (t.step op).2 ∧ Senders (s.step op).1 (t.step op).1 := by
  cases op with
  | enqueue message limit =>
    obtain ⟨hr, hs⟩ := h.enqueue message limit
    simp only [BleSender.step, Ts.Ble.BleSender.step, hr]
    exact ⟨rfl, hs⟩
  | fragment out =>
    obtain ⟨hr, ho, hs⟩ := h.fragment out
    simp only [BleSender.step, Ts.Ble.BleSender.step, hr, ho]
    exact ⟨trivial, hs⟩
  | accepted =>
    obtain ⟨hr, hs⟩ := h.accepted
    simp only [BleSender.step, Ts.Ble.BleSender.step, hr]
    exact ⟨trivial, hs⟩
  | reset => exact ⟨rfl, h.bytes, rfl, rfl, by simp [BleSender.step, BleSender.reset]⟩

/-- The two fragmenters answer every run of calls alike, and the TypeScript one never throws. -/
theorem fragmenters_agree :
    (∀ ops : List SenderOp, Machine.outputs BleSender.step .new ops =
      Machine.outputs Ts.Ble.BleSender.step .new ops) ∧
    ∀ ops : List ReceiverOp, (∀ op ∈ ops, op.Representable) →
      Machine.outputs BleReceiver.step .new ops = Machine.outputs Ts.Ble.BleReceiver.step .new ops := by
  constructor
  · intro ops
    have hnew : Senders .new .new := ⟨rfl, rfl, rfl, by simp [BleSender.new]⟩
    exact (Machine.run_simulates Senders.step hnew fun _ _ => trivial).1
  · intro ops hops
    exact (Machine.run_simulates Receivers.step ⟨rfl, rfl, rfl⟩ hops).1

theorem fragmenters_agree_single :
    Machine.outputs Ts.Ble.BleReceiver.step .new [.receive [0, 128, 7] ⟨23, by decide⟩ 5] =
      [.ok (.message [7])] := by
  rw [← fragmenters_agree.2 _ (by simp [ReceiverOp.Representable, Ts.Number.maxSafe])]
  decide +kernel

end Km43.Ble
