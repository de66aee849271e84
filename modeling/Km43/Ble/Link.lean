import Km43.Library.Machine
import Km43.Ble.Receiver
import Km43.Ble.Sender

namespace Km43.Ble

open Library

structure Link where
  sender : BleSender
  receiver : BleReceiver
  mtu : Option BleMtu
  /-- The value the adapter last read from the sender. -/
  value : Bytes
  nowMs : ℕ
  queued : List Bytes
  delivered : List Bytes
  faults : List BleError

inductive LinkOp
  | enqueue (message : Bytes) (mtu : BleMtu) (limit : BleValueLimit)
  | fragment (out : Bytes)
  | accepted (gapMs : ℕ)

namespace Link

def new (nowMs : ℕ) : Link := ⟨.new, .new, none, [], nowMs, [], [], []⟩

def enqueue (l : Link) (message : Bytes) (mtu : BleMtu) (limit : BleValueLimit) :
    Link × Option BleError :=
  match l.sender.enqueue message limit with
  | (.ok (), sender) =>
    ({ l with sender := sender, mtu := some mtu, queued := l.queued ++ [message] }, none)
  | (.error e, sender) => ({ l with sender := sender }, some e)

def fragment (l : Link) (out : Bytes) : Link × Option BleError :=
  match l.sender.fragment out with
  | (.ok size, sender, out) => ({ l with sender := sender, value := out.take size }, none)
  | (.error e, sender, _) => ({ l with sender := sender }, some e)

def feed (l : Link) (gapMs : ℕ) : Link :=
  match l.mtu with
  | none => l
  | some mtu =>
    let nowMs := l.nowMs + gapMs
    match l.receiver.receive l.value mtu nowMs with
    | (.ok (some message), receiver) =>
      { l with receiver := receiver, nowMs := nowMs, delivered := l.delivered ++ [message] }
    | (.ok none, receiver) => { l with receiver := receiver, nowMs := nowMs }
    | (.error e, receiver) =>
      { l with receiver := receiver, nowMs := nowMs, faults := l.faults ++ [e] }

def accepted (l : Link) (gapMs : ℕ) : Link × Option BleError :=
  match l.sender.accepted with
  | (.ok (), sender) => ({ l with sender := sender }.feed gapMs, none)
  | (.error e, sender) => ({ l with sender := sender }, some e)

def step : Machine Link LinkOp (Option BleError)
  | l, .enqueue message mtu limit => l.enqueue message mtu limit
  | l, .fragment out => l.fragment out
  | l, .accepted gapMs => l.accepted gapMs

end Link

/-- The limit is one its message's MTU allows, and the receiver does not time out. -/
def LinkOp.Fair : LinkOp → Prop
  | .enqueue _ mtu limit => limit.valueLen ≤ mtu.valueLen
  | .fragment _ => True
  | .accepted gapMs => gapMs < timeoutMs

namespace Link

/-- The message under way between the sender's slot and the receiver's assembly. -/
structure Carries (l : Link) (p : BlePending) (mtu : BleMtu) (message : Bytes) : Prop where
  holds : p.Holds l.sender.bytes message
  limit : p.limit.valueLen ≤ mtu.valueLen
  awaits : l.receiver.Awaits l.sender.nextId p.index (message.take p.offset) l.nowMs
  value : p.offered ≠ none → l.value = l.sender.nextId ::
    fragmentFlags p.index (decide (p.stop = p.len)) :: (message.take p.stop).drop p.offset

/-- Every queued message was delivered, but for the one in the sender's slot. -/
structure InStep (l : Link) : Prop where
  faultless : l.faults = []
  idle : l.sender.pending = none → l.queued = l.delivered ∧ l.receiver.active = none
  busy : ∀ p, l.sender.pending = some p → ∃ mtu message, l.mtu = some mtu ∧
    l.queued = l.delivered ++ [message] ∧ l.Carries p mtu message

theorem new_inStep (nowMs : ℕ) : (new nowMs).InStep :=
  ⟨rfl, fun _ => ⟨rfl, rfl⟩, fun _ h => by cases h⟩

theorem enqueue_inStep {l : Link} (h : l.InStep) {message : Bytes} {mtu : BleMtu}
    {limit : BleValueLimit} (hl : limit.valueLen ≤ mtu.valueLen) :
    (l.enqueue message mtu limit).1.InStep := by
  unfold enqueue BleSender.enqueue
  cases hp : l.sender.pending with
  | some p => exact ⟨h.faultless, h.idle, h.busy⟩
  | none =>
    obtain ⟨hq, hr⟩ := h.idle hp
    simp only
    split_ifs with hbad
    · exact ⟨h.faultless, h.idle, h.busy⟩
    · simp only [not_or, Nat.not_lt] at hbad
      obtain ⟨bytes, hset, hheld⟩ := l.sender.bytes.set_held 0 message
        (by simpa using hbad.2)
      simp only [hset]
      refine ⟨h.faultless, by simp, ?_⟩
      rintro _ ⟨rfl⟩
      have hpos : 0 < message.length := List.length_pos_of_ne_nil hbad.1
      refine ⟨mtu, message, rfl, by rw [hq], ⟨rfl, hbad.2, ?_, hpos, by simp, by simp⟩, hl, ?_, by simp⟩
      · simpa using hheld
      · exact .inl ⟨rfl, rfl, hr⟩

theorem fragment_inStep {l : Link} (h : l.InStep) (out : Bytes) : (l.fragment out).1.InStep := by
  unfold fragment BleSender.fragment
  cases hp : l.sender.pending with
  | none => exact ⟨h.faultless, h.idle, h.busy⟩
  | some p =>
    obtain ⟨mtu, message, hm, hq, hc⟩ := h.busy p hp
    simp only [hc.holds.data]
    split
    · rename_i size sender out' heq
      split at heq
      · cases heq
      · rename_i out₁ hpaste
        cases heq
        refine ⟨h.faultless, by simp, ?_⟩
        rintro _ ⟨rfl⟩
        refine ⟨mtu, message, hm, hq, hc.holds.offer, hc.limit, hc.awaits, fun _ => ?_⟩
        simp only [paste] at hpaste
        split_ifs at hpaste
        cases hpaste
        simp only [List.take_zero, List.nil_append, List.take_left]
        rfl
    · rename_i e sender out' heq
      split at heq <;> cases heq
      exact ⟨h.faultless, h.idle, h.busy⟩

theorem Carries.receive {l : Link} {p : BlePending} {mtu : BleMtu} {message : Bytes} {gapMs : ℕ}
    (hc : l.Carries p mtu message) (ho : p.offered ≠ none) (hg : gapMs < timeoutMs) :
    ∃ r', l.receiver.receive l.value mtu (l.nowMs + gapMs) =
        (.ok (if p.stop = p.len then some message else none), r') ∧
      (p.stop = p.len → r'.active = none) ∧
      ∀ next, p.stop ≠ p.len → nextIndex p.index = some next →
        r'.Awaits l.sender.nextId next (message.take p.stop) (l.nowMs + gapMs) := by
  obtain ⟨hlt, hle⟩ := hc.holds.stop_bounds
  have hlen := hc.holds.len
  have hdata : ((message.take p.stop).drop p.offset).length = p.stop - p.offset := by
    rw [List.length_drop, List.length_take]
    omega
  have hsofar : (message.take p.offset).length = p.offset := by
    rw [List.length_take]
    omega
  have hjoin : message.take p.offset ++ (message.take p.stop).drop p.offset = message.take p.stop := by
    rw [← List.take_append_drop p.offset (message.take p.stop), List.take_take, Nat.min_eq_left hlt.le,
      List.drop_left' hsofar]
  have hroom : ((message.take p.stop).drop p.offset).length + 2 ≤ mtu.valueLen := by
    have hr := p.limit_room
    have hl := hc.limit
    have hstop : p.stop ≤ p.offset + (p.limit.valueLen - 2) := Nat.min_le_left _ _
    omega
  have hfits := hc.holds.fits
  obtain ⟨r', hrec, hdone, hnext⟩ := BleReceiver.receive_next (decide (p.stop = p.len)) hc.awaits hg
    (by omega) hroom (by have := hc.holds.index_lt; omega) (by omega)
    (by simp only [decide_eq_false_iff_not]; omega)
  rw [hjoin] at hrec hnext
  refine ⟨r', ?_, fun hs => hdone (by simpa using hs), fun next hs hn => hnext next (by simpa using hs) hn⟩
  rw [hc.value ho, hrec]
  by_cases hs : p.stop = p.len
  · simp [hs, hlen]
  · simp [hs]

theorem accepted_inStep {l : Link} (h : l.InStep) {gapMs : ℕ} (hg : gapMs < timeoutMs) :
    (l.accepted gapMs).1.InStep := by
  unfold accepted BleSender.accepted
  cases hp : l.sender.pending with
  | none => exact ⟨h.faultless, h.idle, h.busy⟩
  | some p =>
    obtain ⟨mtu, message, hm, hq, hc⟩ := h.busy p hp
    cases ho : p.offered with
    | none =>
      simp only [ho]
      exact ⟨h.faultless, h.idle, h.busy⟩
    | some stop =>
      obtain rfl := hc.holds.offered stop ho
      obtain ⟨r', hrec, hdone, hnext⟩ := hc.receive (by simp [ho]) hg
      simp only [ho]
      by_cases hs : p.stop = p.len
      · simp only [hs, if_true, feed, hm] at hrec ⊢
        simp only [hrec]
        exact ⟨h.faultless, fun _ => ⟨hq, hdone hs⟩, fun _ hn => by cases hn⟩
      · obtain ⟨next, hn, hi, hholds⟩ := hc.holds.next hs
        simp only [hs, if_false, hn, feed, hm] at hrec ⊢
        simp only [hrec]
        refine ⟨h.faultless, by simp, ?_⟩
        rintro _ ⟨rfl⟩
        exact ⟨mtu, message, rfl, hq, hholds, hc.limit, hnext next hs hn, by simp⟩

theorem step_inStep (l : Link) (op : LinkOp) (h : l.InStep) (hf : op.Fair) : (step l op).1.InStep := by
  cases op with
  | enqueue message mtu limit => exact enqueue_inStep h hf
  | fragment out => exact fragment_inStep h out
  | accepted gapMs => exact accepted_inStep h hf

theorem run_inStep (nowMs : ℕ) {ops : List LinkOp} (hf : ∀ op ∈ ops, op.Fair) :
    (Machine.final step (new nowMs) ops).InStep :=
  Machine.final_invariant step_inStep (new_inStep nowMs) hf

@[simp] theorem feed_sender (l : Link) (gapMs : ℕ) : (l.feed gapMs).sender = l.sender := by
  unfold feed
  split
  · rfl
  · dsimp only
    split <;> rfl

@[simp] theorem feed_queued (l : Link) (gapMs : ℕ) : (l.feed gapMs).queued = l.queued := by
  unfold feed
  split
  · rfl
  · dsimp only
    split <;> rfl

theorem accepted_unbroken {l : Link} (h : l.InStep) (gapMs : ℕ) :
    (l.accepted gapMs).2 ≠ some .sequence := by
  unfold accepted BleSender.accepted
  cases hp : l.sender.pending with
  | none => simp
  | some p =>
    obtain ⟨mtu, message, -, -, hc⟩ := h.busy p hp
    cases ho : p.offered with
    | none => simp [ho]
    | some stop =>
      obtain rfl := hc.holds.offered stop ho
      by_cases hs : p.stop = p.len
      · simp [ho, hs]
      · obtain ⟨next, hn, -⟩ := hc.holds.next hs
        simp [ho, hs, hn]

theorem step_unbroken {l : Link} (h : l.InStep) (op : LinkOp) : (step l op).2 ≠ some .sequence := by
  cases op with
  | enqueue message mtu limit =>
    simp only [step, enqueue, BleSender.enqueue]
    cases l.sender.pending with
    | some p => simp
    | none =>
      simp only
      split_ifs
      · simp
      · cases l.sender.bytes.set 0 message <;> simp
  | fragment out =>
    simp only [step, fragment, BleSender.fragment]
    cases hp : l.sender.pending with
    | none => simp
    | some p =>
      obtain ⟨mtu, message, -, -, hc⟩ := h.busy p hp
      simp only [hc.holds.data]
      cases paste out 0 _ <;> simp
  | accepted gapMs => exact accepted_unbroken h gapMs

theorem run_unbroken (nowMs : ℕ) {ops : List LinkOp} (hf : ∀ op ∈ ops, op.Fair) :
    some .sequence ∉ Machine.outputs step (new nowMs) ops := by
  suffices h : ∀ l : Link, l.InStep → some .sequence ∉ Machine.outputs step l ops from
    h _ (new_inStep nowMs)
  induction ops with
  | nil => simp
  | cons op ops ih =>
    intro l hl
    have hrest := ih (fun o ho => hf o (by simp [ho])) _ (step_inStep l op hl (hf op (by simp)))
    simp only [Machine.outputs_cons, List.mem_cons, not_or]
    exact ⟨(step_unbroken hl op).symm, hrest⟩

def round (out : Bytes) : List LinkOp := [.fragment out, .accepted 0]

theorem rounds_fair (out : Bytes) (k : ℕ) :
    ∀ op ∈ (List.replicate k (round out)).flatten, op.Fair := by
  intro op hop
  simp only [List.mem_flatten, List.mem_replicate] at hop
  obtain ⟨_, ⟨-, rfl⟩, hop⟩ := hop
  simp only [round, List.mem_cons, List.not_mem_nil, or_false] at hop
  rcases hop with rfl | rfl <;> simp [LinkOp.Fair, timeoutMs]

theorem round_moves {l : Link} (h : l.InStep) {p : BlePending} (hp : l.sender.pending = some p)
    {out : Bytes} (ho : maxValue ≤ out.length) :
    (Machine.final step l (round out)).queued = l.queued ∧
      ((Machine.final step l (round out)).sender.pending = none ∨
        ∃ p', (Machine.final step l (round out)).sender.pending = some p' ∧
          p'.len - p'.offset < p.len - p.offset) := by
  obtain ⟨mtu, message, -, -, hc⟩ := h.busy p hp
  obtain ⟨hlt, hle⟩ := hc.holds.stop_bounds
  have hvalue := p.limit.bounded.2
  have hstop : p.stop ≤ p.offset + (p.limit.valueLen - 2) := Nat.min_le_left _ _
  have hroom := p.limit_room
  have hpaste := paste_some out 0 (l.sender.nextId ::
    fragmentFlags p.index (decide (p.stop = p.len)) :: (message.take p.stop).drop p.offset)
    (by simp only [List.length_cons, List.length_drop, List.length_take]; omega)
  simp only [round, Machine.final_cons, Machine.final_nil, step, fragment, BleSender.fragment, hp,
    hc.holds.data, hpaste, accepted, BleSender.accepted]
  by_cases hs : p.stop = p.len
  · simp [hs]
  · obtain ⟨next, hn, -⟩ := hc.holds.next hs
    simp only [hs, if_false, hn, feed_queued, feed_sender, true_and]
    exact .inr ⟨_, rfl, by simp only; omega⟩

theorem drains {l : Link} (h : l.InStep) {out : Bytes} (ho : maxValue ≤ out.length) :
    ∃ k, (Machine.final step l (List.replicate k (round out)).flatten).queued = l.queued ∧
      (Machine.final step l (List.replicate k (round out)).flatten).sender.pending = none := by
  cases hp : l.sender.pending with
  | none => exact ⟨0, rfl, hp⟩
  | some p =>
    induction hk : p.len - p.offset using Nat.strong_induction_on generalizing l p with
    | _ k ih =>
      obtain ⟨hq, hdone | ⟨p', hp', hlt⟩⟩ := round_moves h hp ho
      · exact ⟨1, by simpa using hq, by simpa using hdone⟩
      · have hfair : ∀ op ∈ round out, op.Fair := by simpa using rounds_fair out 1
        have hin := Machine.final_invariant step_inStep h hfair
        obtain ⟨k', hq', hd'⟩ := ih _ (hk ▸ hlt) hin p' hp' rfl
        refine ⟨k' + 1, ?_, ?_⟩ <;>
          rw [List.replicate_succ, List.flatten_cons, Machine.final_append]
        · exact hq'.trans hq
        · exact hd'

/-- Over any run, the receiver has returned the queued messages in order, each once, but for the
one still in the sender's slot, and that one is returned once its fragments are read and admitted. -/
theorem run_delivers (nowMs : ℕ) (ops : List LinkOp) (hf : ∀ op ∈ ops, op.Fair) :
    let l := Machine.final step (new nowMs) ops
    l.faults = [] ∧ some .sequence ∉ Machine.outputs step (new nowMs) ops ∧
      (∀ p, l.sender.pending = some p → p.index.toNat < 57) ∧
      (l.sender.pending = none → l.delivered = l.queued) ∧
      (l.sender.pending ≠ none → ∃ message, l.delivered ++ [message] = l.queued) ∧
      ∀ out : Bytes, maxValue ≤ out.length → ∃ k,
        let l' := Machine.final step l (List.replicate k (round out)).flatten
        l'.sender.pending = none ∧ l'.queued = l.queued ∧ l'.delivered = l.queued := by
  have h := run_inStep nowMs hf
  refine ⟨h.faultless, run_unbroken nowMs hf, ?_, fun hp => (h.idle hp).1.symm, ?_, ?_⟩
  · intro p hp
    obtain ⟨mtu, message, -, -, hc⟩ := h.busy p hp
    exact hc.holds.index_lt
  · intro hp
    obtain ⟨p, hp⟩ := Option.ne_none_iff_exists'.mp hp
    obtain ⟨mtu, message, -, hq, -⟩ := h.busy p hp
    exact ⟨message, hq.symm⟩
  · intro out ho
    obtain ⟨k, hq, hn⟩ := drains h ho
    have hin : (Machine.final step _ (List.replicate k (round out)).flatten).InStep :=
      Machine.final_invariant step_inStep h (rounds_fair out k)
    exact ⟨k, hn, hq, (hin.idle hn).1.symm.trans hq⟩

theorem smallestMtu : minMtu ≤ 23 ∧ 23 ≤ maxMtu := by decide

theorem smallestLimit : minMtu - 3 ≤ 20 ∧ 20 ≤ maxValue := by decide

def sent : List LinkOp := [.fragment (List.replicate 20 0), .accepted 10]

def pairRun : List LinkOp :=
  .enqueue (List.replicate 40 7) ⟨23, smallestMtu⟩ ⟨20, smallestLimit⟩ :: (sent ++ sent ++ sent) ++
    .enqueue (List.replicate 25 9) ⟨23, smallestMtu⟩ ⟨20, smallestLimit⟩ :: (sent ++ sent)

theorem run_delivers_pair :
    (Machine.final step (new 0) pairRun).delivered = [List.replicate 40 7, List.replicate 25 9] := by
  have h := run_delivers 0 pairRun (by simp [pairRun, sent, LinkOp.Fair, BleMtu.valueLen, maxValue, timeoutMs])
  have hrun : (Machine.final step (new 0) pairRun).sender.pending = none ∧
      (Machine.final step (new 0) pairRun).queued = [List.replicate 40 7, List.replicate 25 9] := by decide +kernel
  rw [h.2.2.2.1 hrun.1, hrun.2]

end Link

end Km43.Ble
