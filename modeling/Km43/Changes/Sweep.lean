import Km43.Cbor.Carried
import Km43.Cbor.Deferred
import Km43.Cbor.Packed
import Km43.Changes.Entry

namespace Km43.Changes

open Library Cbor CborReader CborWriter

def maxValiditySweep : ℕ := 48
def maxPresenceSweep : ℕ := 24
def vChangeMaxBytes : ℕ := 11
def pChangeMaxBytes : ℕ := 9

/-- One of the two sweeps: how many entries it takes, how wide each may be, and how one is written and read. -/
structure Kind (α : Type) where
  most : ℕ
  width : ℕ
  wentNowhere : α → Bool
  write : α → Encoder ChangeError Unit
  decode : Bytes → Except ChangeError α

def validity : Kind VChange := ⟨maxValiditySweep, vChangeMaxBytes, VChange.wentNowhere, VChange.encode, VChange.decode⟩

def presenceKind : Kind PChange := ⟨maxPresenceSweep, pChangeMaxBytes, PChange.wentNowhere, PChange.encode, PChange.decode⟩

inductive SweepKey
  | rev
  | entries
  deriving DecidableEq

namespace SweepKey

def of (number : ℤ) : Option SweepKey := if number = 1 then some rev else if number = 2 then some entries else none

def number : SweepKey → ℕ
  | rev => 1
  | entries => 2

theorem of_iff (n : ℤ) (k : SweepKey) : of n = some k ↔ n = k.number := by
  constructor
  · intro h
    unfold of at h
    split_ifs at h <;> cases h <;> assumption
  · rintro rfl
    cases k <;> rfl

theorem narrow (k : SweepKey) : k.number < 24 := by cases k <;> decide

theorem small (k : SweepKey) : k.number < 256 := k.narrow.trans (by decide)

end SweepKey

instance : BodyKey SweepKey := ⟨SweepKey.of, SweepKey.number, SweepKey.of_iff, SweepKey.small⟩

structure Sweep where
  rev : UInt32
  entries : Packed

namespace Sweep

variable {α : Type}

def new (rev : UInt32) : Sweep := ⟨rev, .empty⟩

def push (k : Kind α) (change : α) (event : Sweep) : Except ChangeError Bool × Sweep :=
  if k.wentNowhere change then (.error .wentNowhere, event)
  else
    let pushed := event.entries.push k.most k.width maxEventBody (k.write change)
    (pushed.1, { event with entries := pushed.2 })

def len (event : Sweep) : ℕ := event.entries.rows

def isEmpty (event : Sweep) : Bool := event.entries.rows == 0

def changes (k : Kind α) (event : Sweep) : Except ChangeError (List α) :=
  collect k.decode event.entries.rows (.new event.entries.bytes)

def encode (event : Sweep) (dst : ℕ) : Except ChangeError Bytes :=
  if event.isEmpty then .error .nothingChanged
  else encodeBody (writePacked 2 [(SweepKey.rev, [.u64 event.rev.toUInt64])] .entries event.entries []) dst

def Value : SweepKey → Type
  | .rev => UInt32
  | .entries => Bytes

def table : Table ChangeError SweepKey where
  Value := Value
  read
    | .rev => ask u32
    | .entries => ask raw
  twice key := .duplicate (UInt8.ofNat key.number)

def ofSlots (s : table.Slots) : Except ChangeError (UInt32 × CborReader × ℕ) := do
  let rev : UInt32 ← slotRequired (.missingBody 1) (s .rev)
  let entries : Bytes ← slotRequired (.missingBody 2) (s .entries)
  let (left, entries) ← (ask array : Read ChangeError ℕ) (.new entries)
  if left = 0 then .error .nothingChanged else .ok (rev, entries, left)

def sweep : Bytes → Except ChangeError (UInt32 × CborReader × ℕ) := table.decode ofSlots

def decode (k : Kind α) (payload : Bytes) : Except ChangeError (UInt32 × List α) := do
  let (rev, body, left) ← sweep payload
  let changes ← collect k.decode left body
  .ok (rev, changes)

def offer (k : Kind α) : List α → Sweep → Sweep × List α
  | [], event => (event, [])
  | change :: rest, event =>
    let pushed := event.push k change
    let final := offer k rest pushed.2
    (final.1, match pushed.1 with
      | .ok true => change :: final.2
      | _ => final.2)

def item : ∀ k, Item → Option (table.Value k)
  | .rev => u32Of
  | .entries => fun i => some i.spelling

def arms : ∀ k, table.Arm 7 item k
  | .rev => .typed (.u32 fun _ => trivial)
  | .entries => .kept .ok raw_checked fun _ => rfl

structure Fits (k : Kind α) (entry : α → Item) : Prop where
  writes : ∀ a dst out, encodeBody (k.write a) dst = .ok out ↔ out = (entry a).spelling ∧ (entry a).spelling.length ≤ dst
  legal : ∀ a, (entry a).Legal 6
  narrow : ∀ a, (entry a).spelling.length ≤ k.width
  reads : ∀ a, k.wentNowhere a = false → k.decode (entry a).spelling = .ok a
  few : k.most < 256
  room : k.most * k.width + 10 ≤ maxEventBody

structure Carries (k : Kind α) (entry : α → Item) (event : Sweep) (taken : List α) : Prop where
  holds : event.entries.Holds 6 (taken.map entry)
  few : event.entries.rows ≤ k.most
  moved : ∀ a ∈ taken, k.wentNowhere a = false

section

variable {k : Kind α} {entry : α → Item} {event : Sweep} {taken : List α}

theorem new_carries (rev : UInt32) : Carries k entry (new rev) [] := ⟨Packed.empty_holds, Nat.zero_le _, by simp⟩

theorem push_refused {change : α} (h : (event.push k change).1 ≠ .ok true) : (event.push k change).2 = event := by
  unfold push at h ⊢
  split_ifs at h ⊢ with hstill
  · rfl
  · have hsame := Packed.push_refused h
    simp only [hsame]

theorem push_carries (hk : Fits k entry) (h : Carries k entry event taken) {change : α}
    (htook : (event.push k change).1 = .ok true) : Carries k entry (event.push k change).2 (taken ++ [change]) := by
  unfold push at htook ⊢
  split_ifs at htook ⊢ with hstill
  obtain ⟨hholds, hfew, -⟩ := Packed.push_taken h.holds (hk.legal change) (hk.writes change k.width) htook
  refine ⟨?_, hfew, ?_⟩
  · rw [List.map_append]
    exact hholds
  · intro a ha
    rcases List.mem_append.mp ha with ha | ha
    · exact h.moved a ha
    · rw [List.mem_singleton.mp ha]
      exact eq_false_of_ne_true hstill

theorem push_rev (change : α) : (event.push k change).2.rev = event.rev := by
  unfold push
  split_ifs <;> rfl

theorem offer_rev (pushes : List α) (event : Sweep) : (event.offer k pushes).1.rev = event.rev := by
  induction pushes generalizing event with
  | nil => rfl
  | cons change rest ih =>
    rw [offer, ih, push_rev]

theorem offer_carries (hk : Fits k entry) (h : Carries k entry event taken) (pushes : List α) :
    Carries k entry (event.offer k pushes).1 (taken ++ (event.offer k pushes).2) := by
  induction pushes generalizing event taken with
  | nil =>
    rw [offer, List.append_nil]
    exact h
  | cons change rest ih =>
    simp only [offer]
    split
    case h_1 htook =>
      have hrest := ih (push_carries hk h htook)
      rw [List.append_assoc] at hrest
      exact hrest
    case h_2 hnot =>
      rw [push_refused hnot]
      exact ih h

theorem Carries.rows (h : Carries k entry event taken) : event.entries.rows = taken.length := by
  rw [h.holds.rows, List.length_map]

theorem Carries.read (hk : Fits k entry) (h : Carries k entry event taken) :
    List.Forall₂ (fun i a => i.Legal 6 ∧ k.decode i.spelling = .ok a) (taken.map entry) taken := by
  rw [List.forall₂_map_left_iff, List.forall₂_same]
  exact fun a ha => ⟨hk.legal a, hk.reads a (h.moved a ha)⟩

theorem Carries.changes (hk : Fits k entry) (h : Carries k entry event taken) : event.changes k = .ok taken := by
  have hread : List.Forall₂ (fun i a => i.Legal maxDepth ∧ k.decode i.spelling = .ok a) (taken.map entry) taken :=
    (h.read hk).imp fun _ _ h => ⟨h.1.mono (by decide), h.2⟩
  rw [Sweep.changes, h.holds.rows]
  have hrest : (CborReader.new event.entries.bytes).rest = Item.spellAll (taken.map entry) ++ [] := by
    rw [List.append_nil, ← h.holds.bytes]
    rfl
  exact collect_ok atTop_queue hread (new_atTop _ _) hrest

def items (entry : α → Item) (event : Sweep) (taken : List α) : List (SweepKey × Item) :=
  [(.rev, .ofNat event.rev.toNat), (.entries, .ofItems (taken.map entry))]

theorem items_rising : Rising (event.items entry taken) := by
  simp [Rising, items, BodyKey.number, SweepKey.number]

theorem Carries.legal (hk : Fits k entry) (h : Carries k entry event taken) : ∀ e ∈ event.items entry taken, e.2.Legal 7 := by
  have hfew := hk.few
  have hlen := h.few
  rw [h.rows] at hlen
  have hrev := event.rev.toNat_lt
  intro e he
  simp only [items, List.mem_cons, List.not_mem_nil, or_false] at he
  rcases he with rfl | rfl
  · exact Item.ofNat_legal (by omega)
  · exact Item.ofItems_legal (by rw [List.length_map]; omega) h.holds.legal

theorem Carries.length (hk : Fits k entry) (h : Carries k entry event taken) :
    (bodyItem (event.items entry taken)).spelling.length ≤ maxEventBody := by
  have hlen := h.few
  rw [h.rows] at hlen
  have hrev := ofNat_length_u32 event.rev
  have hnarrow : (Item.spellAll (taken.map entry)).length ≤ (taken.map entry).length * k.width := by
    apply spellAll_length
    intro i hi
    obtain ⟨a, -, rfl⟩ := List.mem_map.mp hi
    exact hk.narrow a
  rw [List.length_map] at hnarrow
  have hwide := Nat.mul_le_mul_right k.width hlen
  have hfew : (taken.map entry).length < 256 := by
    rw [List.length_map]
    exact hlen.trans_lt hk.few
  have harray := ofItems_length_u8 hfew
  have hroom := hk.room
  rw [bodyItem_length (by simp [items]) SweepKey.narrow]
  simp only [items, List.map_cons, List.map_nil, List.sum_cons, List.sum_nil]
  omega

theorem Carries.encode (hk : Fits k entry) (h : Carries k entry event taken) (hsome : event.isEmpty = false)
    {dst : ℕ} (hdst : maxEventBody ≤ dst) :
    event.encode dst = .ok (bodyItem (event.items entry taken)).spelling := by
  have hfew := h.few
  have hmost := hk.few
  have hspelled : Spelled 7 [(SweepKey.rev, [.u64 event.rev.toUInt64])] [(SweepKey.rev, .ofNat event.rev.toNat)] :=
    .cons ⟨rfl, writes_one rfl⟩ .nil
  rw [Sweep.encode, hsome]
  exact (encode_packed hspelled .nil h.holds (by omega) items_rising rfl).mpr ⟨rfl, (h.length hk).trans hdst⟩

theorem Carries.sweep (hk : Fits k entry) (h : Carries k entry event taken) (hsome : event.isEmpty = false) :
    ∃ body, Sweep.sweep (bodyItem (event.items entry taken)).spelling = .ok (event.rev, body, taken.length) ∧
      collect k.decode taken.length body = .ok taken := by
  have hread : List.Forall₂ (fun i a => i.Legal 7 ∧ k.decode i.spelling = .ok a) (taken.map entry) taken :=
    (h.read hk).imp fun _ _ h => ⟨h.1.mono (by decide), h.2⟩
  have hfew := h.few
  have hmost := hk.few
  rw [h.rows] at hfew
  obtain ⟨body, harray, hcollect⟩ := collect_array (by rw [List.length_map]; omega) hread
  rw [List.length_map] at harray hcollect
  have hslots : decodeBody table.slots (bodyItem (event.items entry taken)).spelling =
      .ok (fun | .rev => some event.rev | .entries => some (Item.ofItems (taken.map entry)).spelling) := by
    apply (Table.arms_decode arms).entries items_rising (h.legal hk)
    · simp only [items, List.forall_mem_cons]
      exact ⟨⟨u32Of_ofNat _, rfl⟩, ⟨rfl, rfl⟩, by simp⟩
    · intro k hk
      cases k <;> simp [items] at hk
  have hask : (ask array : Read ChangeError ℕ) (.new (Item.ofItems (taken.map entry)).spelling) = .ok (taken.length, body) := by
    rw [ask, harray]
  have hlen : taken.length ≠ 0 := by
    intro hzero
    rw [← h.rows] at hzero
    rw [isEmpty, hzero] at hsome
    cases hsome
  refine ⟨body, bind_ok.mpr ⟨_, hslots, ?_⟩, hcollect⟩
  refine bind_ok.mpr ⟨event.rev, rfl, bind_ok.mpr ⟨_, rfl, bind_ok.mpr ⟨_, hask, ?_⟩⟩⟩
  exact if_neg hlen

end

/-- What a sweep's sender and its receiver owe each other, whatever was offered. -/
structure Agrees (k : Kind α) : Prop where
  changes : ∀ rev pushes, ((new rev).offer k pushes).1.changes k = .ok ((new rev).offer k pushes).2
  encodes : ∀ rev pushes dst, ((new rev).offer k pushes).1.isEmpty = false → maxEventBody ≤ dst →
    ∃ out, ((new rev).offer k pushes).1.encode dst = .ok out ∧ decode k out = .ok (rev, ((new rev).offer k pushes).2)
  refused : ∀ (event : Sweep) change, (event.push k change).1 ≠ .ok true → (event.push k change).2 = event

theorem fits_agrees {k : Kind α} {entry : α → Item} (hk : Fits k entry) : Agrees k := by
  have hcarries : ∀ rev pushes, Carries k entry ((new rev).offer k pushes).1 ((new rev).offer k pushes).2 := by
    intro rev pushes
    exact offer_carries hk (new_carries rev) pushes
  refine ⟨fun rev pushes => (hcarries rev pushes).changes hk, ?_, fun _ _ => push_refused⟩
  intro rev pushes dst hsome hdst
  have h := hcarries rev pushes
  obtain ⟨body, hsweep, hcollect⟩ := h.sweep hk hsome
  rw [offer_rev] at hsweep
  exact ⟨_, h.encode hk hsome hdst, bind_ok.mpr ⟨_, hsweep, bind_ok.mpr ⟨_, hcollect, rfl⟩⟩⟩

theorem validity_fits : Fits validity fun change => bodyItem change.items where
  writes := VChange.encode_ok
  legal change := bodyItem_legal change.items_rising change.items_legal
  narrow := VChange.items_length
  reads := VChange.decode_item
  few := by decide
  room := by decide

theorem presence_fits : Fits presenceKind fun change => bodyItem change.items where
  writes := PChange.encode_ok
  legal change := bodyItem_legal change.items_rising change.items_legal
  narrow := PChange.items_length
  reads := PChange.decode_item
  few := by decide
  room := by decide

/-- Of any changes offered to either sweep, the receiver reads those that were taken and no others. -/
theorem sweeps_agree : Agrees validity ∧ Agrees presenceKind := ⟨fits_agrees validity_fits, fits_agrees presence_fits⟩

end Sweep

end Km43.Changes
