import Km43.Cbor.Cells
import Km43.Readings.Quality

namespace Km43.Changes

open Library Cbor CborReader CborWriter Readings

inductive ChangeError
  | duplicate (key : UInt8)
  | zeroId
  | wentNowhere
  | nothingChanged
  | missingEntry (key : UInt8)
  | missingBody (key : UInt8)
  | unknownPresence (number : UInt8)
  | unknownReason (number : UInt8)
  | quality (why : QualityError)
  | cbor (why : CborError)
  deriving DecidableEq

instance : FromCbor ChangeError := ⟨.cbor⟩

inductive Presence
  | online
  | degraded
  | offline
  | neverSeen
  deriving DecidableEq

namespace Presence

def byte : Presence → UInt8
  | online => 1
  | degraded => 2
  | offline => 3
  | neverSeen => 4

def tryFrom (v : UInt8) : Option Presence :=
  if v = 1 then some online else if v = 2 then some degraded else if v = 3 then some offline
  else if v = 4 then some neverSeen else none

theorem tryFrom_byte (p : Presence) : tryFrom p.byte = some p := by cases p <;> rfl

end Presence

def newId (value : UInt16) : Except ChangeError Id := if h : value = 0 then .error .zeroId else .ok ⟨value, h⟩

theorem newId_raw (id : Id) : newId id.raw = .ok id := dif_neg id.nonzero

def quality (raw : UInt8) : Except ChangeError SignalQuality := (SignalQuality.fromByte raw).mapError .quality

theorem quality_byte (q : SignalQuality) : quality q.byte = .ok q := mapError_ok.mpr q.fromByte_byte

def presence (number : UInt8) : Except ChangeError Presence :=
  match Presence.tryFrom number with
  | some value => .ok value
  | none => .error (.unknownPresence number)

theorem presence_byte (p : Presence) : presence p.byte = .ok p := by
  rw [presence, p.tryFrom_byte]

inductive EntryKey
  | subject
  | now
  | prev
  deriving DecidableEq

namespace EntryKey

def of (number : ℤ) : Option EntryKey :=
  if number = 1 then some subject else if number = 2 then some now else if number = 3 then some prev else none

def number : EntryKey → ℕ
  | subject => 1
  | now => 2
  | prev => 3

theorem of_iff (n : ℤ) (k : EntryKey) : of n = some k ↔ n = k.number := by
  constructor
  · intro h
    unfold of at h
    split_ifs at h <;> cases h <;> assumption
  · rintro rfl
    cases k <;> rfl

theorem narrow (k : EntryKey) : k.number < 24 := by cases k <;> decide

theorem small (k : EntryKey) : k.number < 256 := k.narrow.trans (by decide)

end EntryKey

instance : BodyKey EntryKey := ⟨EntryKey.of, EntryKey.number, EntryKey.of_iff, EntryKey.small⟩

structure VChange where
  sig : Id
  q : SignalQuality
  prev : SignalQuality

structure PChange where
  dev : Id
  presence : Presence
  prev : Presence

def idItem (id : Id) : Item := .ofNat id.raw.toNat

theorem idItem_read (id : Id) : checkedItem u16Of newId (idItem id) = some id :=
  checkedItem_ok (u16Of_ofNat id.raw) (newId_raw id)

theorem id_legal (id : Id) {d : ℕ} : (idItem id).Legal d := Item.ofNat_legal (by have := id.raw.toNat_lt; omega)

theorem byte_legal (b : UInt8) {d : ℕ} : (Item.ofNat b.toNat).Legal d := Item.ofNat_legal (by have := b.toNat_lt; omega)

namespace VChange

def wentNowhere (change : VChange) : Bool := decide (change.q.byte = change.prev.byte)

def entries (change : VChange) : List (EntryKey × List Call) :=
  [(.subject, [.u64 change.sig.raw.toUInt64]), (.now, [.u64 change.q.byte.toUInt64]),
    (.prev, [.u64 change.prev.byte.toUInt64])]

def encode (change : VChange) : Encoder ChangeError Unit := writeBody 3 change.entries

def Value : EntryKey → Type
  | .subject => Id
  | .now | .prev => SignalQuality

def table : Table ChangeError EntryKey where
  Value := Value
  read
    | .subject => checkedRead (ask u16) newId
    | .now => checkedRead (ask u8) quality
    | .prev => checkedRead (ask u8) quality
  twice key := .duplicate (UInt8.ofNat key.number)

def ofSlots (s : table.Slots) : Except ChangeError VChange := do
  let q : SignalQuality ← slotRequired (.missingEntry 2) (s .now)
  let prev : SignalQuality ← slotRequired (.missingEntry 3) (s .prev)
  if q.byte = prev.byte then .error .wentNowhere
  else do
    let sig ← slotRequired (.missingEntry 1) (s .subject)
    .ok ⟨sig, q, prev⟩

def decode : Bytes → Except ChangeError VChange := table.decode ofSlots

def item : ∀ k, Item → Option (table.Value k)
  | .subject => checkedItem u16Of newId
  | .now => checkedItem u8Of quality
  | .prev => checkedItem u8Of quality

theorem reads (k : EntryKey) : Reads (fun _ => True) 7 (table.read k) (item k) := by
  cases k with
  | subject => exact checkedRead_reads (.u16 fun _ => trivial) _
  | now => exact checkedRead_reads (.u8 fun _ => trivial) _
  | prev => exact checkedRead_reads (.u8 fun _ => trivial) _

def items (change : VChange) : List (EntryKey × Item) :=
  [(.subject, idItem change.sig), (.now, .ofNat change.q.byte.toNat), (.prev, .ofNat change.prev.byte.toNat)]

def slots (change : VChange) : table.Slots
  | .subject => some change.sig
  | .now => some change.q
  | .prev => some change.prev

theorem items_rising (change : VChange) : Rising change.items := by
  simp [Rising, items, BodyKey.number, EntryKey.number]

theorem items_legal (change : VChange) : ∀ e ∈ change.items, e.2.Legal 5 := by
  simp [items, id_legal, byte_legal]

theorem encode_ok (change : VChange) (dst : ℕ) (out : Bytes) : encodeBody change.encode dst = .ok out ↔
    out = (bodyItem change.items).spelling ∧ (bodyItem change.items).spelling.length ≤ dst := by
  have hspelled : Spelled 7 change.entries change.items :=
    .cons ⟨rfl, writes_one rfl⟩ <| .cons ⟨rfl, writes_one rfl⟩ <| .cons ⟨rfl, writes_one rfl⟩ .nil
  exact encode_entries hspelled change.items_rising rfl

theorem decode_item (change : VChange) (h : change.wentNowhere = false) :
    decode (bodyItem change.items).spelling = .ok change := by
  have hlegal : ∀ e ∈ change.items, e.2.Legal 7 := fun e he => (change.items_legal e he).mono (by decide)
  have hslots : decodeBody table.slots (bodyItem change.items).spelling = .ok change.slots := by
    apply (Table.decodes reads).entries change.items_rising hlegal
    · simp only [items, List.forall_mem_cons]
      exact ⟨⟨idItem_read _, rfl⟩, ⟨checkedItem_ok (u8Of_ofNat _) (quality_byte _), rfl⟩,
        ⟨checkedItem_ok (u8Of_ofNat _) (quality_byte _), rfl⟩, by simp⟩
    · intro k hk
      cases k <;> simp [items] at hk
  have hmoved : ¬change.q.byte = change.prev.byte := of_decide_eq_false h
  refine bind_ok.mpr ⟨_, hslots, ?_⟩
  change (if change.q.byte = change.prev.byte then _ else _) = _
  rw [if_neg hmoved]
  rfl

theorem items_length (change : VChange) : (bodyItem change.items).spelling.length ≤ 11 := by
  have hsig := ofNat_length_u16 change.sig.raw
  have hq := ofNat_length_u8 change.q.byte
  have hprev := ofNat_length_u8 change.prev.byte
  rw [bodyItem_length (by simp [items]) EntryKey.narrow]
  simp only [items, idItem, List.map_cons, List.map_nil, List.sum_cons, List.sum_nil]
  omega

end VChange

namespace PChange

def wentNowhere (change : PChange) : Bool := decide (change.presence = change.prev)

def entries (change : PChange) : List (EntryKey × List Call) :=
  [(.subject, [.u64 change.dev.raw.toUInt64]), (.now, [.u64 change.presence.byte.toUInt64]),
    (.prev, [.u64 change.prev.byte.toUInt64])]

def encode (change : PChange) : Encoder ChangeError Unit := writeBody 3 change.entries

def Value : EntryKey → Type
  | .subject => Id
  | .now | .prev => Presence

def table : Table ChangeError EntryKey where
  Value := Value
  read
    | .subject => checkedRead (ask u16) newId
    | .now => checkedRead (ask u8) Changes.presence
    | .prev => checkedRead (ask u8) Changes.presence
  twice key := .duplicate (UInt8.ofNat key.number)

def ofSlots (s : table.Slots) : Except ChangeError PChange := do
  let presence : Presence ← slotRequired (.missingEntry 2) (s .now)
  let prev : Presence ← slotRequired (.missingEntry 3) (s .prev)
  if presence = prev then .error .wentNowhere
  else do
    let dev ← slotRequired (.missingEntry 1) (s .subject)
    .ok ⟨dev, presence, prev⟩

def decode : Bytes → Except ChangeError PChange := table.decode ofSlots

def item : ∀ k, Item → Option (table.Value k)
  | .subject => checkedItem u16Of newId
  | .now => checkedItem u8Of Changes.presence
  | .prev => checkedItem u8Of Changes.presence

theorem reads (k : EntryKey) : Reads (fun _ => True) 7 (table.read k) (item k) := by
  cases k with
  | subject => exact checkedRead_reads (.u16 fun _ => trivial) _
  | now => exact checkedRead_reads (.u8 fun _ => trivial) _
  | prev => exact checkedRead_reads (.u8 fun _ => trivial) _

def items (change : PChange) : List (EntryKey × Item) :=
  [(.subject, idItem change.dev), (.now, .ofNat change.presence.byte.toNat), (.prev, .ofNat change.prev.byte.toNat)]

def slots (change : PChange) : table.Slots
  | .subject => some change.dev
  | .now => some change.presence
  | .prev => some change.prev

theorem items_rising (change : PChange) : Rising change.items := by
  simp [Rising, items, BodyKey.number, EntryKey.number]

theorem items_legal (change : PChange) : ∀ e ∈ change.items, e.2.Legal 5 := by
  simp [items, id_legal, byte_legal]

theorem encode_ok (change : PChange) (dst : ℕ) (out : Bytes) : encodeBody change.encode dst = .ok out ↔
    out = (bodyItem change.items).spelling ∧ (bodyItem change.items).spelling.length ≤ dst := by
  have hspelled : Spelled 7 change.entries change.items :=
    .cons ⟨rfl, writes_one rfl⟩ <| .cons ⟨rfl, writes_one rfl⟩ <| .cons ⟨rfl, writes_one rfl⟩ .nil
  exact encode_entries hspelled change.items_rising rfl

theorem decode_item (change : PChange) (h : change.wentNowhere = false) :
    decode (bodyItem change.items).spelling = .ok change := by
  have hlegal : ∀ e ∈ change.items, e.2.Legal 7 := fun e he => (change.items_legal e he).mono (by decide)
  have hslots : decodeBody table.slots (bodyItem change.items).spelling = .ok change.slots := by
    apply (Table.decodes reads).entries change.items_rising hlegal
    · simp only [items, List.forall_mem_cons]
      exact ⟨⟨idItem_read _, rfl⟩, ⟨checkedItem_ok (u8Of_ofNat _) (presence_byte _), rfl⟩,
        ⟨checkedItem_ok (u8Of_ofNat _) (presence_byte _), rfl⟩, by simp⟩
    · intro k hk
      cases k <;> simp [items] at hk
  have hmoved : ¬change.presence = change.prev := of_decide_eq_false h
  refine bind_ok.mpr ⟨_, hslots, ?_⟩
  change (if change.presence = change.prev then _ else _) = _
  rw [if_neg hmoved]
  rfl

theorem items_length (change : PChange) : (bodyItem change.items).spelling.length ≤ 9 := by
  have hdev := ofNat_length_u16 change.dev.raw
  have hbyte (p : Presence) : (Item.ofNat p.byte.toNat).spelling.length ≤ 1 :=
    ofNat_length_inline (by cases p <;> decide)
  have hnow := hbyte change.presence
  have hprev := hbyte change.prev
  rw [bodyItem_length (by simp [items]) EntryKey.narrow]
  simp only [items, idItem, List.map_cons, List.map_nil, List.sum_cons, List.sum_nil]
  omega

end PChange

end Km43.Changes
