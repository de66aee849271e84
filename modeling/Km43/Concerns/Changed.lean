import Km43.Concerns.RowTrip

namespace Km43.Concerns

open Library Cbor CborReader CborWriter Readings

inductive ChangedKey
  | rev
  | cid
  | dev
  | cond
  | state
  | prev
  deriving DecidableEq

namespace ChangedKey

def of (number : ℤ) : Option ChangedKey :=
  if number = 1 then some rev else if number = 2 then some cid else if number = 3 then some dev
  else if number = 4 then some cond else if number = 5 then some state else if number = 6 then some prev else none

def number : ChangedKey → ℕ
  | rev => 1
  | cid => 2
  | dev => 3
  | cond => 4
  | state => 5
  | prev => 6

theorem of_iff (n : ℤ) (k : ChangedKey) : of n = some k ↔ n = k.number := by
  constructor
  · intro h
    unfold of at h
    split_ifs at h <;> cases h <;> assumption
  · rintro rfl
    cases k <;> rfl

theorem narrow (k : ChangedKey) : k.number < 24 := by cases k <;> decide

theorem small (k : ChangedKey) : k.number < 256 := k.narrow.trans (by decide)

end ChangedKey

instance : BodyKey ChangedKey := ⟨ChangedKey.of, ChangedKey.number, ChangedKey.of_iff, ChangedKey.small⟩

structure ConcernChanged where
  rev : UInt32
  cid : Id
  dev : Id
  cond : Condition
  state : ConcernState
  prev : ConcernState

namespace ConcernChanged

def entries (c : ConcernChanged) : List (ChangedKey × List Call) :=
  [(.rev, [.u64 c.rev.toUInt64]), (.cid, [.u64 c.cid.raw.toUInt64]), (.dev, [.u64 c.dev.raw.toUInt64]),
    (.cond, [.u64 c.cond.raw.toUInt64]), (.state, [.u64 c.state.byte.toUInt64]), (.prev, [.u64 c.prev.byte.toUInt64])]

def encode (c : ConcernChanged) (dst : ℕ) : Except ConcernsError Bytes := encodeBody (writeBody 6 c.entries) dst

def Value : ChangedKey → Type
  | .rev => UInt32
  | .cid | .dev => Id
  | .cond => Condition
  | .state | .prev => ConcernState

def table : Table ConcernsError ChangedKey where
  Value := Value
  read
    | .rev => ask u32
    | .cid => checkedRead (ask u16) newId
    | .dev => checkedRead (ask u16) newId
    | .cond => Concern.readCondition
    | .state => checkedRead (ask u8) concernState
    | .prev => checkedRead (ask u8) concernState
  twice key := .duplicate (UInt8.ofNat key.number)

def ofSlots (s : table.Slots) : Except ConcernsError ConcernChanged := do
  let state : ConcernState ← slotRequired (.missingEvent 5) (s .state)
  let prev : ConcernState ← slotRequired (.missingEvent 6) (s .prev)
  if state = prev then .error (.wentNowhere state)
  else do
    let rev : UInt32 ← slotRequired (.missingEvent 1) (s .rev)
    let cid : Id ← slotRequired (.missingEvent 2) (s .cid)
    let dev : Id ← slotRequired (.missingEvent 3) (s .dev)
    let cond : Condition ← slotRequired (.missingEvent 4) (s .cond)
    .ok ⟨rev, cid, dev, cond, state, prev⟩

def decode : Bytes → Except ConcernsError ConcernChanged := table.decode ofSlots

def item : ∀ k, Item → Option (table.Value k)
  | .rev => u32Of
  | .cid | .dev => checkedItem u16Of newId
  | .cond => fun i => (u16Of i).map Condition.mk
  | .state | .prev => checkedItem u8Of concernState

theorem reads (k : ChangedKey) : Reads (fun _ => True) 7 (table.read k) (item k) := by
  cases k with
  | rev => exact .u32 fun _ => trivial
  | cid | dev => exact checkedRead_reads (.u16 fun _ => trivial) _
  | cond => exact (Reads.u16 fun _ => trivial).mapped _
  | state | prev => exact checkedRead_reads (.u8 fun _ => trivial) _

def items (c : ConcernChanged) : List (ChangedKey × Item) :=
  [(.rev, .ofNat c.rev.toNat), (.cid, .ofNat c.cid.raw.toNat), (.dev, .ofNat c.dev.raw.toNat),
    (.cond, .ofNat c.cond.raw.toNat), (.state, .ofNat c.state.byte.toNat), (.prev, .ofNat c.prev.byte.toNat)]

def slots (c : ConcernChanged) : table.Slots
  | .rev => some c.rev
  | .cid => some c.cid
  | .dev => some c.dev
  | .cond => some c.cond
  | .state => some c.state
  | .prev => some c.prev

variable (c : ConcernChanged)

theorem items_rising : Rising c.items := by
  simp [Rising, items, BodyKey.number, ChangedKey.number]

theorem items_legal : ∀ e ∈ c.items, e.2.Legal 7 := by
  have hrev := c.rev.toNat_lt
  have hid : ∀ n : UInt16, (Item.ofNat n.toNat).Legal 7 := fun n => Item.ofNat_legal (by have := n.toNat_lt; omega)
  have hbyte : ∀ n : UInt8, (Item.ofNat n.toNat).Legal 7 := fun n => Item.ofNat_legal (by have := n.toNat_lt; omega)
  simp only [items, List.forall_mem_cons]
  exact ⟨Item.ofNat_legal (by omega), hid _, hid _, hid _, hbyte _, hbyte _, by simp⟩

theorem encode_ok {dst : ℕ} {out : Bytes} : c.encode dst = .ok out ↔
    out = (bodyItem c.items).spelling ∧ (bodyItem c.items).spelling.length ≤ dst := by
  have hspelled : Spelled 7 c.entries c.items :=
    .cons ⟨rfl, writes_one rfl⟩ <| .cons ⟨rfl, writes_one rfl⟩ <| .cons ⟨rfl, writes_one rfl⟩ <|
      .cons ⟨rfl, writes_one rfl⟩ <| .cons ⟨rfl, writes_one rfl⟩ <| .cons ⟨rfl, writes_one rfl⟩ .nil
  exact encode_entries hspelled c.items_rising rfl

theorem decode_items : decode (bodyItem c.items).spelling =
    if c.state = c.prev then .error (.wentNowhere c.state) else .ok c := by
  have hslots : decodeBody table.slots (bodyItem c.items).spelling = .ok c.slots := by
    apply (Table.decodes reads).entries c.items_rising c.items_legal
    · simp only [items, List.forall_mem_cons]
      exact ⟨⟨u32Of_ofNat _, rfl⟩, ⟨checkedItem_ok (u16Of_ofNat _) (newId_raw _), rfl⟩,
        ⟨checkedItem_ok (u16Of_ofNat _) (newId_raw _), rfl⟩, ⟨congrArg (Option.map Condition.mk) (u16Of_ofNat _), rfl⟩,
        ⟨checkedItem_ok (u8Of_ofNat _) (concernState_byte _), rfl⟩,
        ⟨checkedItem_ok (u8Of_ofNat _) (concernState_byte _), rfl⟩, by simp⟩
    · intro k hk
      cases k <;> simp [items] at hk
  rw [decode, Table.decode, hslots]
  rfl

/-- What is written is read back as it was, and what would not be read is not written. -/
def Agrees : Prop :=
  (∀ dst out, c.encode dst = .ok out → decode out = .ok c) ∧
  ((∃ why, decode (bodyItem c.items).spelling = .error why) → ∀ dst, ∃ why, c.encode dst = .error why)

/-- The two sides agree of exactly the changes that moved, since the encoder looks at neither state. -/
theorem agrees_iff : c.Agrees ↔ c.state ≠ c.prev := by
  constructor
  · rintro ⟨-, hrefuses⟩ hstill
    have hdecode := c.decode_items
    rw [if_pos hstill] at hdecode
    obtain ⟨why, hencode⟩ := hrefuses ⟨_, hdecode⟩ (bodyItem c.items).spelling.length
    rw [c.encode_ok.mpr ⟨rfl, le_rfl⟩] at hencode
    cases hencode
  · intro hmoved
    have hdecode := c.decode_items
    rw [if_neg hmoved] at hdecode
    constructor
    · intro dst out hencode
      obtain ⟨rfl, -⟩ := c.encode_ok.mp hencode
      exact hdecode
    · rintro ⟨why, hwhy⟩
      rw [hdecode] at hwhy
      cases hwhy

theorem one_nonzero : (1 : UInt16) ≠ 0 := by decide

def still : ConcernChanged := ⟨1, ⟨1, one_nonzero⟩, ⟨1, one_nonzero⟩, ⟨4⟩, .cleared, .cleared⟩

theorem still_written : ∃ out, still.encode 64 = .ok out ∧ decode out = .error (.wentNowhere .cleared) := by
  refine ⟨_, still.encode_ok.mpr ⟨rfl, by decide⟩, ?_⟩
  rw [decode_items]
  rfl

end ConcernChanged

end Km43.Concerns
