import Km43.Cbor.Deferred
import Km43.Concerns.RowTrip

namespace Km43.Concerns

open Library Cbor CborReader CborWriter Readings

def maxConcernPageRows : ℕ := 12
def maxConcernPageBytes : ℕ := 832

inductive RaisedKey
  | rev
  | concern
  deriving DecidableEq

namespace RaisedKey

def of (number : ℤ) : Option RaisedKey := if number = 1 then some rev else if number = 2 then some concern else none

def number : RaisedKey → ℕ
  | rev => 1
  | concern => 2

theorem of_iff (n : ℤ) (k : RaisedKey) : of n = some k ↔ n = k.number := by
  constructor
  · intro h
    unfold of at h
    split_ifs at h <;> cases h <;> assumption
  · rintro rfl
    cases k <;> rfl

theorem small (k : RaisedKey) : k.number < 256 := by cases k <;> decide

end RaisedKey

instance : BodyKey RaisedKey := ⟨RaisedKey.of, RaisedKey.number, RaisedKey.of_iff, RaisedKey.small⟩

structure ConcernRaised where
  rev : UInt32
  concern : Concern

namespace ConcernRaised

def write (raised : ConcernRaised) : Encoder ConcernsError Unit := do
  tell (Call.map 2).write
  tell (keyCall RaisedKey.rev).write
  tell (Call.u64 raised.rev.toUInt64).write
  tell (keyCall RaisedKey.concern).write
  raised.concern.encode

def encode (raised : ConcernRaised) (dst : ℕ) : Except ConcernsError Bytes := encodeBody raised.write dst

def Value : RaisedKey → Type
  | .rev => UInt32
  | .concern => Concern

def table : Table ConcernsError RaisedKey where
  Value := Value
  read
    | .rev => ask u32
    | .concern => checkedRead (ask raw) Concern.decode
  twice key := .duplicate (UInt8.ofNat key.number)

def ofSlots (s : table.Slots) : Except ConcernsError ConcernRaised := do
  let rev ← slotRequired (.missingEvent 1) (s .rev)
  let concern ← slotRequired (.missingEvent 2) (s .concern)
  .ok ⟨rev, concern⟩

def decode : Bytes → Except ConcernsError ConcernRaised := table.decode ofSlots

def item : ∀ k, Item → Option (table.Value k)
  | .rev => u32Of
  | .concern => fun i => (Concern.decode i.spelling).toOption

def arms : ∀ k, table.Arm 7 item k
  | .rev => .typed (.u32 fun _ => trivial)
  | .concern => .kept Concern.decode rfl fun _ => rfl

def items (raised : ConcernRaised) : List (RaisedKey × Item) :=
  [(.rev, .ofNat raised.rev.toNat), (.concern, bodyItem raised.concern.items)]

def slots (raised : ConcernRaised) : table.Slots
  | .rev => some raised.rev
  | .concern => some raised.concern

variable {raised : ConcernRaised}

theorem items_rising : Rising raised.items := by
  simp [Rising, items, BodyKey.number, RaisedKey.number]

theorem items_legal : ∀ e ∈ raised.items, e.2.Legal 7 := by
  have hrev := raised.rev.toNat_lt
  intro e he
  simp only [items, List.mem_cons, List.not_mem_nil, or_false] at he
  rcases he with rfl | rfl
  · exact Item.ofNat_legal (by omega)
  · exact bodyItem_legal raised.concern.items_rising raised.concern.items_legal

theorem encode_ok {dst : ℕ} {out : Bytes} : raised.encode dst = .ok out ↔ raised.concern.unnamed = false ∧
    out = (bodyItem raised.items).spelling ∧ (bodyItem raised.items).spelling.length ≤ dst := by
  cases hunnamed : raised.concern.unnamed with
  | true =>
    constructor
    · intro h
      obtain ⟨⟨⟨⟩, w⟩, hwrite, -⟩ := bind_ok.mp h
      simp only [write, bind_run_ok, Concern.encode, hunnamed] at hwrite
      obtain ⟨_, _, -, _, _, -, _, _, -, _, _, -, ⟨⟩⟩ := hwrite
    · rintro ⟨⟨⟩, -⟩
  | false =>
    rw [and_iff_right rfl]
    have hrow : raised.concern.encode = writeBody (UInt64.ofNat raised.concern.pairs) raised.concern.entries := by
      rw [Concern.encode, hunnamed]
      rfl
    have hspelled : Spelled 7 [(RaisedKey.rev, [.u64 raised.rev.toUInt64]),
        (.concern, .map (UInt64.ofNat raised.concern.pairs) :: entryCalls raised.concern.entries)] raised.items :=
      .cons ⟨rfl, writes_one rfl⟩ <| .cons ⟨rfl, (bodyItem_writes raised.concern.items_spelled
        raised.concern.items_rising raised.concern.items_count)⟩ .nil
    have htells : Tells raised.write (.map 2 :: entryCalls [(RaisedKey.rev, [.u64 raised.rev.toUInt64]),
        (.concern, .map (UInt64.ofNat raised.concern.pairs) :: entryCalls raised.concern.entries)]) := by
      unfold write
      rw [hrow]
      simp only [entryCalls, List.flatMap_cons, List.flatMap_nil, List.append_nil, List.cons_append, List.nil_append]
      exact .cons <| .cons <| .cons <| .cons (writeBody_tells _ _)
    exact encodeBody_item htells (bodyItem_writes hspelled items_rising rfl)

theorem decode_items (hnamed : raised.concern.unnamed = false) : decode (bodyItem raised.items).spelling = .ok raised := by
  have hrow := Concern.decode_items hnamed
  have hslots : decodeBody table.slots (bodyItem raised.items).spelling = .ok raised.slots := by
    apply (Table.arms_decode arms).entries items_rising items_legal
    · simp only [items, List.forall_mem_cons]
      exact ⟨⟨u32Of_ofNat _, rfl⟩, ⟨congrArg Except.toOption hrow, rfl⟩, by simp⟩
    · intro k hk
      cases k <;> simp [items] at hk
  exact bind_ok.mpr ⟨_, hslots, rfl⟩

end ConcernRaised

structure ConcernsPage where
  rows : Packed
  next : UInt16

namespace ConcernsPage

def new : ConcernsPage := ⟨.empty, 0⟩

/-- Whether the page took the row; where it did not, the row is where the next page resumes. -/
def push (page : ConcernsPage) (concern : Concern) : Except ConcernsError Bool × ConcernsPage :=
  let pushed := page.rows.push maxConcernPageRows concernMaxBytes maxConcernPageBytes concern.encode
  (pushed.1, ⟨pushed.2, match pushed.1 with
    | .ok false => concern.cid.raw
    | _ => page.next⟩)

theorem push_error {page : ConcernsPage} {concern : Concern} {why : ConcernsError}
    (h : (page.push concern).1 = .error why) : concern.unnamed = true ∧ why = .conditionWithoutCode concern.cond := by
  have hrefused := Packed.push_error h
  cases hunnamed : concern.unnamed with
  | false =>
    have hfits : encodeBody concern.encode concernMaxBytes = .ok _ :=
      Concern.encode_ok.mpr ⟨hunnamed, rfl, concern.items_length⟩
    rw [hfits] at hrefused
    cases hrefused
  | true =>
    rw [Concern.encode, hunnamed] at hrefused
    cases hrefused
    exact ⟨rfl, rfl⟩

end ConcernsPage

/-- The conditional keys of a row stand together: code and namespace, element and signal, condition and code. -/
structure Paired (ps : List (Key × Item)) : Prop where
  code : HasKey ps 11 ↔ HasKey ps 12
  element : HasKey ps 5 → HasKey ps 4
  condition : ∀ i cond, valueAt ps 6 = some i → u16Of i = some cond → (Condition.mk cond).needsVendorCode = true →
    HasKey ps 11

theorem decode_paired {w : Width} {ps : List (Key × Item)} (hlegal : (Item.map w ps).Legal maxDepth) {c : Concern}
    (h : Concern.decode (Item.map w ps).spelling = .ok c) : Paired ps := by
  obtain ⟨hnamed, w', qs, hi, hspell, -, hslots⟩ := Concern.decode_ok.mp h
  obtain ⟨rfl, rfl⟩ := Item.map.inj (Item.spelling_inj hi hlegal hspell)
  have hkey : ∀ k : ConcernKey, HasKey qs k.number ↔ (c.slots k).isSome := fun k => (hslots k).has
  refine ⟨?_, ?_, ?_⟩
  · refine (hkey .raw).trans (Iff.trans ?_ (hkey .vns).symm)
    simp only [Concern.slots]
    cases c.code <;> exact Iff.rfl
  · intro helem
    apply (hkey .sig).mpr
    have hplace := (hkey .elem).mp helem
    revert hplace
    simp only [Concern.slots]
    cases c.subject with
    | part part => exact fun h => h
    | signal part sig | element part sig place => exact fun _ => rfl
  · intro i cond hvalue hcond hneeds
    apply (hkey .raw).mpr
    have hslot := hslots .cond
    have hheld : c.cond = ⟨cond⟩ := by
      unfold Table.SlotOf at hslot
      rw [show valueAt qs (BodyKey.number ConcernKey.cond) = some i from hvalue] at hslot
      have hread : (u16Of i).map Condition.mk = some c.cond := hslot.1
      rw [hcond] at hread
      exact (Option.some.inj hread).symm
    change (c.code.map VendorCode.raw).isSome = true
    rw [Option.isSome_map]
    unfold Concern.unnamed at hnamed
    rw [hheld, hneeds] at hnamed
    simpa using hnamed

/-- Every row that may be written is read back as it was, nothing else is read, and no page refuses it. -/
theorem concerns_agree :
    (∀ (c : Concern) dst, c.unnamed = false → concernMaxBytes ≤ dst →
      ∃ out, encodeBody c.encode dst = .ok out ∧ out.length ≤ concernMaxBytes ∧ Concern.decode out = .ok c) ∧
    (∀ (c : Concern) dst out, encodeBody c.encode dst = .ok out → Concern.decode out = .ok c) ∧
    (∀ raised : ConcernRaised, raised.concern.unnamed = false →
      ∃ size, ∀ dst, size ≤ dst → ∃ out, raised.encode dst = .ok out ∧ ConcernRaised.decode out = .ok raised) ∧
    (∀ (raised : ConcernRaised) dst out, raised.encode dst = .ok out → ConcernRaised.decode out = .ok raised) ∧
    (∀ payload c, Concern.decode payload = .ok c → c.unnamed = false) ∧
    (∀ w ps, (Item.map w ps).Legal maxDepth → ¬Paired ps → ∃ why, Concern.decode (Item.map w ps).spelling = .error why) ∧
    ∀ (page : ConcernsPage) concern why, (page.push concern).1 = .error why →
      concern.unnamed = true ∧ why = .conditionWithoutCode concern.cond := by
  refine ⟨?_, ?_, ?_, ?_, ?_, ?_, fun _ _ _ => ConcernsPage.push_error⟩
  · intro c dst hnamed hdst
    have hlength := c.items_length
    exact ⟨_, Concern.encode_ok.mpr ⟨hnamed, rfl, hlength.trans hdst⟩, hlength, Concern.decode_items hnamed⟩
  · intro c dst out h
    obtain ⟨hnamed, rfl, -⟩ := Concern.encode_ok.mp h
    exact Concern.decode_items hnamed
  · intro raised hnamed
    refine ⟨(bodyItem raised.items).spelling.length, fun dst hdst => ?_⟩
    exact ⟨_, ConcernRaised.encode_ok.mpr ⟨hnamed, rfl, hdst⟩, ConcernRaised.decode_items hnamed⟩
  · intro raised dst out h
    obtain ⟨hnamed, rfl, -⟩ := ConcernRaised.encode_ok.mp h
    exact ConcernRaised.decode_items hnamed
  · intro payload c h
    exact (Concern.decode_ok.mp h).1
  · intro w ps hlegal hpaired
    cases h : Concern.decode (Item.map w ps).spelling with
    | error why => exact ⟨why, rfl⟩
    | ok c => exact absurd (decode_paired hlegal h) hpaired

end Km43.Concerns
