import Km43.Cbor.Told
import Km43.Handshake.ReportTrip

namespace Km43.Pairing

open Library Identity Cbor CborReader CborWriter Link Handshake

inductive Pair
  | enrolled
  | windowClosed
  | tableFull
  | reclaimed
  | proceed
  | notStored
  deriving DecidableEq

namespace Pair

def all : List Pair := [enrolled, windowClosed, tableFull, reclaimed, proceed, notStored]

def byte : Pair → UInt8
  | enrolled => 1
  | windowClosed => 2
  | tableFull => 4
  | reclaimed => 5
  | proceed => 6
  | notStored => 7

theorem found (p : Pair) : (all.find? fun q => q.byte == p.byte) = some p := by cases p <;> decide

instance : Numbered Pair := ⟨all, byte, found⟩

end Pair

inductive PairKey
  | outcome
  | clientId
  | generation
  | nextChallenge
  deriving DecidableEq

namespace PairKey

def all : List PairKey := [outcome, clientId, generation, nextChallenge]

theorem keyList : KeyList all := ⟨by decide, fun k => by cases k <;> decide, by decide⟩

instance : Listed PairKey := ⟨all, keyList⟩

end PairKey

inductive PairError
  | duplicate (key : PairKey)
  | missing (key : PairKey)
  | wrongWidth (key : PairKey)
  | unknownOutcome (raw : UInt8)
  | slotOnARefusal
  | cbor (why : CborError)
  deriving DecidableEq

instance : FromCbor PairError := ⟨.cbor⟩

inductive Outcome
  | enrolled (id : ClientId) (generation : Generation)
  | reclaimed (id : ClientId) (generation : Generation)
  | windowClosed
  | tableFull
  | notStored
  deriving DecidableEq

namespace Outcome

def code : Outcome → Pair
  | enrolled .. => .enrolled
  | reclaimed .. => .reclaimed
  | windowClosed => .windowClosed
  | tableFull => .tableFull
  | notStored => .notStored

def slot : Outcome → Option (ClientId × Generation)
  | enrolled id generation | reclaimed id generation => some (id, generation)
  | windowClosed | tableFull | notStored => none

end Outcome

structure EnrolAnswer where
  outcome : Outcome
  nextChallenge : Vector UInt8 16
  deriving DecidableEq

def maxEnrolAnswer : ℕ := 1 + 4 + 1 + 5 + 5 + 1 + 16

namespace EnrolAnswer

def encodeInto (a : EnrolAnswer) : Encoder PairError Unit := do
  tell (CborWriter.map (if a.outcome.slot.isSome then 4 else 2))
  tell (CborWriter.key 1)
  tell (CborWriter.u64 a.outcome.code.byte.toNat)
  Cbor.whenSome a.outcome.slot fun slot => do
    tell (CborWriter.key 2)
    tell (CborWriter.u64 slot.1.get.toNat)
    tell (CborWriter.key 3)
    tell (CborWriter.u64 slot.2.get.toNat)
  tell (CborWriter.key 4)
  tell (CborWriter.bytes a.nextChallenge.toList)

def encode (a : EnrolAnswer) (dst : ℕ) : Except PairError Bytes := encodeBody a.encodeInto dst

def Value : PairKey → Type
  | .outcome => UInt8
  | .clientId => UInt32
  | .generation => UInt32
  | .nextChallenge => Vector UInt8 16

def codec : ∀ k, Codec PairError (Value k)
  | .outcome => .u8
  | .clientId => .u32
  | .generation => .u32
  | .nextChallenge => .fixed 16 fun _ => .wrongWidth .nextChallenge

def table : Table PairError PairKey := .ofCodecs codec .duplicate

def slotOf (id generation : Option UInt32) : Except PairError (ClientId × Generation) := do
  let id ← slotRequired (.missing .clientId) (id.bind NonZeroU32.new)
  let generation ← slotRequired (.missing .generation) (generation.bind NonZeroU32.new)
  .ok (id, generation)

def noneOf (id generation : Option UInt32) (outcome : Outcome) : Except PairError Outcome :=
  if id.isSome || generation.isSome then .error .slotOnARefusal else .ok outcome

def outcomeOf (raw : UInt8) (id generation : Option UInt32) : Pair → Except PairError Outcome
  | .enrolled => do
    let slot ← slotOf id generation
    .ok (.enrolled slot.1 slot.2)
  | .reclaimed => do
    let slot ← slotOf id generation
    .ok (.reclaimed slot.1 slot.2)
  | .windowClosed => noneOf id generation .windowClosed
  | .tableFull => noneOf id generation .tableFull
  | .notStored => noneOf id generation .notStored
  | .proceed => .error (.unknownOutcome raw)

def ofSlots (s : table.Slots) : Except PairError EnrolAnswer := do
  let raw ← slotRequired (.missing .outcome) (s .outcome)
  let code ← Numbered.known .unknownOutcome raw
  let outcome ← outcomeOf raw (s .clientId) (s .generation) code
  let challenge ← slotRequired (.missing .nextChallenge) (s .nextChallenge)
  .ok ⟨outcome, challenge⟩

def decode : Bytes → Except PairError EnrolAnswer := table.decode ofSlots

def slots (a : EnrolAnswer) : ∀ k, Option (Value k)
  | .outcome => some a.outcome.code.byte
  | .clientId => a.outcome.slot.map fun slot => slot.1.get
  | .generation => a.outcome.slot.map fun slot => slot.2.get
  | .nextChallenge => some a.nextChallenge

theorem slotOf_ok {id generation : Option UInt32} {slot : ClientId × Generation} :
    slotOf id generation = .ok slot ↔ id = some slot.1.get ∧ generation = some slot.2.get := by
  unfold slotOf
  simp only [bind_ok, slotRequired_ok, nonZero_bind, Except.ok.injEq]
  constructor
  · rintro ⟨client, hid, number, hgeneration, rfl⟩
    exact ⟨hid, hgeneration⟩
  · rintro ⟨hid, hgeneration⟩
    exact ⟨slot.1, hid, slot.2, hgeneration, rfl⟩

theorem noneOf_ok {id generation : Option UInt32} {outcome found : Outcome} :
    noneOf id generation outcome = .ok found ↔ id = none ∧ generation = none ∧ found = outcome := by
  unfold noneOf
  cases id <;> cases generation <;> simp [eq_comm]

theorem outcomeOf_ok {raw : UInt8} {id generation : Option UInt32} {code : Pair} {outcome : Outcome} :
    outcomeOf raw id generation code = .ok outcome ↔ code = outcome.code ∧
      id = outcome.slot.map (fun slot => slot.1.get) ∧ generation = outcome.slot.map fun slot => slot.2.get := by
  constructor
  · intro h
    cases code with
    | enrolled | reclaimed =>
      obtain ⟨slot, hslot, h⟩ := bind_ok.mp h
      cases h
      exact ⟨rfl, slotOf_ok.mp hslot⟩
    | windowClosed | tableFull | notStored =>
      obtain ⟨hid, hgeneration, rfl⟩ := noneOf_ok.mp h
      exact ⟨rfl, hid, hgeneration⟩
    | proceed => cases h
  · rintro ⟨rfl, rfl, rfl⟩
    cases outcome with
    | enrolled id generation | reclaimed id generation =>
      exact bind_ok.mpr ⟨(id, generation), slotOf_ok.mpr ⟨rfl, rfl⟩, rfl⟩
    | windowClosed | tableFull | notStored => rfl

theorem ofSlots_ok {s : table.Slots} {a : EnrolAnswer} : ofSlots s = .ok a ↔ s = a.slots := by
  constructor
  · intro h
    obtain ⟨raw, hraw, h⟩ := bind_ok.mp h
    obtain ⟨code, hcode, h⟩ := bind_ok.mp h
    obtain ⟨outcome, houtcome, h⟩ := bind_ok.mp h
    obtain ⟨challenge, hchallenge, h⟩ := bind_ok.mp h
    cases h
    obtain ⟨rfl, hid, hgeneration⟩ := outcomeOf_ok.mp houtcome
    obtain rfl := Numbered.byte_known _ _ _ hcode
    funext k
    cases k with
    | outcome => exact slotRequired_ok.mp hraw
    | clientId => exact hid
    | generation => exact hgeneration
    | nextChallenge => exact slotRequired_ok.mp hchallenge
  · rintro rfl
    have hcode : Numbered.known PairError.unknownOutcome a.outcome.code.byte = .ok a.outcome.code :=
      Numbered.known_byte _ _
    have houtcome : outcomeOf a.outcome.code.byte (a.slots .clientId) (a.slots .generation) a.outcome.code =
        .ok a.outcome := outcomeOf_ok.mpr ⟨rfl, rfl, rfl⟩
    exact bind_ok.mpr ⟨_, rfl, bind_ok.mpr ⟨_, hcode, bind_ok.mpr ⟨_, houtcome, bind_ok.mpr ⟨_, rfl, rfl⟩⟩⟩⟩

variable (a : EnrolAnswer)

theorem maySend : MaySend codec a.slots := by
  intro k v _
  cases k with
  | outcome | clientId | generation => trivial
  | nextChallenge => exact Codec.fixed_may (by decide) _ v

def count : UInt64 := if a.outcome.slot.isSome then 4 else 2

theorem slot_tells (slot : ClientId × Generation) : Tells (do
    tell (CborWriter.key 2)
    tell (CborWriter.u64 slot.1.get.toNat)
    tell (CborWriter.key 3)
    tell (CborWriter.u64 slot.2.get.toNat) : Encoder PairError Unit)
    [.key 2, .u64 slot.1.get.toUInt64, .key 3, .u64 slot.2.get.toUInt64] :=
  .cons (c := .key 2) <| .cons (c := .u64 slot.1.get.toUInt64) <| .cons (c := .key 3) <|
    .call (.u64 slot.2.get.toUInt64)

theorem encodeInto_tells : Tells a.encodeInto (.map a.count :: entryCalls (cellCalls codec a.slots)) := by
  obtain ⟨outcome, challenge⟩ := a
  have hlast : Tells (do tell (CborWriter.key 4); tell (CborWriter.bytes challenge.toList) : Encoder PairError Unit)
      [.key 4, .bytes challenge.toList] := .cons (c := .key 4) <| .call (.bytes challenge.toList)
  cases outcome with
  | enrolled id generation =>
    have hslot := (slot_tells (id, generation)).append hlast
    exact .cons (c := .map 4) <| .cons (c := .key 1) <| .cons (c := .u64 1) hslot
  | reclaimed id generation =>
    have hslot := (slot_tells (id, generation)).append hlast
    exact .cons (c := .map 4) <| .cons (c := .key 1) <| .cons (c := .u64 5) hslot
  | windowClosed => exact .cons (c := .map 2) <| .cons (c := .key 1) <| .cons (c := .u64 2) hlast
  | tableFull => exact .cons (c := .map 2) <| .cons (c := .key 1) <| .cons (c := .u64 4) hlast
  | notStored => exact .cons (c := .map 2) <| .cons (c := .key 1) <| .cons (c := .u64 7) hlast

theorem cells_count : (cellCalls codec a.slots).length = a.count.toNat := by
  obtain ⟨outcome, challenge⟩ := a
  cases outcome <;> rfl

theorem encode_ok {dst : ℕ} {out : Bytes} : a.encode dst = .ok out ↔
    out = (bodyItem (cellItems codec a.slots)).spelling ∧ (bodyItem (cellItems codec a.slots)).spelling.length ≤ dst :=
  encode_cells a.encodeInto_tells a.maySend a.cells_count

def width : PairKey → ℕ
  | .outcome => 2
  | .clientId | .generation => 6
  | .nextChallenge => 18

theorem value_length (k : PairKey) (v : Value k) (h : a.slots k = some v) :
    1 + ((codec k).spell v).spelling.length ≤ width k := by
  cases k with
  | outcome =>
    obtain rfl := Option.some.inj h
    have hsmall : a.outcome.code.byte.toNat < 24 := by cases a.outcome.code <;> decide
    exact Nat.add_le_add_left (ofNat_length_inline hsmall) 1
  | clientId | generation => exact Nat.add_le_add_left (ofNat_length_u32 v) 1
  | nextChallenge =>
    have hlen : (Item.ofBytes v.toList).spelling.length ≤ 17 := by
      have hhead := (headBytes_le .bytes (n := v.toList.length)).2.2.2.2 (by rw [v.length_toList]; decide)
      rw [Item.ofBytes, Item.spelling, Token.spelling, List.length_append, hhead, v.length_toList]
    exact Nat.add_le_add_left hlen 1

theorem encodes : a.encode maxEnrolAnswer = .ok (bodyItem (cellItems codec a.slots)).spelling :=
  a.encode_ok.mpr ⟨rfl, cellItems_length a.value_length⟩

theorem decode_ok {a : EnrolAnswer} {payload : Bytes} :
    decode payload = .ok a ↔ Table.Stands (t := table) (fun k => (codec k).item) a.slots payload :=
  (codecs_decode codec .duplicate).value fun _ => ofSlots_ok

theorem decode_encoded : decode (bodyItem (cellItems codec a.slots)).spelling = .ok a :=
  bind_ok.mpr ⟨_, cellItems_decode a.maySend, ofSlots_ok.mpr rfl⟩

/-- What a map says when it is an answer: the outcome, the challenge, and the slot where the outcome names one. -/
structure Shown (ps : List (Key × Item)) : Prop where
  outcome : Cbor.Holds ps 1 (fun i => (u8Of i).bind Numbered.tryFrom) a.outcome.code
  nextChallenge : Cbor.Holds ps 4 (fixedItem 16) a.nextChallenge
  clientId : Shows ps 2 nonZeroItem (a.outcome.slot.map Prod.fst)
  generation : Shows ps 3 nonZeroItem (a.outcome.slot.map Prod.snd)

variable {a} {ps : List (Key × Item)}

theorem nonZero_shows {n : ℤ} {slot : Option NonZeroU32} :
    Shows ps n u32Of (slot.map NonZeroU32.get) ↔ Shows ps n nonZeroItem slot := by
  cases slot with
  | none => exact Iff.rfl
  | some value => exact nonZero_holds

theorem shown_iff : (∀ k, Table.SlotOf (t := table) (fun k => (codec k).item) ps a.slots k) ↔ a.Shown ps := by
  have hid : a.slots .clientId = (a.outcome.slot.map Prod.fst).map NonZeroU32.get := (Option.map_map ..).symm
  have hgeneration : a.slots .generation = (a.outcome.slot.map Prod.snd).map NonZeroU32.get := (Option.map_map ..).symm
  have hchallenge : (codec .nextChallenge).item = fixedItem 16 := fixed_item 16 _
  constructor
  · intro h
    have h₁ : Cbor.Holds ps 1 u8Of a.outcome.code.byte := Table.slotOf_shows.mp (h .outcome)
    have h₂ : Shows ps 2 u32Of (a.slots .clientId) := Table.slotOf_shows.mp (h .clientId)
    have h₃ : Shows ps 3 u32Of (a.slots .generation) := Table.slotOf_shows.mp (h .generation)
    have h₄ : Cbor.Holds ps 4 (codec .nextChallenge).item a.nextChallenge := Table.slotOf_shows.mp (h .nextChallenge)
    rw [hid] at h₂
    rw [hgeneration] at h₃
    rw [hchallenge] at h₄
    exact ⟨numbered_holds.mp h₁, h₄, nonZero_shows.mp h₂, nonZero_shows.mp h₃⟩
  · rintro ⟨h₁, h₄, h₂, h₃⟩ k
    apply Table.slotOf_shows.mpr
    cases k with
    | outcome => exact numbered_holds.mpr h₁
    | clientId =>
      have h := nonZero_shows.mpr h₂
      rw [← hid] at h
      exact h
    | generation =>
      have h := nonZero_shows.mpr h₃
      rw [← hgeneration] at h
      exact h
    | nextChallenge =>
      rw [← hchallenge] at h₄
      exact h₄

theorem decode_shown {payload : Bytes} : decode payload = .ok a ↔ ∃ w ps, (Item.map w ps).Legal maxDepth ∧
    (Item.map w ps).spelling = payload ∧ Keyed ps ∧ a.Shown ps :=
  decode_ok.trans (Table.stands_iff fun _ _ _ => shown_iff)

theorem encode_trip (a : EnrolAnswer) : ∃ out, a.encode maxEnrolAnswer = .ok out ∧ decode out = .ok a :=
  ⟨_, a.encodes, a.decode_encoded⟩

/-- A map that is some answer: a slot, neither half of it zero, exactly where the outcome names one. -/
def Answers (ps : List (Key × Item)) : Prop :=
  ∃ code : Pair, Cbor.Holds ps 1 (fun i => (u8Of i).bind Numbered.tryFrom) code ∧
    (∃ challenge, Cbor.Holds ps 4 (fixedItem 16) challenge) ∧
    ((code = .enrolled ∨ code = .reclaimed) ∧ (∃ id, Cbor.Holds ps 2 nonZeroItem id) ∧
      (∃ generation, Cbor.Holds ps 3 nonZeroItem generation) ∨
      (code = .windowClosed ∨ code = .tableFull ∨ code = .notStored) ∧ ¬HasKey ps 2 ∧ ¬HasKey ps 3)

theorem answers_iff : (∃ a : EnrolAnswer, a.Shown ps) ↔ Answers ps := by
  constructor
  · rintro ⟨⟨outcome, challenge⟩, hcode, hchallenge, hid, hgeneration⟩
    refine ⟨outcome.code, hcode, ⟨challenge, hchallenge⟩, ?_⟩
    cases outcome with
    | enrolled id generation => exact .inl ⟨.inl rfl, ⟨id, hid⟩, ⟨generation, hgeneration⟩⟩
    | reclaimed id generation => exact .inl ⟨.inr rfl, ⟨id, hid⟩, ⟨generation, hgeneration⟩⟩
    | windowClosed => exact .inr ⟨.inl rfl, valueAt_none.mp hid, valueAt_none.mp hgeneration⟩
    | tableFull => exact .inr ⟨.inr (.inl rfl), valueAt_none.mp hid, valueAt_none.mp hgeneration⟩
    | notStored => exact .inr ⟨.inr (.inr rfl), valueAt_none.mp hid, valueAt_none.mp hgeneration⟩
  · rintro ⟨code, hcode, ⟨challenge, hchallenge⟩, hslot⟩
    rcases hslot with ⟨hnames, ⟨id, hid⟩, ⟨generation, hgeneration⟩⟩ | ⟨hnames, hid, hgeneration⟩
    · rcases hnames with rfl | rfl
      · exact ⟨⟨.enrolled id generation, challenge⟩, hcode, hchallenge, hid, hgeneration⟩
      · exact ⟨⟨.reclaimed id generation, challenge⟩, hcode, hchallenge, hid, hgeneration⟩
    · have hempty := valueAt_none.mpr hid
      have hempty' := valueAt_none.mpr hgeneration
      rcases hnames with rfl | rfl | rfl
      · exact ⟨⟨.windowClosed, challenge⟩, hcode, hchallenge, hempty, hempty'⟩
      · exact ⟨⟨.tableFull, challenge⟩, hcode, hchallenge, hempty, hempty'⟩
      · exact ⟨⟨.notStored, challenge⟩, hcode, hchallenge, hempty, hempty'⟩

theorem decode_order {w w' : Width} {ps qs extra : List (Key × Item)} (hqs : qs.Perm (ps ++ extra))
    (hextra : Unread table.Known extra) (hlegal : (Item.map w ps).Legal maxDepth)
    (hlegal' : (Item.map w' qs).Legal maxDepth) :
    decode (Item.map w ps).spelling = .ok a ↔ decode (Item.map w' qs).spelling = .ok a := by
  rw [decode, Table.decode, Table.decode, bind_ok, bind_ok]
  exact exists_congr fun s => and_congr_left fun _ =>
    (codecs_decode codec .duplicate).order hqs hextra hlegal hlegal' s

end EnrolAnswer

end Km43.Pairing
