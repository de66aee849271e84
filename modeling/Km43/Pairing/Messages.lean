import Km43.Handshake.Closed
import Km43.Mac.Purposes
import Km43.Membership.ClientRows
import Km43.Noise.Honest

namespace Km43.Pairing

open Library Identity Cbor CborReader CborWriter Sealed Link Handshake Noise Km43.Membership

inductive PairOfferKey
  | protocolMajor
  | protocolMinor
  | clientVersion
  | clientKind
  | label
  deriving DecidableEq

namespace PairOfferKey

def all : List PairOfferKey := [protocolMajor, protocolMinor, clientVersion, clientKind, label]

theorem keyList : KeyList all := ⟨by decide, fun k => by cases k <;> decide, by decide⟩

instance : Listed PairOfferKey := ⟨all, keyList⟩

end PairOfferKey

/-- The keys of the bodies before the answer, and of the offer, so that one refusal can name any of them. -/
inductive PairBodyKey
  | suite
  | handshake
  | outcome
  | refusal
  | offer (key : PairOfferKey)
  deriving DecidableEq

inductive PairingError
  | unknownKey (number : ℤ)
  | duplicate (key : PairBodyKey)
  | missing (key : PairBodyKey)
  | unsupportedSuite (suite : UInt8)
  | unknownKind (raw : UInt8)
  | labelTooLong (length : ℕ)
  | unknownOutcome (raw : UInt8)
  | noise (why : NoiseError)
  | refusal (why : MacError)
  | notTheLabelsController
  | notThisRequest (reqId : UInt32)
  | wrongMessage (expected found : MessageType)
  | sealed (why : SealError)
  | answer (why : PairError)
  | envelope (why : EnvelopeError)
  | cbor (why : CborError)
  deriving DecidableEq

instance : FromCbor PairingError := ⟨.cbor⟩

def maxPairOffer : ℕ := 1 + 5 + 2 + 2 + 2 + maxString + 2 + 2 + maxLabel

def maxPairMessage1 : ℕ := Noise.keyBytes + maxPairOffer + tagBytes

def emptyMap : Bytes := [0xA0]

def pairMessage2 : ℕ := Noise.keyBytes + sealedKeyBytes + emptyMap.length + tagBytes

def pairMessage3 : ℕ := sealedKeyBytes + emptyMap.length + tagBytes

def expected (header : Header) (kind : MessageType) : Except PairingError Unit :=
  if header.kind = kind then .ok () else .error (.wrongMessage kind header.kind)

structure PairOffer where
  version : Version
  clientVersion : Str
  clientKind : ClientKind
  label : Str
  deriving DecidableEq

def labelFits (label : Str) : Except PairingError Str :=
  if label.raw.length > maxLabel then .error (.labelTooLong label.raw.length) else .ok label

theorem labelFits_ok {label found : Str} : labelFits label = .ok found ↔ label.raw.length ≤ maxLabel ∧ found = label := by
  unfold labelFits
  split_ifs with h
  · simp [Nat.not_le.mpr h]
  · simp [Nat.not_lt.mp h, eq_comm]

theorem labelFits_only (label found : Str) (h : labelFits label = .ok found) : id found = label := (labelFits_ok.mp h).2

namespace PairOffer

def encodeInto (o : PairOffer) : Encoder PairingError Unit := do
  tell (CborWriter.map 5)
  tell (CborWriter.key 1)
  tell (CborWriter.u64 o.version.major.toNat)
  tell (CborWriter.key 2)
  tell (CborWriter.u64 o.version.minor.toNat)
  tell (CborWriter.key 3)
  tell (CborWriter.text o.clientVersion.raw)
  tell (CborWriter.key 4)
  tell (CborWriter.u64 o.clientKind.byte.toNat)
  tell (CborWriter.key 5)
  tell (CborWriter.text o.label.raw)

def encode (o : PairOffer) (dst : ℕ) : Except PairingError Bytes :=
  if o.label.raw.length > maxLabel then .error (.labelTooLong o.label.raw.length) else encodeBody o.encodeInto dst

def Value : PairOfferKey → Type
  | .protocolMajor => UInt8
  | .protocolMinor => UInt8
  | .clientVersion => Str
  | .clientKind => ClientKind
  | .label => Str

def codec : ∀ k, Codec PairingError (Value k)
  | .protocolMajor => .u8
  | .protocolMinor => .u8
  | .clientVersion => .text
  | .clientKind => (Codec.closed .unknownKind : Codec PairingError ClientKind)
  | .label => Codec.text.checked labelFits id labelFits_only

def table : Table PairingError PairOfferKey := .ofCodecs codec fun k => .duplicate (.offer k)

def complete (s : table.Slots) : Except PairingError PairOffer := do
  let major ← slotRequired (.missing (.offer .protocolMajor)) (s .protocolMajor)
  let minor ← slotRequired (.missing (.offer .protocolMinor)) (s .protocolMinor)
  let clientVersion ← slotRequired (.missing (.offer .clientVersion)) (s .clientVersion)
  let clientKind ← slotRequired (.missing (.offer .clientKind)) (s .clientKind)
  let label ← slotRequired (.missing (.offer .label)) (s .label)
  .ok ⟨⟨major, minor⟩, clientVersion, clientKind, label⟩

def decode : Bytes → Except PairingError PairOffer := table.decode complete

end PairOffer

inductive PairRequestKey
  | suite
  | handshake
  deriving DecidableEq

namespace PairRequestKey

def all : List PairRequestKey := [suite, handshake]

theorem keyList : KeyList all := ⟨by decide, fun k => by cases k <;> decide, by decide⟩

instance : Listed PairRequestKey := ⟨all, keyList⟩

def name : PairRequestKey → PairBodyKey
  | suite => .suite
  | handshake => .handshake

end PairRequestKey

structure PairArrival where
  header : Header
  handshake : Bytes

namespace PairArrival

def Value : PairRequestKey → Type
  | .suite => UInt8
  | .handshake => Bytes

def codec : ∀ k, Codec PairingError (Value k)
  | .suite => .u8
  | .handshake => .bytes

def table : Table PairingError PairRequestKey := .ofCodecs codec fun k => .duplicate k.name

def complete (header : Header) (s : table.Slots) : Except PairingError PairArrival := do
  let raw ← slotRequired (.missing .suite) (s .suite)
  let _ ← (Numbered.known .unsupportedSuite raw : Except PairingError Suite)
  let handshake ← slotRequired (.missing .handshake) (s .handshake)
  .ok ⟨header, handshake⟩

def decode (envelope : Envelope) : Except PairingError PairArrival := do
  expected envelope.header .pair
  let s ← closedSlots table .unknownKey envelope
  complete envelope.header s

def encodeInto (a : PairArrival) (suite : Suite) : Encoder PairingError Unit := do
  mapErr (fun why => .envelope (.cbor why)) (a.header.write 2)
  tell (CborWriter.key 1)
  tell (CborWriter.u64 suite.byte.toNat)
  tell (CborWriter.key 2)
  tell (CborWriter.bytes a.handshake)

def slots (a : PairArrival) (suite : Suite) : ∀ k, Option (Value k)
  | .suite => some suite.byte
  | .handshake => some a.handshake

end PairArrival

inductive PairRefusal
  | windowClosed
  | tableFull
  deriving DecidableEq

def PairRefusal.outcome : PairRefusal → Pair
  | windowClosed => .windowClosed
  | tableFull => .tableFull

inductive PairReplyKey
  | outcome
  | handshake
  | refusal
  deriving DecidableEq

namespace PairReplyKey

def all : List PairReplyKey := [outcome, handshake, refusal]

theorem keyList : KeyList all := ⟨by decide, fun k => by cases k <;> decide, by decide⟩

instance : Listed PairReplyKey := ⟨all, keyList⟩

def name : PairReplyKey → PairBodyKey
  | outcome => .outcome
  | handshake => .handshake
  | refusal => .refusal

end PairReplyKey

inductive PairSaid
  | proceed (message : Bytes)
  | refused (refusal : PairRefusal) (tag : Bytes)
  deriving DecidableEq

namespace PairSaid

def Value : PairReplyKey → Type
  | .outcome => UInt8
  | .handshake => Bytes
  | .refusal => Bytes

def codec : ∀ k, Codec PairingError (Value k)
  | .outcome => .u8
  | .handshake => .bytes
  | .refusal => .bytes

def table : Table PairingError PairReplyKey := .ofCodecs codec fun k => .duplicate k.name

def refusedBy (refusal : PairRefusal) (s : table.Slots) : Except PairingError PairSaid :=
  if (s .handshake).isSome then .error (.unknownKey 2)
  else do
    let tag ← slotRequired (.missing .refusal) (s .refusal)
    .ok (refused refusal tag)

def complete (s : table.Slots) : Except PairingError PairSaid := do
  let raw ← slotRequired (.missing .outcome) (s .outcome)
  match (Numbered.tryFrom raw : Option Pair) with
  | some .windowClosed => refusedBy .windowClosed s
  | some .tableFull => refusedBy .tableFull s
  | some .proceed =>
    if (s .refusal).isSome then .error (.unknownKey 3)
    else do
      let message ← slotRequired (.missing .handshake) (s .handshake)
      .ok (proceed message)
  | some .enrolled | some .reclaimed | some .notStored | none => .error (.unknownOutcome raw)

def decode (envelope : Envelope) : Except PairingError PairSaid := do
  let s ← closedSlots table .unknownKey envelope
  complete s

def encodeInto (header : Header) : PairSaid → Encoder PairingError Unit
  | proceed message => do
    mapErr (fun why => .envelope (.cbor why)) (header.write 2)
    tell (CborWriter.key 1)
    tell (CborWriter.u64 Pair.proceed.byte.toNat)
    tell (CborWriter.key 2)
    tell (CborWriter.bytes message)
  | refused refusal tag => do
    mapErr (fun why => .envelope (.cbor why)) (header.write 2)
    tell (CborWriter.key 1)
    tell (CborWriter.u64 refusal.outcome.byte.toNat)
    tell (CborWriter.key 3)
    tell (CborWriter.bytes tag)

def slots : PairSaid → ∀ k, Option (Value k)
  | proceed _, .outcome => some Pair.proceed.byte
  | proceed message, .handshake => some message
  | proceed _, .refusal => none
  | refused refusal _, .outcome => some refusal.outcome.byte
  | refused _ _, .handshake => none
  | refused _ tag, .refusal => some tag

end PairSaid

def enrolMessage : Envelope → Except PairingError Bytes :=
  messageBody .unknownKey (.duplicate .handshake) (.missing .handshake)

def encodeEnrol : Header → Bytes → Encoder PairingError Unit := encodeMessage fun why => .envelope (.cbor why)

theorem expected_ok {header : Header} {kind : MessageType} : expected header kind = .ok () ↔ header.kind = kind := by
  unfold expected
  split_ifs with h <;> simp [h]

namespace PairOffer

def slots (o : PairOffer) : ∀ k, Option (Value k)
  | .protocolMajor => some o.version.major
  | .protocolMinor => some o.version.minor
  | .clientVersion => some o.clientVersion
  | .clientKind => some o.clientKind
  | .label => some o.label

structure Fits (o : PairOffer) : Prop where
  clientVersion : o.clientVersion.raw.length ≤ maxString
  label : o.label.raw.length ≤ maxLabel

variable {o : PairOffer}

theorem complete_ok {s : table.Slots} : complete s = .ok o ↔ s = o.slots := by
  simp only [complete, bind_ok, slotRequired_ok]
  constructor
  · rintro ⟨major, h₁, minor, h₂, clientVersion, h₃, clientKind, h₄, label, h₅, ⟨⟩⟩
    funext k
    cases k <;> assumption
  · rintro rfl
    exact ⟨_, rfl, _, rfl, _, rfl, _, rfl, _, rfl, rfl⟩

theorem maySend (h : o.Fits) : MaySend codec o.slots := by
  intro k v hv
  cases k with
  | protocolMajor | protocolMinor => trivial
  | clientVersion =>
    obtain rfl := Option.some.inj hv
    exact h.clientVersion
  | clientKind => exact Codec.closed_may (α := ClientKind) _ v
  | label =>
    obtain rfl := Option.some.inj hv
    exact ⟨h.label.trans (by decide), labelFits_ok.mpr ⟨h.label, rfl⟩⟩

theorem encodeInto_tells (o : PairOffer) : Tells o.encodeInto (.map 5 :: entryCalls (cellCalls codec o.slots)) := by
  refine .cons (c := .map 5) ?_
  refine .entryCons PairOfferKey.protocolMajor (.u64 o.version.major.toUInt64) ?_
  refine .entryCons PairOfferKey.protocolMinor (.u64 o.version.minor.toUInt64) ?_
  refine .entryCons PairOfferKey.clientVersion (.text o.clientVersion) ?_
  refine .entryCons PairOfferKey.clientKind (.u64 o.clientKind.byte.toUInt64) ?_
  exact .entry PairOfferKey.label (.text o.label)

theorem encode_fits {dst : ℕ} {out : Bytes} (h : o.encode dst = .ok out) : o.Fits := by
  unfold encode at h
  split_ifs at h with hlabel
  obtain ⟨w, w', len, hw, -⟩ := (encodeBody_ok o.encodeInto_tells).mp h
  have hmem : Call.text o.clientVersion ∈ Call.map 5 :: entryCalls (cellCalls codec o.slots) :=
    List.mem_iff_getElem?.mpr ⟨6, rfl⟩
  exact ⟨writeAll_text hw hmem, not_lt.mp hlabel⟩

theorem encode_ok {dst : ℕ} {out : Bytes} : o.encode dst = .ok out ↔ o.Fits ∧
    out = (bodyItem (cellItems codec o.slots)).spelling ∧ (bodyItem (cellItems codec o.slots)).spelling.length ≤ dst := by
  have hbody : o.Fits → (o.encode dst = .ok out ↔ out = (bodyItem (cellItems codec o.slots)).spelling ∧
      (bodyItem (cellItems codec o.slots)).spelling.length ≤ dst) := by
    intro hfits
    have hlabel := hfits.label
    rw [encode, if_neg (not_lt.mpr hlabel)]
    exact encode_cells o.encodeInto_tells (maySend hfits) rfl
  constructor
  · intro h
    have hfits := encode_fits h
    exact ⟨hfits, (hbody hfits).mp h⟩
  · rintro ⟨hfits, h⟩
    exact (hbody hfits).mpr h

def width : PairOfferKey → ℕ
  | .protocolMajor | .protocolMinor => 3
  | .clientVersion => 3 + maxString
  | .clientKind => 2
  | .label => 3 + maxLabel

theorem value_length (h : o.Fits) (k : PairOfferKey) (v : Value k) (hv : o.slots k = some v) :
    1 + ((codec k).spell v).spelling.length ≤ width k := by
  cases k with
  | protocolMajor | protocolMinor => exact Nat.add_le_add_left (ofNat_length_u8 v) 1
  | clientVersion =>
    obtain rfl := Option.some.inj hv
    have hshort := h.clientVersion
    have hhead := (headBytes_le .text (n := o.clientVersion.raw.length)).2.2.2.1 (hshort.trans (by decide))
    change 1 + (Item.ofText o.clientVersion).spelling.length ≤ 3 + maxString
    rw [Item.ofText, Item.spelling, Token.spelling, List.length_append]
    omega
  | clientKind =>
    have hsmall : v.byte.toNat < 24 := by cases v <;> decide
    exact Nat.add_le_add_left (ofNat_length_inline hsmall) 1
  | label =>
    obtain rfl := Option.some.inj hv
    exact Nat.add_le_add_left (text_length h.label) 1

theorem encodes (h : o.Fits) : ∃ out, o.encode maxPairOffer = .ok out ∧ out.length ≤ maxPairOffer ∧ decode out = .ok o := by
  have hlen : (bodyItem (cellItems codec o.slots)).spelling.length ≤ maxPairOffer :=
    (cellItems_length (value_length h)).trans (by decide)
  exact ⟨_, encode_ok.mpr ⟨h, rfl, hlen⟩, hlen, bind_ok.mpr ⟨_, cellItems_decode (maySend h), complete_ok.mpr rfl⟩⟩

end PairOffer

namespace PairArrival

variable {a : PairArrival} {suite : Suite}

theorem complete_ok {header : Header} {s : table.Slots} :
    complete header s = .ok a ↔ a.header = header ∧ ∃ suite, s = a.slots suite := by
  constructor
  · intro h
    obtain ⟨raw, hraw, h⟩ := bind_ok.mp h
    obtain ⟨suite, hsuite, h⟩ := bind_ok.mp h
    obtain ⟨handshake, hhandshake, h⟩ := bind_ok.mp h
    have ha : a = ⟨header, handshake⟩ := (Except.ok.inj h).symm
    rw [← Numbered.byte_known _ _ _ hsuite] at hraw
    subst ha
    refine ⟨rfl, suite, ?_⟩
    funext k
    cases k with
    | suite => exact slotRequired_ok.mp hraw
    | handshake => exact slotRequired_ok.mp hhandshake
  · rintro ⟨rfl, suite, rfl⟩
    have hsuite : Numbered.known PairingError.unsupportedSuite suite.byte = .ok suite := Numbered.known_byte _ _
    exact bind_ok.mpr ⟨_, rfl, bind_ok.mpr ⟨suite, hsuite, bind_ok.mpr ⟨_, rfl, rfl⟩⟩⟩

theorem decode_ok {e : Envelope} : decode e = .ok a ↔ e.header.kind = .pair ∧ a.header = e.header ∧
    ∃ suite, closedSlots table .unknownKey e = .ok (a.slots suite) := by
  rw [decode, seq_ok, expected_ok, bind_ok]
  constructor
  · rintro ⟨hkind, s, hs, h⟩
    obtain ⟨hheader, suite, rfl⟩ := complete_ok.mp h
    exact ⟨hkind, hheader, suite, hs⟩
  · rintro ⟨hkind, hheader, suite, hs⟩
    exact ⟨hkind, _, hs, complete_ok.mpr ⟨hheader, suite, rfl⟩⟩

theorem maySend (h : a.handshake.length < 2 ^ 64) : MaySend codec (a.slots suite) := by
  intro k v hv
  cases k with
  | suite => trivial
  | handshake =>
    obtain rfl := Option.some.inj hv
    exact h

theorem encodeInto_tells (a : PairArrival) (suite : Suite) : Tells (a.encodeInto suite)
    (scalarCalls a.header.kind.byte a.header.session a.header.reqId 2 ++ entryCalls (cellCalls codec (a.slots suite))) := by
  refine (header_tells a.header 2).append ?_
  refine .entryCons PairRequestKey.suite (.u64 suite.byte.toUInt64) ?_
  exact .entry PairRequestKey.handshake (.bytes a.handshake)

def frame (a : PairArrival) (suite : Suite) : Frame := cellFrame codec a.header (a.slots suite)

theorem encode_ok (h : a.handshake.length < 2 ^ 64) {dst : ℕ} {out : Bytes} : encodeBody (a.encodeInto suite) dst = .ok out ↔
    out = (a.frame suite).item.spelling ∧ (a.frame suite).item.spelling.length ≤ dst :=
  cellFrame_encode (maySend h) (a.encodeInto_tells suite) rfl

theorem frame_received (h : a.handshake.length < 2 ^ 64) (hkind : a.header.kind = .pair) :
    ∃ e, Envelope.decode (a.frame suite).item.spelling = .ok e ∧ decode e = .ok a := by
  obtain ⟨e, he, hheader, hs⟩ := cellFrame_received (maySend h) a.header
  refine ⟨e, he, decode_ok.mpr ⟨?_, hheader.symm, suite, hs⟩⟩
  rw [hheader, hkind]

theorem frame_length (h : a.handshake.length ≤ maxPairMessage1) : (a.frame suite).item.spelling.length ≤ maxPayload := by
  have hwidth : ∀ k v, a.slots suite k = some v → 1 + ((codec k).spell v).spelling.length ≤ 4 + maxPairMessage1 := by
    intro k v hv
    cases k with
    | suite => exact (Nat.add_le_add_left (ofNat_length_u8 v) 1).trans (by decide)
    | handshake =>
      obtain rfl := Option.some.inj hv
      have hbytes := ofBytes_length (h.trans (by decide))
      change 1 + (Item.ofBytes a.handshake).spelling.length ≤ 4 + maxPairMessage1
      omega
  have hbody := cellItems_length hwidth
  have hframe := cellFrame_length codec a.header (a.slots suite)
  have hsum : 1 + ((Listed.all (κ := PairRequestKey)).map fun _ => 4 + maxPairMessage1).sum + 11 ≤ maxPayload := by decide
  exact hframe.trans (by omega)

end PairArrival

namespace PairSaid

variable {said : PairSaid} {header : Header}

theorem refusedBy_ok {refusal : PairRefusal} {s : table.Slots} (hs : s .outcome = some refusal.outcome.byte) :
    refusedBy refusal s = .ok said ↔ ∃ tag, said = refused refusal tag ∧ s = said.slots := by
  unfold refusedBy
  cases hmessage : s .handshake with
  | some message =>
    simp only [Option.isSome_some, if_true, reduceCtorEq, false_iff]
    rintro ⟨tag, rfl, rfl⟩
    cases hmessage
  | none =>
    simp only [Option.isSome_none, Bool.false_eq_true, if_false, bind_ok]
    constructor
    · rintro ⟨tag, htag, hsaid⟩
      have h : said = refused refusal tag := (Except.ok.inj hsaid).symm
      subst h
      refine ⟨tag, rfl, ?_⟩
      funext k
      cases k with
      | outcome => exact hs
      | handshake => exact hmessage
      | refusal => exact slotRequired_ok.mp htag
    · rintro ⟨tag, rfl, rfl⟩
      exact ⟨tag, rfl, rfl⟩

theorem complete_ok {s : table.Slots} : complete s = .ok said ↔ s = said.slots := by
  constructor
  · intro h
    obtain ⟨raw, hraw, h⟩ := bind_ok.mp h
    have hraw := slotRequired_ok.mp hraw
    have hbyte : ∀ code : Pair, (Numbered.tryFrom raw : Option Pair) = some code → s .outcome = some code.byte := by
      intro code hcode
      rw [hraw, ← Numbered.byte_tryFrom hcode]
      rfl
    cases hcode : (Numbered.tryFrom raw : Option Pair) with
    | none =>
      simp only [hcode] at h
      cases h
    | some code =>
      have houtcome := hbyte code hcode
      simp only [hcode] at h
      cases code with
      | enrolled | reclaimed | notStored => cases h
      | windowClosed =>
        obtain ⟨tag, rfl, hs⟩ := (@refusedBy_ok said .windowClosed _ houtcome).mp h
        exact hs
      | tableFull =>
        obtain ⟨tag, rfl, hs⟩ := (@refusedBy_ok said .tableFull _ houtcome).mp h
        exact hs
      | proceed =>
        simp only at h
        split_ifs at h with hnone
        obtain ⟨message, hmessage, hsaid⟩ := bind_ok.mp h
        have hproceed : said = proceed message := (Except.ok.inj hsaid).symm
        subst hproceed
        funext k
        cases k with
        | outcome => exact houtcome
        | handshake => exact slotRequired_ok.mp hmessage
        | refusal => exact Option.not_isSome_iff_eq_none.mp hnone
  · rintro rfl
    cases said with
    | proceed message => rfl
    | refused refusal tag => cases refusal <;> rfl

theorem decode_ok {e : Envelope} : decode e = .ok said ↔ closedSlots table .unknownKey e = .ok said.slots := by
  rw [decode, bind_ok]
  constructor
  · rintro ⟨s, hs, h⟩
    rw [← complete_ok.mp h]
    exact hs
  · intro h
    exact ⟨_, h, complete_ok.mpr rfl⟩

def carried : PairSaid → Bytes
  | proceed message => message
  | refused _ tag => tag

theorem maySend (h : said.carried.length < 2 ^ 64) : MaySend codec said.slots := by
  intro k v hv
  cases k with
  | outcome => trivial
  | handshake =>
    cases said with
    | proceed message =>
      obtain rfl := Option.some.inj hv
      exact h
    | refused refusal tag => cases hv
  | refusal =>
    cases said with
    | proceed message => cases hv
    | refused refusal tag =>
      obtain rfl := Option.some.inj hv
      exact h

theorem encodeInto_tells (header : Header) (said : PairSaid) : Tells (encodeInto header said)
    (scalarCalls header.kind.byte header.session header.reqId 2 ++ entryCalls (cellCalls codec said.slots)) := by
  cases said with
  | proceed message =>
    refine (header_tells header 2).append ?_
    refine .entryCons PairReplyKey.outcome (.u64 Pair.proceed.byte.toUInt64) ?_
    exact .entry PairReplyKey.handshake (.bytes message)
  | refused refusal tag =>
    refine (header_tells header 2).append ?_
    refine .entryCons PairReplyKey.outcome (.u64 refusal.outcome.byte.toUInt64) ?_
    exact .entry PairReplyKey.refusal (.bytes tag)

def frame (header : Header) (said : PairSaid) : Frame := cellFrame codec header said.slots

theorem cells_two (said : PairSaid) : (cellCalls codec said.slots).length = 2 := by cases said <;> rfl

theorem encode_ok (h : said.carried.length < 2 ^ 64) {dst : ℕ} {out : Bytes} :
    encodeBody (encodeInto header said) dst = .ok out ↔
      out = (frame header said).item.spelling ∧ (frame header said).item.spelling.length ≤ dst :=
  cellFrame_encode (maySend h) (encodeInto_tells header said) said.cells_two

theorem frame_received (h : said.carried.length < 2 ^ 64) (header : Header) :
    ∃ e, Envelope.decode (frame header said).item.spelling = .ok e ∧ e.header = header ∧ decode e = .ok said := by
  obtain ⟨e, he, hheader, hs⟩ := cellFrame_received (maySend h) header
  exact ⟨e, he, hheader, decode_ok.mpr hs⟩

theorem frame_length (h : said.carried.length ≤ pairMessage2) : (frame header said).item.spelling.length ≤ maxPayload := by
  have hbytes : (Item.ofBytes said.carried).spelling.length ≤ 3 + said.carried.length :=
    ofBytes_length (h.trans (by decide))
  have hwidth : ∀ k v, said.slots k = some v → 1 + ((codec k).spell v).spelling.length ≤ 4 + pairMessage2 := by
    intro k v hv
    cases k with
    | outcome => exact (Nat.add_le_add_left (ofNat_length_u8 v) 1).trans (by decide)
    | handshake =>
      cases said with
      | proceed message =>
        obtain rfl := Option.some.inj hv
        change 1 + (Item.ofBytes message).spelling.length ≤ 4 + pairMessage2
        change (Item.ofBytes message).spelling.length ≤ 3 + message.length at hbytes
        change message.length ≤ pairMessage2 at h
        omega
      | refused refusal tag => cases hv
    | refusal =>
      cases said with
      | proceed message => cases hv
      | refused refusal tag =>
        obtain rfl := Option.some.inj hv
        change 1 + (Item.ofBytes tag).spelling.length ≤ 4 + pairMessage2
        change (Item.ofBytes tag).spelling.length ≤ 3 + tag.length at hbytes
        change tag.length ≤ pairMessage2 at h
        omega
  have hbody := cellItems_length hwidth
  have hframe := cellFrame_length codec header said.slots
  have hsum : 1 + ((Listed.all (κ := PairReplyKey)).map fun _ => 4 + pairMessage2).sum + 11 ≤ maxPayload := by decide
  exact hframe.trans (by omega)

/-- A reply is read from the frames that carry an outcome and what belongs to it, and no other key. -/
theorem read_iff {bytes : Bytes} : (∃ e, Envelope.decode bytes = .ok e ∧ e.header = header ∧ decode e = .ok said) ↔
    ∃ f : Frame, f.item.Legal maxDepth ∧ f.item.spelling = bytes ∧ f.Scalars (frameHead header) ∧
      OnlyKeys PairReplyKey f.pairs ∧
      match said with
      | proceed message => Cbor.Holds f.pairs 1 u8Of Pair.proceed.byte ∧ Cbor.Holds f.pairs 2 Item.bytes? message ∧
          ¬HasKey f.pairs 3
      | refused refusal tag => Cbor.Holds f.pairs 1 u8Of refusal.outcome.byte ∧ ¬HasKey f.pairs 2 ∧
          Cbor.Holds f.pairs 3 Item.bytes? tag := by
  have hslots : ∀ pairs : List (Key × Item), (∀ k, Table.SlotOf (t := table) (fun k => (codec k).item) pairs said.slots k) ↔
      match said with
      | proceed message => Cbor.Holds pairs 1 u8Of Pair.proceed.byte ∧ Cbor.Holds pairs 2 Item.bytes? message ∧
          ¬HasKey pairs 3
      | refused refusal tag => Cbor.Holds pairs 1 u8Of refusal.outcome.byte ∧ ¬HasKey pairs 2 ∧
          Cbor.Holds pairs 3 Item.bytes? tag := by
    intro pairs
    cases said with
    | proceed message =>
      constructor
      · intro h
        exact ⟨Table.slotOf_shows.mp (h .outcome), Table.slotOf_shows.mp (h .handshake),
          valueAt_none.mp (Table.slotOf_shows.mp (h .refusal))⟩
      · rintro ⟨h₁, h₂, h₃⟩ k
        apply Table.slotOf_shows.mpr
        cases k with
        | outcome => exact h₁
        | handshake => exact h₂
        | refusal => exact valueAt_none.mpr h₃
    | refused refusal tag =>
      constructor
      · intro h
        exact ⟨Table.slotOf_shows.mp (h .outcome), valueAt_none.mp (Table.slotOf_shows.mp (h .handshake)),
          Table.slotOf_shows.mp (h .refusal)⟩
      · rintro ⟨h₁, h₂, h₃⟩ k
        apply Table.slotOf_shows.mpr
        cases k with
        | outcome => exact h₁
        | handshake => exact valueAt_none.mpr h₂
        | refusal => exact h₃
  have hreads : ∀ k, Reads (fun _ => True) 6 (table.read k) (codec k).item := fun k => (codec k).reads 6
  have hframe := @closed_received _ _ _ _ _ table _ .unknownKey hreads bytes header said.slots
  simp only [hslots, ← decode_ok] at hframe
  exact hframe

end PairSaid

theorem enrol_within {header : Header} {message : Bytes} (h : message.length ≤ pairMessage3) :
    (messageFrame header message).item.spelling.length ≤ maxPayload :=
  (messageFrame_length h (by decide)).trans (by decide)

end Km43.Pairing
