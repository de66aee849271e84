import Km43.Handshake.Closed
import Km43.Identity.Stored
import Km43.Mac.Purposes
import Km43.Noise.Honest

namespace Km43.Hello

open Library Identity Cbor CborReader CborWriter Sealed Link Handshake Noise

inductive HelloOfferKey
  | protocolMajor
  | protocolMinor
  | clientVersion
  deriving DecidableEq

namespace HelloOfferKey

def all : List HelloOfferKey := [protocolMajor, protocolMinor, clientVersion]

theorem keyList : KeyList all := ⟨by decide, fun k => by cases k <;> decide, by decide⟩

instance : Listed HelloOfferKey := ⟨all, keyList⟩

end HelloOfferKey

inductive HelloKey
  | suite
  | handshake
  | admission
  | offer (key : HelloOfferKey)
  deriving DecidableEq

/-- Why a report is no ground for a session: it does not read, or it speaks another major version. -/
inductive ReportError
  | body (why : HandshakeError)
  | majorMismatch (ours theirs : UInt8)
  deriving DecidableEq

inductive HelloError
  | unknownKey (number : ℤ)
  | duplicate (key : HelloKey)
  | missing (key : HelloKey)
  | unsupportedSuite (suite : UInt8)
  | notAdmitted
  | admitWidth (length : ℕ)
  | keyMismatch
  | noise (why : NoiseError)
  | wrongMessage (expected found : MessageType)
  | notThisRequest (reqId : UInt32)
  | noHandle
  | report (why : ReportError)
  | tooLargeToWrite
  | envelope (why : EnvelopeError)
  | cbor (why : CborError)
  deriving DecidableEq

instance : FromCbor HelloError := ⟨.cbor⟩

def maxHelloOffer : ℕ := 1 + 3 + 2 + 2 + 2 + maxString

def maxHelloMessage1 : ℕ := Noise.keyBytes + sealedKeyBytes + maxHelloOffer + tagBytes

def maxHelloMessage2 : ℕ := Noise.keyBytes + maxHelloReport + tagBytes

def expected (header : Header) (kind : MessageType) : Except HelloError Unit :=
  if header.kind = kind then .ok () else .error (.wrongMessage kind header.kind)

/-- A difference in the major version is refused, and the lower of two minors is agreed on. -/
def agreedVersion (ours theirs : Version) : Except ReportError Version :=
  if ours.major ≠ theirs.major then .error (.majorMismatch ours.major theirs.major)
  else .ok ⟨ours.major, min ours.minor theirs.minor⟩

structure HelloOffer where
  version : Version
  clientVersion : Str
  deriving DecidableEq

namespace HelloOffer

def encodeInto (o : HelloOffer) : Encoder HelloError Unit := do
  tell (CborWriter.map 3)
  tell (CborWriter.key 1)
  tell (CborWriter.u64 o.version.major.toNat)
  tell (CborWriter.key 2)
  tell (CborWriter.u64 o.version.minor.toNat)
  tell (CborWriter.key 3)
  tell (CborWriter.text o.clientVersion.raw)

def encode (o : HelloOffer) (dst : ℕ) : Except HelloError Bytes := encodeBody o.encodeInto dst

def Value : HelloOfferKey → Type
  | .protocolMajor => UInt8
  | .protocolMinor => UInt8
  | .clientVersion => Str

def codec : ∀ k, Codec HelloError (Value k)
  | .protocolMajor => .u8
  | .protocolMinor => .u8
  | .clientVersion => .text

def table : Table HelloError HelloOfferKey := .ofCodecs codec fun k => .duplicate (.offer k)

def complete (s : table.Slots) : Except HelloError HelloOffer := do
  let major ← slotRequired (.missing (.offer .protocolMajor)) (s .protocolMajor)
  let minor ← slotRequired (.missing (.offer .protocolMinor)) (s .protocolMinor)
  let clientVersion ← slotRequired (.missing (.offer .clientVersion)) (s .clientVersion)
  .ok ⟨⟨major, minor⟩, clientVersion⟩

def decode : Bytes → Except HelloError HelloOffer := table.decode complete

end HelloOffer

inductive RequestKey
  | suite
  | handshake
  | admission
  deriving DecidableEq

namespace RequestKey

def all : List RequestKey := [suite, handshake, admission]

theorem keyList : KeyList all := ⟨by decide, fun k => by cases k <;> decide, by decide⟩

instance : Listed RequestKey := ⟨all, keyList⟩

def name : RequestKey → HelloKey
  | suite => .suite
  | handshake => .handshake
  | admission => .admission

end RequestKey

structure HelloArrival where
  header : Header
  suite : Suite
  handshake : Bytes
  admission : Bytes

namespace HelloArrival

def Value : RequestKey → Type
  | .suite => UInt8
  | .handshake => Bytes
  | .admission => Bytes

def codec : ∀ k, Codec HelloError (Value k)
  | .suite => .u8
  | .handshake => .bytes
  | .admission => .bytes

def table : Table HelloError RequestKey := .ofCodecs codec fun k => .duplicate k.name

def suiteOf (raw : UInt8) : Except HelloError Suite :=
  match Suite.ofByte raw with
  | some suite => .ok suite
  | none => .error (.unsupportedSuite raw)

def complete (header : Header) (s : table.Slots) : Except HelloError HelloArrival := do
  let raw ← slotRequired (.missing .suite) (s .suite)
  let suite ← suiteOf raw
  let handshake ← slotRequired (.missing .handshake) (s .handshake)
  let admission ← slotRequired (.missing .admission) (s .admission)
  .ok ⟨header, suite, handshake, admission⟩

def decode (envelope : Envelope) : Except HelloError HelloArrival := do
  expected envelope.header .hello
  let s ← closedSlots table .unknownKey envelope
  complete envelope.header s

def encodeInto (a : HelloArrival) : Encoder HelloError Unit := do
  mapErr (fun why => .envelope (.cbor why)) (a.header.write 3)
  tell (CborWriter.key 1)
  tell (CborWriter.u64 a.suite.byte.toNat)
  tell (CborWriter.key 2)
  tell (CborWriter.bytes a.handshake)
  tell (CborWriter.key 3)
  tell (CborWriter.bytes a.admission)

def slots (a : HelloArrival) : ∀ k, Option (Value k)
  | .suite => some a.suite.byte
  | .handshake => some a.handshake
  | .admission => some a.admission

end HelloArrival

def answerMessage : Envelope → Except HelloError Bytes :=
  messageBody .unknownKey (.duplicate .handshake) (.missing .handshake)

def encodeAnswer : Header → Bytes → Encoder HelloError Unit := encodeMessage fun why => .envelope (.cbor why)

namespace HelloOffer

def slots (o : HelloOffer) : ∀ k, Option (Value k)
  | .protocolMajor => some o.version.major
  | .protocolMinor => some o.version.minor
  | .clientVersion => some o.clientVersion

def Fits (o : HelloOffer) : Prop := o.clientVersion.raw.length ≤ maxString

variable {o : HelloOffer}

theorem complete_ok {s : table.Slots} : complete s = .ok o ↔ s = o.slots := by
  simp only [complete, bind_ok, slotRequired_ok]
  constructor
  · rintro ⟨major, h₁, minor, h₂, clientVersion, h₃, ⟨⟩⟩
    funext k
    cases k <;> assumption
  · rintro rfl
    exact ⟨_, rfl, _, rfl, _, rfl, rfl⟩

theorem maySend (h : o.Fits) : MaySend codec o.slots := by
  intro k v hv
  cases k with
  | protocolMajor | protocolMinor => trivial
  | clientVersion =>
    obtain rfl := Option.some.inj hv
    exact h

theorem encodeInto_tells (o : HelloOffer) : Tells o.encodeInto (.map 3 :: entryCalls (cellCalls codec o.slots)) := by
  refine .cons (c := .map 3) ?_
  refine .entryCons HelloOfferKey.protocolMajor (.u64 o.version.major.toUInt64) ?_
  refine .entryCons HelloOfferKey.protocolMinor (.u64 o.version.minor.toUInt64) ?_
  exact .entry HelloOfferKey.clientVersion (.text o.clientVersion)

theorem encode_fits {dst : ℕ} {out : Bytes} (h : o.encode dst = .ok out) : o.Fits := by
  obtain ⟨w, w', len, hw, -⟩ := (encodeBody_ok o.encodeInto_tells).mp h
  have hmem : Call.text o.clientVersion ∈ Call.map 3 :: entryCalls (cellCalls codec o.slots) :=
    List.mem_iff_getElem?.mpr ⟨6, rfl⟩
  exact writeAll_text hw hmem

theorem encode_ok {dst : ℕ} {out : Bytes} : o.encode dst = .ok out ↔ o.Fits ∧
    out = (bodyItem (cellItems codec o.slots)).spelling ∧ (bodyItem (cellItems codec o.slots)).spelling.length ≤ dst := by
  constructor
  · intro h
    have hfits := encode_fits h
    exact ⟨hfits, (encode_cells o.encodeInto_tells (maySend hfits) rfl).mp h⟩
  · rintro ⟨hfits, h⟩
    exact (encode_cells o.encodeInto_tells (maySend hfits) rfl).mpr h

def width : HelloOfferKey → ℕ
  | .protocolMajor | .protocolMinor => 3
  | .clientVersion => 3 + maxString

theorem value_length (h : o.Fits) (k : HelloOfferKey) (v : Value k) (hv : o.slots k = some v) :
    1 + ((codec k).spell v).spelling.length ≤ width k := by
  cases k with
  | protocolMajor | protocolMinor => exact Nat.add_le_add_left (ofNat_length_u8 v) 1
  | clientVersion =>
    obtain rfl := Option.some.inj hv
    have hshort : o.clientVersion.raw.length ≤ maxString := h
    have hhead := (headBytes_le .text (n := o.clientVersion.raw.length)).2.2.2.1 (hshort.trans (by decide))
    change 1 + (Item.ofText o.clientVersion).spelling.length ≤ 3 + maxString
    rw [Item.ofText, Item.spelling, Token.spelling, List.length_append]
    omega

theorem encodes (h : o.Fits) : ∃ out, o.encode maxHelloOffer = .ok out ∧ out.length ≤ maxHelloOffer ∧ decode out = .ok o := by
  have hlen : (bodyItem (cellItems codec o.slots)).spelling.length ≤ maxHelloOffer := cellItems_length (value_length h)
  exact ⟨_, encode_ok.mpr ⟨h, rfl, hlen⟩, hlen, bind_ok.mpr ⟨_, cellItems_decode (maySend h), complete_ok.mpr rfl⟩⟩

end HelloOffer

namespace HelloArrival

variable {a : HelloArrival}

structure Fits (a : HelloArrival) : Prop where
  handshake : a.handshake.length < 2 ^ 64
  admission : a.admission.length < 2 ^ 64

theorem suiteOf_ok {raw : UInt8} {suite : Suite} : suiteOf raw = .ok suite ↔ raw = suite.byte := by
  cases suite
  by_cases hraw : raw = 1 <;> simp [suiteOf, Suite.ofByte, Suite.byte, hraw]

theorem complete_ok {header : Header} {s : table.Slots} :
    complete header s = .ok a ↔ a.header = header ∧ s = a.slots := by
  constructor
  · intro h
    obtain ⟨raw, hraw, h⟩ := bind_ok.mp h
    obtain ⟨suite, hsuite, h⟩ := bind_ok.mp h
    obtain ⟨handshake, hhandshake, h⟩ := bind_ok.mp h
    obtain ⟨admission, hadmitted, h⟩ := bind_ok.mp h
    have ha : a = ⟨header, suite, handshake, admission⟩ := (Except.ok.inj h).symm
    rw [suiteOf_ok.mp hsuite] at hraw
    subst ha
    refine ⟨rfl, ?_⟩
    funext k
    cases k with
    | suite => exact slotRequired_ok.mp hraw
    | handshake => exact slotRequired_ok.mp hhandshake
    | admission => exact slotRequired_ok.mp hadmitted
  · rintro ⟨rfl, rfl⟩
    have hsuite : suiteOf a.suite.byte = .ok a.suite := suiteOf_ok.mpr rfl
    exact bind_ok.mpr ⟨_, rfl, bind_ok.mpr ⟨_, hsuite, bind_ok.mpr ⟨_, rfl, bind_ok.mpr ⟨_, rfl, rfl⟩⟩⟩⟩

theorem expected_ok {header : Header} {kind : MessageType} : expected header kind = .ok () ↔ header.kind = kind := by
  unfold expected
  split_ifs with h <;> simp [h]

theorem decode_ok {e : Envelope} : decode e = .ok a ↔
    e.header.kind = .hello ∧ a.header = e.header ∧ closedSlots table .unknownKey e = .ok a.slots := by
  rw [decode, seq_ok, expected_ok, bind_ok]
  constructor
  · rintro ⟨hkind, s, hs, h⟩
    obtain ⟨hheader, rfl⟩ := complete_ok.mp h
    exact ⟨hkind, hheader, hs⟩
  · rintro ⟨hkind, hheader, hs⟩
    exact ⟨hkind, _, hs, complete_ok.mpr ⟨hheader, rfl⟩⟩

theorem maySend (h : a.Fits) : MaySend codec a.slots := by
  intro k v hv
  cases k with
  | suite => trivial
  | handshake =>
    obtain rfl := Option.some.inj hv
    exact h.handshake
  | admission =>
    obtain rfl := Option.some.inj hv
    exact h.admission

theorem encodeInto_tells (a : HelloArrival) : Tells a.encodeInto
    (scalarCalls a.header.kind.byte a.header.session a.header.reqId 3 ++ entryCalls (cellCalls codec a.slots)) := by
  refine (header_tells a.header 3).append ?_
  refine .entryCons RequestKey.suite (.u64 a.suite.byte.toUInt64) ?_
  refine .entryCons RequestKey.handshake (.bytes a.handshake) ?_
  exact .entry RequestKey.admission (.bytes a.admission)

def frame (a : HelloArrival) : Frame := cellFrame codec a.header a.slots

theorem encode_ok (h : a.Fits) {dst : ℕ} {out : Bytes} : encodeBody a.encodeInto dst = .ok out ↔
    out = a.frame.item.spelling ∧ a.frame.item.spelling.length ≤ dst :=
  cellFrame_encode (maySend h) a.encodeInto_tells rfl

theorem frame_received (h : a.Fits) (hkind : a.header.kind = .hello) :
    ∃ e, Envelope.decode a.frame.item.spelling = .ok e ∧ decode e = .ok a := by
  obtain ⟨e, he, hheader, hs⟩ := cellFrame_received (maySend h) a.header
  refine ⟨e, he, decode_ok.mpr ⟨?_, hheader.symm, hs⟩⟩
  rw [hheader, hkind]

def width : RequestKey → ℕ
  | .suite => 3
  | .handshake => 4 + maxHelloMessage1
  | .admission => 4 + 16

theorem frame_length (hhandshake : a.handshake.length ≤ maxHelloMessage1) (hadmitted : a.admission.length = 16) :
    a.frame.item.spelling.length ≤ maxPayload := by
  have hwidth : ∀ k v, a.slots k = some v → 1 + ((codec k).spell v).spelling.length ≤ width k := by
    intro k v hv
    cases k with
    | suite => exact Nat.add_le_add_left (ofNat_length_u8 v) 1
    | handshake =>
      obtain rfl := Option.some.inj hv
      have hbytes := ofBytes_length (hhandshake.trans (by decide))
      change 1 + (Item.ofBytes a.handshake).spelling.length ≤ 4 + maxHelloMessage1
      omega
    | admission =>
      obtain rfl := Option.some.inj hv
      have hbytes : (Item.ofBytes a.admission).spelling.length ≤ 3 + a.admission.length := ofBytes_length (by omega)
      change 1 + (Item.ofBytes a.admission).spelling.length ≤ 4 + 16
      omega
  have hbody := cellItems_length hwidth
  have hframe := cellFrame_length codec a.header a.slots
  have hsum : 1 + ((Listed.all (κ := RequestKey)).map width).sum + 11 ≤ maxPayload := by decide
  exact hframe.trans (by omega)

/-- A request is read from the frames that carry its three keys and no other, each once, in any order. -/
theorem received (bytes : Bytes) (a : HelloArrival) :
    (∃ e, Envelope.decode bytes = .ok e ∧ decode e = .ok a) ↔
      a.header.kind = .hello ∧ ∃ f : Frame, f.item.Legal maxDepth ∧ f.item.spelling = bytes ∧
        f.Scalars (frameHead a.header) ∧ OnlyKeys RequestKey f.pairs ∧ Cbor.Holds f.pairs 1 u8Of a.suite.byte ∧
        Cbor.Holds f.pairs 2 Item.bytes? a.handshake ∧ Cbor.Holds f.pairs 3 Item.bytes? a.admission := by
  have hslots : ∀ pairs : List (Key × Item), (∀ k, Table.SlotOf (t := table) (fun k => (codec k).item) pairs a.slots k) ↔
      Cbor.Holds pairs 1 u8Of a.suite.byte ∧ Cbor.Holds pairs 2 Item.bytes? a.handshake ∧
        Cbor.Holds pairs 3 Item.bytes? a.admission := by
    intro pairs
    constructor
    · intro h
      exact ⟨Table.slotOf_shows.mp (h .suite), Table.slotOf_shows.mp (h .handshake), Table.slotOf_shows.mp (h .admission)⟩
    · rintro ⟨h₁, h₂, h₃⟩ k
      apply Table.slotOf_shows.mpr
      cases k
      · exact h₁
      · exact h₂
      · exact h₃
  have hreads : ∀ k, Reads (fun _ => True) 6 (table.read k) (codec k).item := fun k => (codec k).reads 6
  have hframe := @closed_received _ _ _ _ _ table _ .unknownKey hreads bytes a.header a.slots
  simp only [hslots] at hframe
  rw [← hframe]
  constructor
  · rintro ⟨e, he, h⟩
    obtain ⟨hkind, hheader, hs⟩ := decode_ok.mp h
    exact ⟨by rw [hheader, hkind], e, he, hheader.symm, hs⟩
  · rintro ⟨hkind, e, he, hheader, hs⟩
    exact ⟨e, he, decode_ok.mpr ⟨by rw [hheader, hkind], hheader.symm, hs⟩⟩

end HelloArrival

theorem answer_within {header : Header} {message : Bytes} (h : message.length ≤ maxHelloMessage2) :
    (messageFrame header message).item.spelling.length ≤ maxPayload :=
  (messageFrame_length h (by decide)).trans (by decide)

end Km43.Hello
