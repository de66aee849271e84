import Km43.Pairing.Believed
import Km43.Sealed.Signed

namespace Km43.Refusals

open Library Identity Cbor CborReader CborWriter Sealed Link Handshake Hello Pairing

inductive ErrorCode
  | malformedFrame
  | unknownMessageType
  | protocolMajorMismatch
  | helloRequiredFirst
  | payloadTooLarge
  | unknownSection
  | busyRetry
  | sessionTableFull
  | sessionExpired
  | authenticationFailed
  | unknownClient
  | staleChallengeReconnectAndRetry
  | challengeUnavailable
  | unsupportedSuite
  | roleNotPermitted
  deriving DecidableEq

namespace ErrorCode

def all : List ErrorCode := [malformedFrame, unknownMessageType, protocolMajorMismatch, helloRequiredFirst,
  payloadTooLarge, unknownSection, busyRetry, sessionTableFull, sessionExpired, authenticationFailed, unknownClient,
  staleChallengeReconnectAndRetry, challengeUnavailable, unsupportedSuite, roleNotPermitted]

def number : ErrorCode → UInt16
  | malformedFrame => 0x1
  | unknownMessageType => 0x2
  | protocolMajorMismatch => 0x3
  | helloRequiredFirst => 0x4
  | payloadTooLarge => 0x5
  | unknownSection => 0x6
  | busyRetry => 0x7
  | sessionTableFull => 0x8
  | sessionExpired => 0x9
  | authenticationFailed => 0xa
  | unknownClient => 0xc
  | staleChallengeReconnectAndRetry => 0xe
  | challengeUnavailable => 0x12
  | unsupportedSuite => 0x13
  | roleNotPermitted => 0x14

def tryFrom (v : UInt16) : Option ErrorCode := all.find? fun code => code.number == v

theorem tryFrom_number (code : ErrorCode) : tryFrom code.number = some code := by cases code <;> rfl

theorem number_tryFrom {v : UInt16} {code : ErrorCode} (h : tryFrom v = some code) : code.number = v := by
  have hfound : (all.find? fun code => code.number == v) = some code := h
  have hnumber := List.find?_some hfound
  exact beq_iff_eq.mp hnumber

def needsASealTable : List (UInt16 × Bool) := [(1, false), (2, false), (3, false), (4, false), (5, false), (6, true),
  (7, true), (8, false), (9, false), (10, false), (12, false), (14, false), (18, false), (19, false), (20, true)]

-- the numbers rise, so that the bisection finds what a search from the front does
theorem table_rises : (needsASealTable.map Prod.fst).Pairwise (· < ·) := by decide

def needsASeal (code : ErrorCode) : Bool :=
  ((needsASealTable.find? fun row => row.1 == code.number).map Prod.snd).getD false

end ErrorCode

inductive LinkErrorCode
  | wrongSide
  | linkTypeOnClientTransport
  | beforeLinkUp
  | unknownHandle
  | connectionTableFull
  | linkMajorMismatch
  | tooManyOutstanding
  | nonZeroSession
  | noAuthorisation
  deriving DecidableEq

namespace LinkErrorCode

def all : List LinkErrorCode := [wrongSide, linkTypeOnClientTransport, beforeLinkUp, unknownHandle, connectionTableFull,
  linkMajorMismatch, tooManyOutstanding, nonZeroSession, noAuthorisation]

def number : LinkErrorCode → UInt16
  | wrongSide => 0x100
  | linkTypeOnClientTransport => 0x101
  | beforeLinkUp => 0x102
  | unknownHandle => 0x103
  | connectionTableFull => 0x104
  | linkMajorMismatch => 0x105
  | tooManyOutstanding => 0x106
  | nonZeroSession => 0x107
  | noAuthorisation => 0x108

def tryFrom (v : UInt16) : Option LinkErrorCode := all.find? fun code => code.number == v

theorem tryFrom_number (code : LinkErrorCode) : tryFrom code.number = some code := by cases code <;> rfl

theorem number_tryFrom {v : UInt16} {code : LinkErrorCode} (h : tryFrom v = some code) : code.number = v := by
  have hfound : (all.find? fun code => code.number == v) = some code := h
  have hnumber := List.find?_some hfound
  exact beq_iff_eq.mp hnumber

theorem apart (code : LinkErrorCode) : ErrorCode.tryFrom code.number = none := by cases code <;> rfl

end LinkErrorCode

inductive Incoming
  | client (code : ErrorCode)
  | linkLocal (code : LinkErrorCode)
  | unknown (raw : UInt16)
  deriving DecidableEq

namespace Incoming

def ofNumber (v : UInt16) : Incoming :=
  match ErrorCode.tryFrom v with
  | some code => .client code
  | none =>
    match LinkErrorCode.tryFrom v with
    | some code => .linkLocal code
    | none => .unknown v

def wire : Incoming → UInt16
  | client code => code.number
  | linkLocal code => code.number
  | unknown v => v

theorem wire_ofNumber (v : UInt16) : (ofNumber v).wire = v := by
  unfold ofNumber
  cases hclient : ErrorCode.tryFrom v with
  | some code => exact ErrorCode.number_tryFrom hclient
  | none =>
    cases hlink : LinkErrorCode.tryFrom v with
    | some code => exact LinkErrorCode.number_tryFrom hlink
    | none => rfl

/-- A code in the space it belongs to: none that is allocated stands as unknown. -/
def Placed (code : Incoming) : Prop := ofNumber code.wire = code

theorem client_placed (code : ErrorCode) : (client code).Placed := by
  rw [Placed, ofNumber, wire, ErrorCode.tryFrom_number]

theorem linkLocal_placed (code : LinkErrorCode) : (linkLocal code).Placed := by
  rw [Placed, ofNumber, wire, LinkErrorCode.apart, LinkErrorCode.tryFrom_number]

theorem ofNumber_placed (v : UInt16) : (ofNumber v).Placed := by
  rw [Placed, wire_ofNumber]

def readBare : Incoming → Bool
  | client code => !code.needsASeal
  | linkLocal _ | unknown _ => true

end Incoming

inductive Refusal
  | client (code : ErrorCode)
  | linkLocal (code : LinkErrorCode)
  deriving DecidableEq

def Refusal.code : Refusal → UInt16
  | client code => code.number
  | linkLocal code => code.number

inductive ErrorKey
  | code
  | detail
  deriving DecidableEq

namespace ErrorKey

def all : List ErrorKey := [code, detail]

theorem keyList : KeyList all := ⟨by decide, fun k => by cases k <;> decide, by decide⟩

instance : Listed ErrorKey := ⟨all, keyList⟩

end ErrorKey

inductive ErrorBodyError
  | missing (key : ErrorKey)
  | duplicate (key : ErrorKey)
  | bareCodeNeedsASeal (code : ErrorCode)
  | cbor (why : CborError)
  | wrongMessage (kind : MessageType)
  deriving DecidableEq

instance : FromCbor ErrorBodyError := ⟨.cbor⟩

structure ErrorBody where
  code : Incoming
  detail : Str
  deriving DecidableEq

@[ext] structure Hint where
  body : ErrorBody
  deriving DecidableEq

namespace ErrorBody

def pairsInto (b : ErrorBody) : Encoder ErrorBodyError Unit := do
  tell (CborWriter.key 1)
  tell (CborWriter.u64 b.code.wire.toNat)
  tell (CborWriter.key 2)
  tell (CborWriter.text b.detail.raw)

def encodeInto (b : ErrorBody) : Encoder ErrorBodyError Unit := do
  tell (CborWriter.map 2)
  b.pairsInto

def encode (b : ErrorBody) (dst : ℕ) : Except ErrorBodyError Bytes := encodeBody b.encodeInto dst

def writeInto (b : ErrorBody) (header : Header) : Encoder ErrorBodyError Unit := do
  mapErr (fun _ => .cbor .destinationTooSmall) (header.write 2)
  b.pairsInto

def write (b : ErrorBody) (header : Header) (dst : ℕ) : Except ErrorBodyError Bytes :=
  if header.kind ≠ .errorResponse then .error (.wrongMessage header.kind) else encodeBody (b.writeInto header) dst

def Value : ErrorKey → Type
  | .code => UInt16
  | .detail => Str

def codec : ∀ k, Codec ErrorBodyError (Value k)
  | .code => .u16
  | .detail => .text

def table : Table ErrorBodyError ErrorKey := .ofCodecs codec .duplicate

def complete (s : table.Slots) : Except ErrorBodyError ErrorBody := do
  let detail ← slotRequired (.missing .detail) (s .detail)
  let raw ← slotRequired (.missing .code) (s .code)
  .ok ⟨.ofNumber raw, detail⟩

def authenticated : Bytes → Except ErrorBodyError ErrorBody := table.decode complete

def hint (b : ErrorBody) : Except ErrorBodyError Hint :=
  match b.code with
  | .client code => if code.needsASeal then .error (.bareCodeNeedsASeal code) else .ok ⟨b⟩
  | .linkLocal _ | .unknown _ => .ok ⟨b⟩

def bare (payload : Bytes) : Except ErrorBodyError Hint := do
  let body ← authenticated payload
  body.hint

def fromEnvelope (envelope : Envelope) : Except ErrorBodyError Hint :=
  if envelope.header.kind ≠ .errorResponse then .error (.wrongMessage envelope.header.kind)
  else do
    let (s, body) ← table.pairs envelope.keys envelope.body
    body.finish.mapError .cbor
    let found ← complete s
    found.hint

def slots (b : ErrorBody) : ∀ k, Option (Value k)
  | .code => some b.code.wire
  | .detail => some b.detail

def placed (b : ErrorBody) : ErrorBody := ⟨.ofNumber b.code.wire, b.detail⟩

def Fits (b : ErrorBody) : Prop := b.detail.raw.length ≤ maxString

variable {b : ErrorBody} {header : Header}

theorem complete_slots (b : ErrorBody) : complete b.slots = .ok b.placed := rfl

theorem complete_ok {s : table.Slots} : complete s = .ok b ↔ b.code.Placed ∧ s = b.slots := by
  constructor
  · intro h
    obtain ⟨detail, hdetail, h⟩ := bind_ok.mp h
    obtain ⟨raw, hraw, h⟩ := bind_ok.mp h
    cases h
    refine ⟨Incoming.ofNumber_placed raw, ?_⟩
    funext k
    cases k with
    | code => exact (slotRequired_ok.mp hraw).trans (congrArg some (Incoming.wire_ofNumber raw).symm)
    | detail => exact slotRequired_ok.mp hdetail
  · rintro ⟨hplaced, rfl⟩
    rw [complete_slots, placed, hplaced]

theorem maySend (h : b.Fits) : MaySend codec b.slots := by
  intro k v hv
  cases k with
  | code => trivial
  | detail =>
    obtain rfl := Option.some.inj hv
    exact h

theorem pairsInto_tells (b : ErrorBody) : Tells b.pairsInto (entryCalls (cellCalls codec b.slots)) := by
  refine .entryCons ErrorKey.code (.u64 b.code.wire.toUInt64) ?_
  exact .entry ErrorKey.detail (.text b.detail)

theorem encodeInto_tells (b : ErrorBody) :
    Tells b.encodeInto (.map 2 :: entryCalls (cellCalls codec b.slots)) := .cons (c := .map 2) b.pairsInto_tells

theorem writeInto_tells (b : ErrorBody) (header : Header) : Tells (b.writeInto header)
    (scalarCalls header.kind.byte header.session header.reqId 2 ++ entryCalls (cellCalls codec b.slots)) :=
  (header_tells header 2).append b.pairsInto_tells

theorem detail_told (b : ErrorBody) : Call.text b.detail ∈ entryCalls (cellCalls codec b.slots) :=
  List.mem_iff_getElem?.mpr ⟨3, rfl⟩

theorem encode_ok {dst : ℕ} {out : Bytes} : b.encode dst = .ok out ↔ b.Fits ∧
    out = (bodyItem (cellItems codec b.slots)).spelling ∧ (bodyItem (cellItems codec b.slots)).spelling.length ≤ dst := by
  constructor
  · intro h
    obtain ⟨w, w', len, hw, -⟩ := (encodeBody_ok b.encodeInto_tells).mp h
    have hfits : b.Fits := writeAll_text hw (List.mem_cons_of_mem _ b.detail_told)
    exact ⟨hfits, (encode_cells b.encodeInto_tells (maySend hfits) rfl).mp h⟩
  · rintro ⟨hfits, h⟩
    exact (encode_cells b.encodeInto_tells (maySend hfits) rfl).mpr h

theorem write_ok {dst : ℕ} {out : Bytes} : b.write header dst = .ok out ↔ header.kind = .errorResponse ∧ b.Fits ∧
    out = (cellFrame codec header b.slots).item.spelling ∧
      (cellFrame codec header b.slots).item.spelling.length ≤ dst := by
  unfold write
  split_ifs with hkind
  · simp [hkind]
  · rw [and_iff_right (not_not.mp hkind)]
    constructor
    · intro h
      obtain ⟨w, w', len, hw, -⟩ := (encodeBody_ok (b.writeInto_tells header)).mp h
      have hfits : b.Fits := writeAll_text hw (List.mem_append_right _ b.detail_told)
      exact ⟨hfits, (cellFrame_encode (maySend hfits) (b.writeInto_tells header) rfl).mp h⟩
    · rintro ⟨hfits, h⟩
      exact (cellFrame_encode (maySend hfits) (b.writeInto_tells header) rfl).mpr h

theorem hint_ok {h : Hint} : b.hint = .ok h ↔ b.code.readBare = true ∧ h.body = b := by
  unfold hint
  cases b.code with
  | client code =>
    dsimp only [Incoming.readBare]
    cases code.needsASeal <;> simp [Hint.ext_iff, eq_comm]
  | linkLocal code | unknown raw => simp [Incoming.readBare, Hint.ext_iff, eq_comm]

theorem fromEnvelope_ok {e : Envelope} {h : Hint} : fromEnvelope e = .ok h ↔ e.header.kind = .errorResponse ∧
    h.body.code.readBare = true ∧ h.body.code.Placed ∧
      bodySlots table ⟨e.header.kind.byte, e.header.session, e.header.reqId, e.keys, e.body⟩ = .ok h.body.slots := by
  unfold fromEnvelope bodySlots
  split_ifs with hkind
  · simp [hkind]
  · rw [and_iff_right (not_not.mp hkind)]
    constructor
    · intro hread
      obtain ⟨⟨s, r⟩, hpairs, hread⟩ := bind_ok.mp hread
      obtain ⟨u, hfinish, hread⟩ := bind_ok.mp hread
      obtain ⟨found, hcomplete, hhint⟩ := bind_ok.mp hread
      obtain ⟨hbare, rfl⟩ := hint_ok.mp hhint
      obtain ⟨hplaced, rfl⟩ := complete_ok.mp hcomplete
      exact ⟨hbare, hplaced, bind_ok.mpr ⟨_, hpairs, bind_ok.mpr ⟨u, hfinish, rfl⟩⟩⟩
    · rintro ⟨hbare, hplaced, hslots⟩
      obtain ⟨⟨s, r⟩, hpairs, hslots⟩ := bind_ok.mp hslots
      obtain ⟨u, hfinish, hslots⟩ := bind_ok.mp hslots
      obtain rfl : s = h.body.slots := Except.ok.inj hslots
      exact bind_ok.mpr ⟨_, hpairs, bind_ok.mpr ⟨u, hfinish, bind_ok.mpr
        ⟨h.body, complete_ok.mpr ⟨hplaced, rfl⟩, hint_ok.mpr ⟨hbare, rfl⟩⟩⟩⟩

def Received (bytes : Bytes) (header : Header) (h : Hint) : Prop :=
  ∃ e, Envelope.decode bytes = .ok e ∧ e.header = header ∧ fromEnvelope e = .ok h

theorem received_exact (bytes : Bytes) (header : Header) (h : Hint) : Received bytes header h ↔
    header.kind = .errorResponse ∧ h.body.code.readBare = true ∧ h.body.code.Placed ∧
      ∃ f : Frame, f.item.Legal maxDepth ∧ f.item.spelling = bytes ∧ f.Scalars (frameHead header) ∧ Keyed f.pairs ∧
        Cbor.Holds f.pairs 1 u16Of h.body.code.wire ∧ Cbor.Holds f.pairs 2 Item.str? h.body.detail := by
  have harms : ∀ k, table.Arm 6 (fun k => (codec k).item) k := fun k => .typed ((codec k).reads 6)
  have hframe := envelope_received harms bytes header h.body.slots
  have hholds : ∀ f : Frame, (∀ k, Table.SlotOf (t := table) (fun k => (codec k).item) f.pairs h.body.slots k) ↔
      Cbor.Holds f.pairs 1 u16Of h.body.code.wire ∧ Cbor.Holds f.pairs 2 Item.str? h.body.detail := by
    intro f
    constructor
    · intro hslots
      exact ⟨Table.slotOf_shows.mp (hslots .code), Table.slotOf_shows.mp (hslots .detail)⟩
    · rintro ⟨hcode, hdetail⟩ k
      apply Table.slotOf_shows.mpr
      cases k
      · exact hcode
      · exact hdetail
  simp only [hholds] at hframe
  rw [← hframe]
  constructor
  · rintro ⟨e, he, rfl, hread⟩
    obtain ⟨hkind, hbare, hplaced, hslots⟩ := fromEnvelope_ok.mp hread
    exact ⟨hkind, hbare, hplaced, e, he, rfl, hslots⟩
  · rintro ⟨hkind, hbare, hplaced, e, he, rfl, hslots⟩
    exact ⟨e, he, rfl, fromEnvelope_ok.mpr ⟨hkind, hbare, hplaced, hslots⟩⟩

theorem frame_decoded (h : b.Fits) (header : Header) : ∃ e,
    Envelope.decode (cellFrame codec header b.slots).item.spelling = .ok e ∧ e.header = header ∧
      bodySlots table ⟨e.header.kind.byte, e.header.session, e.header.reqId, e.keys, e.body⟩ = .ok b.slots := by
  have harms : ∀ k, table.Arm 6 (fun k => (codec k).item) k := fun k => .typed ((codec k).reads 6)
  have hbody : (bodyItem (cellItems codec b.slots)).Legal 7 :=
    bodyItem_legal (cellItems_rising codec b.slots) (cellItems_legal (maySend h) 6)
  obtain ⟨hkeyed, hslots⟩ := (Table.fold_slots hbody.2.1 _).mp (@cellItems_fold _ _ _ _ _ _ codec .duplicate _ (maySend h))
  exact (envelope_received harms _ header b.slots).mpr
    ⟨_, cellFrame_legal (maySend h) header, rfl, written_scalars _ _, hkeyed, hslots⟩

theorem write_received {dst : ℕ} {out : Bytes} (h : b.write header dst = .ok out) : ∃ e,
    Envelope.decode out = .ok e ∧ e.header = header ∧ fromEnvelope e = b.placed.hint := by
  obtain ⟨hkind, hfits, rfl, -⟩ := write_ok.mp h
  obtain ⟨e, he, rfl, hslots⟩ := frame_decoded hfits header
  refine ⟨e, he, rfl, ?_⟩
  obtain ⟨⟨s, r⟩, hpairs, hslots⟩ := bind_ok.mp hslots
  obtain ⟨u, hfinish, hslots⟩ := bind_ok.mp hslots
  obtain rfl : s = b.slots := Except.ok.inj hslots
  unfold fromEnvelope
  rw [if_neg (not_not.mpr hkind), hpairs]
  change (r.finish.mapError ErrorBodyError.cbor >>= fun _ => complete b.slots >>= hint) = _
  rw [show r.finish.mapError ErrorBodyError.cbor = .ok u from hfinish, complete_slots]
  rfl

end ErrorBody

/-- An error is read as it was sent, in the space that its number belongs to; the codes that need a seal are read out of
a sealed body and out of no bare one. -/
theorem errors_read :
    (∀ (b : ErrorBody) (dst : ℕ) (out : Bytes), b.encode dst = .ok out → ErrorBody.authenticated out = .ok b.placed ∧
      ErrorBody.bare out = b.placed.hint) ∧
    (∀ (b : ErrorBody) (header : Header) (dst : ℕ) (out : Bytes), b.write header dst = .ok out →
      header.kind = .errorResponse ∧ ∃ e, Envelope.decode out = .ok e ∧ e.header = header ∧
        ErrorBody.fromEnvelope e = b.placed.hint) ∧
    (∀ (bytes : Bytes) (header : Header) (h : Hint), ErrorBody.Received bytes header h ↔
      header.kind = .errorResponse ∧ h.body.code.readBare = true ∧ h.body.code.Placed ∧
        ∃ f : Frame, f.item.Legal maxDepth ∧ f.item.spelling = bytes ∧ f.Scalars (frameHead header) ∧ Keyed f.pairs ∧
          Cbor.Holds f.pairs 1 u16Of h.body.code.wire ∧ Cbor.Holds f.pairs 2 Item.str? h.body.detail) ∧
    (∀ b : ErrorBody, b.placed = b ↔ b.code.Placed) ∧
    ∀ b : ErrorBody, (∃ h, b.hint = .ok h) ↔ ∀ code, b.code = .client code → code.needsASeal = false := by
  refine ⟨?_, ?_, ErrorBody.received_exact, ?_, ?_⟩
  · intro b dst out h
    obtain ⟨hfits, rfl, -⟩ := ErrorBody.encode_ok.mp h
    have hread : ErrorBody.authenticated (bodyItem (cellItems ErrorBody.codec b.slots)).spelling = .ok b.placed :=
      bind_ok.mpr ⟨_, cellItems_decode (ErrorBody.maySend hfits), b.complete_slots⟩
    refine ⟨hread, ?_⟩
    rw [ErrorBody.bare, hread]
    rfl
  · intro b header dst out h
    exact ⟨(ErrorBody.write_ok.mp h).1, ErrorBody.write_received h⟩
  · intro b
    constructor
    · intro h
      exact congrArg ErrorBody.code h
    · intro h
      rw [ErrorBody.placed, h]
  · intro b
    constructor
    · rintro ⟨h, hh⟩ code hcode
      have hbare := (ErrorBody.hint_ok.mp hh).1
      rw [hcode] at hbare
      exact Bool.not_eq_true' _ |>.mp hbare
    · intro hfree
      refine ⟨⟨b⟩, ErrorBody.hint_ok.mpr ⟨?_, rfl⟩⟩
      cases hcode : b.code with
      | client code =>
        have hseal := hfree code hcode
        rw [Incoming.readBare, hseal]
        rfl
      | linkLocal code | unknown v => rfl

end Km43.Refusals

namespace Km43.Sealed

open Refusals

def EnvelopeError.refusal : EnvelopeError → Refusal
  | wrongLength | cbor _ => .client .malformedFrame
  | unknownType _ => .client .unknownMessageType
  | linkLocalType _ => .linkLocal .linkTypeOnClientTransport

def SealError.refusal : SealError → Option Refusal
  | missing .sealed | .open _ => some (.client .authenticationFailed)
  | missing .nonce | unknownKey _ | duplicate _ | notSealed _ | eventCarriesReqId _ | cbor _ =>
    some (.client .malformedFrame)
  | tooLargeToWrite | destinationTooSmall => some (.client .payloadTooLarge)
  | exhausted => some (.client .sessionExpired)
  | replayed _ | tooOld _ | reserved => none

/-- Whether a failure counts against the most that a peer may make: a tag that failed. -/
def SealError.counts : SealError → Bool
  | missing .sealed | .open _ => true
  | missing .nonce | unknownKey _ | duplicate _ | notSealed _ | eventCarriesReqId _ | replayed _ | tooOld _ | reserved
  | exhausted | destinationTooSmall | tooLargeToWrite | cbor _ => false

def SignedError.refusal : SignedError → Option Refusal
  | sealed why => why.refusal
  | operationTooLong _ => some (.client .payloadTooLarge)
  | notSigned _ => some (.client .malformedFrame)

end Km43.Sealed

namespace Km43.Hello

open Refusals

def ReportError.refusal : ReportError → Refusal
  | majorMismatch .. => .client .protocolMajorMismatch
  | body (.envelope why) => why.refusal
  | body _ => .client .malformedFrame

def HelloError.refusal : HelloError → Refusal
  | unsupportedSuite _ => .client .unsupportedSuite
  | notAdmitted => .client .unknownClient
  | noise .destinationTooSmall => .client .payloadTooLarge
  | keyMismatch | noise _ | admitWidth _ => .client .authenticationFailed
  | report why => why.refusal
  | envelope why => why.refusal
  | tooLargeToWrite => .client .payloadTooLarge
  | unknownKey _ | duplicate _ | missing _ | wrongMessage .. | notThisRequest _ | noHandle | cbor _ =>
    .client .malformedFrame

def HelloError.counts : HelloError → Bool
  | noise why => decide (why ≠ .destinationTooSmall)
  | notAdmitted | admitWidth _ | keyMismatch => true
  | unknownKey _ | duplicate _ | missing _ | unsupportedSuite _ | wrongMessage .. | notThisRequest _ | noHandle
  | report _ | tooLargeToWrite | envelope _ | cbor _ => false

end Km43.Hello

namespace Km43.Pairing

open Refusals

-- the source's name is that of one of the failures here
def PairingError.refusalOf : PairingError → Option Refusal
  | sealed why => why.refusal
  | unsupportedSuite _ => some (.client .unsupportedSuite)
  | noise .destinationTooSmall => some (.client .payloadTooLarge)
  | noise _ | refusal _ | notTheLabelsController => some (.client .authenticationFailed)
  | envelope why => some why.refusal
  | unknownKey _ | duplicate _ | missing _ | unknownKind _ | labelTooLong _ | unknownOutcome _ | notThisRequest _
  | wrongMessage .. | answer _ | cbor _ => some (.client .malformedFrame)

def PairingError.counts : PairingError → Bool
  | noise why => decide (why ≠ .destinationTooSmall)
  | unknownKey _ | duplicate _ | missing _ | unsupportedSuite _ | unknownKind _ | labelTooLong _ | unknownOutcome _
  | refusal _ | notTheLabelsController | notThisRequest _ | wrongMessage .. | sealed _ | answer _ | envelope _
  | cbor _ => false

end Km43.Pairing

namespace Km43.Refusals

open Library Identity Cbor CborReader CborWriter Sealed Link Handshake Hello Pairing

structure Conn where
  raw : UInt16
  nonzero : raw ≠ 0

inductive About
  | aClientFrame (header : Header) (conn : Conn)
  | aFrameThatDidNotParse (conn : Conn)
  | aPreSessionRequest (conn : Conn) (reqId : UInt32)
  | aLinkLocalFrame

inductive Route
  | toClient (conn : Conn)
  | staysOnTheLink

structure Addressed where
  session : SessionId
  reqId : UInt32
  route : Route

def About.addressed : About → Addressed
  | aClientFrame header conn => ⟨header.session, header.reqId, .toClient conn⟩
  | aFrameThatDidNotParse conn => ⟨.none, 0, .toClient conn⟩
  | aPreSessionRequest conn reqId => ⟨.ofRaw conn.raw, reqId, .toClient conn⟩
  | aLinkLocalFrame => ⟨.none, 0, .staysOnTheLink⟩

def Addressed.header (a : Addressed) : Header := ⟨.errorResponse, a.session, a.reqId⟩

inductive Failure
  | envelope (why : EnvelopeError)
  | hello (why : HelloError)
  | pairing (why : PairingError)
  | sealed (why : SealError)
  | signed (why : SignedError)

namespace Failure

def refusal : Failure → Option Refusal
  | envelope why => some why.refusal
  | hello why => some why.refusal
  | pairing why => why.refusalOf
  | sealed why => why.refusal
  | signed why => why.refusal

def seal? : Failure → Option SealError
  | sealed why | pairing (.sealed why) | signed (.sealed why) => some why
  | _ => none

end Failure

/-- The codes that a failure is answered with before a session is there to seal them in. -/
def Refusal.early : Refusal → Bool
  | client code => decide (code ∈ [ErrorCode.malformedFrame, .unknownMessageType, .protocolMajorMismatch, .payloadTooLarge,
      .sessionExpired, .authenticationFailed, .unknownClient, .unsupportedSuite])
  | linkLocal code => decide (code = .linkTypeOnClientTransport)

theorem envelope_early (why : EnvelopeError) : why.refusal.early = true := by cases why <;> rfl

theorem seal_early {why : SealError} {refusal : Refusal} (h : why.refusal = some refusal) : refusal.early = true := by
  cases why with
  | missing key =>
    cases key <;> cases h <;> rfl
  | _ => cases h <;> rfl

theorem report_early (why : ReportError) : why.refusal.early = true := by
  cases why with
  | majorMismatch ours theirs => rfl
  | body why =>
    cases why with
    | envelope why => exact envelope_early why
    | _ => rfl

theorem hello_early (why : HelloError) : why.refusal.early = true := by
  cases why with
  | noise why => cases why <;> rfl
  | report why => exact report_early why
  | envelope why => exact envelope_early why
  | _ => rfl

theorem pairing_early {why : PairingError} {refusal : Refusal} (h : why.refusalOf = some refusal) :
    refusal.early = true := by
  cases why with
  | noise why =>
    cases why <;> cases h <;> rfl
  | sealed why => exact seal_early h
  | envelope why =>
    cases h
    exact envelope_early why
  | _ =>
    cases h
    rfl

theorem Failure.refusal_early {why : Failure} {refusal : Refusal} (h : why.refusal = some refusal) :
    refusal.early = true := by
  cases why with
  | envelope why =>
    cases h
    exact envelope_early why
  | hello why =>
    cases h
    exact hello_early why
  | pairing why => exact pairing_early h
  | sealed why => exact seal_early h
  | signed why =>
    cases why with
    | sealed why => exact seal_early h
    | notSigned kind =>
      cases h
      rfl
    | operationTooLong length =>
      cases h
      rfl

theorem Refusal.early_bare {refusal : Refusal} (h : refusal.early = true) :
    (Incoming.ofNumber refusal.code).readBare = true := by
  cases refusal with
  | client code =>
    have hclient : Incoming.ofNumber code.number = .client code := Incoming.client_placed code
    rw [Refusal.code, hclient]
    revert h
    cases code <;> decide
  | linkLocal code =>
    have hlink : Incoming.ofNumber code.number = .linkLocal code := Incoming.linkLocal_placed code
    rw [Refusal.code, hlink]
    rfl

theorem seal_silent (why : SealError) : why.refusal = none ↔
    ∃ nonce, why = .replayed nonce ∨ why = .tooOld nonce ∨ why = .reserved := by
  cases why with
  | missing key => cases key <;> simp [SealError.refusal]
  | _ => simp [SealError.refusal]

theorem Failure.refusal_none (why : Failure) : why.refusal = none ↔
    ∃ nonce, why.seal? = some (.replayed nonce) ∨ why.seal? = some (.tooOld nonce) ∨ why.seal? = some .reserved := by
  cases why with
  | envelope why | hello why => simp [refusal, seal?]
  | sealed why => simpa [refusal, seal?] using seal_silent why
  | signed why =>
    cases why with
    | sealed why => simpa [refusal, seal?, SignedError.refusal] using seal_silent why
    | notSigned kind | operationTooLong length => simp [refusal, seal?, SignedError.refusal]
  | pairing why =>
    cases why with
    | sealed why => simpa [refusal, seal?, PairingError.refusalOf] using seal_silent why
    | noise why => cases why <;> simp [refusal, seal?, PairingError.refusalOf]
    | _ => simp [refusal, seal?, PairingError.refusalOf]

/-- Whether the failure counts against the most that a peer may make, in the layers that count. -/
def Failure.counts : Failure → Bool
  | hello why => why.counts
  | pairing why => why.counts
  | sealed why => why.counts
  | signed (.sealed why) => why.counts
  | envelope _ | signed _ => false

theorem seal_counted {why : SealError} (h : why.counts = true) : why.refusal = some (.client .authenticationFailed) := by
  cases why with
  | missing key => cases key <;> first | rfl | cases h
  | _ => first | rfl | cases h

theorem Failure.counts_answered {why : Failure} (h : why.counts = true) :
    why.refusal = some (.client .authenticationFailed) ∨ why.refusal = some (.client .unknownClient) := by
  cases why with
  | envelope why => cases h
  | hello why =>
    cases why with
    | noise why => cases why <;> first | exact .inl rfl | cases h
    | notAdmitted => exact .inr rfl
    | admitWidth length => exact .inl rfl
    | keyMismatch => exact .inl rfl
    | _ => cases h
  | pairing why =>
    cases why with
    | noise why => cases why <;> first | exact .inl rfl | cases h
    | _ => cases h
  | sealed why => exact .inl (seal_counted h)
  | signed why =>
    cases why with
    | sealed why => exact .inl (seal_counted h)
    | notSigned kind | operationTooLong length => cases h

def ErrorBody.width : ErrorKey → ℕ
  | .code => 4
  | .detail => 3 + maxString

theorem ErrorBody.value_length {b : ErrorBody} (h : b.Fits) (k : ErrorKey) (v : Value k) (hv : b.slots k = some v) :
    1 + ((codec k).spell v).spelling.length ≤ width k := by
  cases k with
  | code => exact Nat.add_le_add_left (ofNat_length_u16 v) 1
  | detail =>
    obtain rfl := Option.some.inj hv
    have hshort : b.detail.raw.length ≤ maxString := h
    have hhead := (headBytes_le .text (n := b.detail.raw.length)).2.2.2.1 (hshort.trans (by decide))
    change 1 + (Item.ofText b.detail).spelling.length ≤ 3 + maxString
    rw [Item.ofText, Item.spelling, Token.spelling, List.length_append]
    omega

/-- Whatever fails before a session can seal the answer, its refusal is read by the client that it is about, under the
request's own session and id; only what came again or too late is not answered, and what counts as an attempt on a key
is answered as one. -/
theorem refusals_reach (why : Failure) (about : About) (detail : Str) (hdetail : detail.raw.length ≤ maxString) :
    (∀ refusal, why.refusal = some refusal → ∃ out,
      (ErrorBody.mk (.ofNumber refusal.code) detail).write about.addressed.header maxPayload = .ok out ∧
        ErrorBody.Received out about.addressed.header ⟨⟨.ofNumber refusal.code, detail⟩⟩ ∧
        (Incoming.ofNumber refusal.code).wire = refusal.code) ∧
    (why.refusal = none ↔
      ∃ nonce, why.seal? = some (.replayed nonce) ∨ why.seal? = some (.tooOld nonce) ∨ why.seal? = some .reserved) ∧
    (why.counts = true →
      why.refusal = some (.client .authenticationFailed) ∨ why.refusal = some (.client .unknownClient)) := by
  refine ⟨?_, why.refusal_none, Failure.counts_answered⟩
  intro refusal hrefusal
  have hbare := Refusal.early_bare (Failure.refusal_early hrefusal)
  have hfits : (ErrorBody.mk (.ofNumber refusal.code) detail).Fits := hdetail
  have hbody := cellItems_length (ErrorBody.value_length hfits)
  have hframe := cellFrame_length ErrorBody.codec about.addressed.header
    (ErrorBody.mk (.ofNumber refusal.code) detail).slots
  have hroom : ((Listed.all (κ := ErrorKey)).map ErrorBody.width).sum = 7 + maxString := rfl
  rw [hroom] at hbody
  have hlength : (cellFrame ErrorBody.codec about.addressed.header
      (ErrorBody.mk (.ofNumber refusal.code) detail).slots).item.spelling.length ≤ maxPayload :=
    hframe.trans ((Nat.add_le_add_left hbody 11).trans (by decide))
  have hwrite := ErrorBody.write_ok.mpr ⟨rfl, hfits, rfl, hlength⟩
  obtain ⟨e, he, hheader, hread⟩ := ErrorBody.write_received hwrite
  have hplaced : (ErrorBody.mk (.ofNumber refusal.code) detail).placed = ⟨.ofNumber refusal.code, detail⟩ := by
    rw [ErrorBody.placed, Incoming.wire_ofNumber]
  refine ⟨_, hwrite, ⟨e, he, hheader, hread.trans ?_⟩, Incoming.wire_ofNumber _⟩
  rw [hplaced]
  exact ErrorBody.hint_ok.mpr ⟨hbare, rfl⟩

def unknown : Str := ⟨[110, 111], by decide⟩

theorem refusals_reach_unknown : ∃ out,
    (ErrorBody.mk (.ofNumber 12) unknown).write ⟨.errorResponse, .ofRaw 7, 9⟩ maxPayload = .ok out ∧
      ErrorBody.Received out ⟨.errorResponse, .ofRaw 7, 9⟩ ⟨⟨.ofNumber 12, unknown⟩⟩ := by
  obtain ⟨out, hwrite, hread, -⟩ :=
    (refusals_reach (.hello .notAdmitted) (.aPreSessionRequest ⟨7, by decide⟩ 9) unknown (by decide)).1 _ rfl
  exact ⟨out, hwrite, hread⟩

end Km43.Refusals
