import Km43.Pairing.Messages
import Km43.Sealed.Deliver
import Km43.Sealed.Room

namespace Km43.Pairing

open Library Identity Cbor Sealed Link Handshake Noise Mac

structure Label where
  deviceId : DeviceId
  printedSecret : Key32

namespace Label

def pairPsk (c : Primitives) (label : Label) : Key32 :=
  c.derive label.deviceId.toList label.printedSecret.toList .pairPsk

def refusalKey (c : Primitives) (label : Label) : RefusalKey :=
  c.derive label.deviceId.toList label.printedSecret.toList .pairRefusal

end Label

structure PairPending where
  initiator : PairInitiator
  header : Header

structure PairProceeding where
  replied : PairReplied

inductive PairReply
  | proceed (proceeding : PairProceeding)
  | refused (refusal : PairRefusal)

structure EnrolPending where
  channel : ClientChannel
  header : Header

structure Offered where
  header : Header
  requested : PairRequested
  offer : PairOffer

structure EnrolAwaiting where
  awaiting : PairAwaiting

structure Enrolling where
  client : PublicKey
  header : Header
  channel : ControllerChannel

section

variable (c : Primitives) (aead : Aead)

def PairPending.start (prologue : Prologue) (suite : Suite) (label : Label) (ephemeral : Key32) (offer : PairOffer)
    (header : Header) (dst : ℕ) : Except PairingError (PairPending × Bytes) := do
  expected header .pair
  let payload ← offer.encode maxPairOffer
  let (initiator, message) ← (PairInitiator.start c aead prologue.toList (label.pairPsk c) ephemeral payload
    maxPairMessage1).mapError .noise
  let written ← encodeBody (PairArrival.encodeInto ⟨header, message⟩ suite) dst
  .ok (⟨initiator, header⟩, written)

/-- A refusal is believed under the tag of the label's key alone, and message 2 from the label's controller alone. -/
def PairPending.believe (pending : PairPending) (label : Label) (printed : Vector UInt8 16) :
    PairSaid → Except PairingError PairReply
  | .refused refusal tag => do
    ((Mac.refusal c (label.refusalKey c) pending.initiator.state.hash refusal.outcome).verify tag).mapError .refusal
    .ok (.refused refusal)
  | .proceed message => do
    let (replied, _) ← (pending.initiator.readReply c aead message pairMessage2).mapError .noise
    if ¬vouchesFor c printed replied.controller then .error .notTheLabelsController else .ok (.proceed ⟨replied⟩)

def PairPending.read (pending : PairPending) (envelope : Envelope) (label : Label) (printed : Vector UInt8 16) :
    Except PairingError PairReply := do
  expected envelope.header .pairResponse
  if envelope.header.reqId ≠ pending.header.reqId then .error (.notThisRequest envelope.header.reqId)
  else do
    let said ← PairSaid.decode envelope
    pending.believe c aead label printed said

def PairProceeding.finish (p : PairProceeding) (key : StaticKey) (header : Header) (dst : ℕ) :
    Except PairingError (EnrolPending × Bytes) := do
  expected header .enrol
  let (keys, message) ← (p.replied.finish c aead key emptyMap pairMessage3).mapError .noise
  let written ← encodeBody (encodeEnrol header message) dst
  .ok (⟨keys.forInitiator, header⟩, written)

def EnrolPending.read (pending : EnrolPending) (envelope : Envelope) (dst : Bytes) : Except PairingError EnrolAnswer := do
  expected envelope.header .enrolResponse
  if envelope.header.reqId ≠ pending.header.reqId then .error (.notThisRequest envelope.header.reqId)
  else do
    let frame ← (SealedFrame.decode envelope).mapError .sealed
    let opened ← (frame.open aead pending.channel.rx dst).2.result.mapError .sealed
    (EnrolAnswer.decode opened.inner).mapError .answer

def PairArrival.open (a : PairArrival) (prologue : Prologue) (psk : Key32) (dst : ℕ) : Except PairingError Offered := do
  let (requested, payload) ← (PairResponder.readRequest c aead prologue.toList psk a.handshake dst).mapError .noise
  let offer ← PairOffer.decode payload
  .ok ⟨a.header, requested, offer⟩

def Offered.refuse (o : Offered) (refusal : PairRefusal) (key : RefusalKey) (dst : ℕ) : Except PairingError Bytes :=
  let tag := Mac.refusal c key o.requested.state.hash refusal.outcome
  encodeBody (PairSaid.encodeInto { o.header with kind := .pairResponse } (.refused refusal tag.toList)) dst

def Offered.proceed (o : Offered) (controller : StaticKey) (ephemeral : Key32) (dst : ℕ) :
    Except PairingError (EnrolAwaiting × Bytes) := do
  let (awaiting, message) ← (o.requested.reply c aead controller ephemeral emptyMap pairMessage2).mapError .noise
  let written ← encodeBody (PairSaid.encodeInto { o.header with kind := .pairResponse } (.proceed message)) dst
  .ok (⟨awaiting⟩, written)

def EnrolAwaiting.read (e : EnrolAwaiting) (envelope : Envelope) : Except PairingError Enrolling := do
  expected envelope.header .enrol
  let message ← enrolMessage envelope
  let (finished, _) ← (e.awaiting.readFinish c aead message pairMessage3).mapError .noise
  .ok ⟨finished.client, envelope.header, finished.keys.forResponder⟩

def Enrolling.answer (e : Enrolling) (answer : EnrolAnswer) (dst : Bytes) : Except PairingError Bytes := do
  let inner ← (answer.encode maxEnrolAnswer).mapError .answer
  let sealing := (e.channel.tx.seal aead { e.header with kind := .enrolResponse } inner dst).1
  let len ← sealing.result.mapError .sealed
  .ok (sealing.dst.take len)

end

structure PairParties where
  suite : Suite
  label : Label
  printed : Vector UInt8 16
  key : StaticKey
  clientEntropy : Key32
  offer : PairOffer
  header : Header
  enrolHeader : Header
  controller : StaticKey
  controllerEntropy : Key32

structure PairEnds where
  pinned : PublicKey
  client : PublicKey
  offer : PairOffer
  answer : EnrolAnswer
  deriving DecidableEq

namespace PairParties

variable (c : Primitives) (aead : Aead) (prologue : Prologue) (p : PairParties)

def opened : Except PairingError (PairPending × Offered) := do
  let (pending, request) ← PairPending.start c aead prologue p.suite p.label p.clientEntropy p.offer p.header maxPayload
  let arrival ← receive .envelope request PairArrival.decode
  let offered ← arrival.open c aead prologue (p.label.pairPsk c) maxPairOffer
  .ok (pending, offered)

def turnedAway (refusal : PairRefusal) : Except PairingError PairReply := do
  let (pending, offered) ← p.opened c aead prologue
  let reply ← offered.refuse c refusal (p.label.refusalKey c) maxPayload
  receive .envelope reply fun envelope => pending.read c aead envelope p.label p.printed

def enrolled (answer : EnrolAnswer) : Except PairingError (Option PairEnds) := do
  let (pending, offered) ← p.opened c aead prologue
  let (awaiting, reply) ← offered.proceed c aead p.controller p.controllerEntropy maxPayload
  let read ← receive .envelope reply fun envelope => pending.read c aead envelope p.label p.printed
  match read with
  | .refused _ => .ok none
  | .proceed proceeding => do
    let (enrolPending, request) ← proceeding.finish c aead p.key p.enrolHeader maxPayload
    let enrolling ← receive .envelope request fun envelope => awaiting.read c aead envelope
    let written ← enrolling.answer aead answer (List.replicate maxPayload 0)
    let said ← receive .envelope written fun envelope => enrolPending.read aead envelope (List.replicate maxEnrolAnswer 0)
    .ok (some ⟨proceeding.replied.controller, enrolling.client, offered.offer, said⟩)

end PairParties

/-- What a controller seals is decoded and opened to what it sealed, where there is room for it. -/
theorem seal_opens {aead : Aead} {key : Bytes} (hencrypts : aead.Encrypts) (hsound : aead.Sound key) {header : Header}
    (hcheck : Direction.check header = .ok .controller) {next : UInt64} (hnext : next ≠ lastNonce) {inner dst : Bytes}
    (hinner : inner.length ≤ maxEnrolAnswer) (hdst : dst.length = maxPayload) : ∃ len envelope frame,
      (ControllerSealer.seal ⟨key, next⟩ aead header inner dst).1.result = .ok len ∧
      Envelope.decode ((ControllerSealer.seal ⟨key, next⟩ aead header inner dst).1.dst.take len) = .ok envelope ∧
      SealedFrame.decode envelope = .ok frame ∧ envelope.header = header ∧
      ∀ (rx : Opener) (into : Bytes), rx.key = key → rx.window.admits next.toNat = .ok () → inner.length ≤ into.length →
        (frame.open aead rx into).2.result = .ok ⟨header, inner⟩ := by
  have hlen : (List.replicate (inner.length + tagBytes) (0 : UInt8)).length = inner.length + 16 := List.length_replicate
  have hkind : (Item.ofNat header.kind.byte.toUInt64.toNat).spelling.length ≤ 2 := ofNat_length_u8 header.kind.byte
  have hreq : (Item.ofNat header.reqId.toUInt64.toNat).spelling.length ≤ 5 := ofNat_length_u32 header.reqId
  unfold maxEnrolAnswer at hinner
  unfold maxPayload at hdst
  have henvelope : (envelopeItem header (some next) (List.replicate (inner.length + tagBytes) 0)).spelling.length ≤
      dst.length := by
    have hbound := envelope_length header next (hlen.le.trans (by omega))
    rw [hlen] at hbound
    omega
  obtain ⟨len, -, hwritten⟩ := write_ok hencrypts key next.toNat henvelope
  have hseal : (ControllerSealer.seal ⟨key, next⟩ aead header inner dst).1 =
      Sealed.write aead key header next.toNat (some next.toNat) inner dst := by
    simp only [ControllerSealer.seal, hcheck, ne_eq, not_true_eq_false, if_false, if_neg hnext]
  have hwrote := write_wrote hwritten
  obtain ⟨envelope, body, tag, hdecode, hsealed, hencrypt⟩ := @Wrote.decodes _ _ _ _ _ .controller _ _ hwrote (by omega)
    hcheck (fun h => by cases h)
  have hheader : envelope.header = header := by
    obtain ⟨direction, -, h⟩ := bind_ok.mp hsealed
    obtain ⟨out, -, h⟩ := bind_ok.mp h
    obtain ⟨⟨⟩, -, h⟩ := bind_ok.mp h
    obtain ⟨nonce, -, h⟩ := bind_ok.mp h
    obtain ⟨ciphertext, -, h⟩ := bind_ok.mp h
    exact congrArg SealedFrame.header (Except.ok.inj h)
  rw [hseal]
  refine ⟨len, envelope, _, hwritten, hdecode, hsealed, hheader, ?_⟩
  intro rx into hkey hadmits hinto
  rw [← hkey] at hsound hencrypt
  rw [SealedFrame.open_sound hsound hencrypt hnext hadmits hinto]

namespace PairParties

section

variable {c : Primitives} {aead : Aead} {prologue : Prologue} {p : PairParties}

/-- Two ends with one label, whose print is of the controller's key, that agree on every secret. -/
structure Honest (c : Primitives) (aead : Aead) (p : PairParties) : Prop where
  printed : p.printed = fingerprint c (p.controller.pub c)
  ephemerals : Agrees c ⟨p.clientEntropy⟩ ⟨p.controllerEntropy⟩
  toController : Agrees c ⟨p.clientEntropy⟩ p.controller
  toClient : Agrees c p.key ⟨p.controllerEntropy⟩
  encrypts : aead.Encrypts
  sound : ∀ key, aead.Sound key
  offer : p.offer.Fits
  kind : p.header.kind = .pair
  enrolKind : p.enrolHeader.kind = .enrol

theorem Honest.opens (h : p.Honest c aead) (plaintext : Bytes) : Opens aead plaintext := by
  intro key nonce ad
  obtain ⟨⟨body, tag⟩, hencrypt⟩ := Option.isSome_iff_exists.mp (h.encrypts key nonce ad plaintext)
  exact ⟨body, tag, hencrypt, h.sound key _ _ _ _ _ hencrypt⟩

theorem Honest.first (h : p.Honest c aead) (prologue : Prologue) : ∃ s,
    p.opened c aead prologue = .ok (⟨⟨s, ⟨p.clientEntropy⟩⟩, p.header⟩,
      ⟨p.header, ⟨s, StaticKey.pub c ⟨p.clientEntropy⟩⟩, p.offer⟩) := by
  obtain ⟨payload, hpayload, hshort, hread⟩ := PairOffer.encodes h.offer
  have hroom : (⟨payload, maxPairMessage1, maxPairOffer⟩ : Leg).Fits (Noise.keyBytes + tagBytes) := by
    refine ⟨?_, hshort⟩
    unfold maxPairMessage1
    dsimp only
    omega
  obtain ⟨message, s, hstart, hrequest⟩ := @pair_first c aead prologue.toList (p.label.pairPsk c) _ p.clientEntropy
    (h.opens _) hroom
  have hwithin : message.length ≤ maxPairMessage1 := PairInitiator.start_within hstart
  have hsmall : message.length < 2 ^ 64 := hwithin.trans_lt (by decide)
  have hwrites : encodeBody (PairArrival.encodeInto ⟨p.header, message⟩ p.suite) maxPayload =
      .ok ((PairArrival.frame ⟨p.header, message⟩ p.suite).item.spelling) :=
    (PairArrival.encode_ok hsmall).mpr ⟨rfl, PairArrival.frame_length hwithin⟩
  have hreceived : receive .envelope (PairArrival.frame ⟨p.header, message⟩ p.suite).item.spelling PairArrival.decode =
      .ok ⟨p.header, message⟩ := receive_ok.mpr (PairArrival.frame_received hsmall h.kind)
  refine ⟨s, bind_ok.mpr ⟨(⟨⟨s, ⟨p.clientEntropy⟩⟩, p.header⟩, _), ?_, bind_ok.mpr ⟨_, hreceived, ?_⟩⟩⟩
  · unfold PairPending.start
    refine seq_ok.mpr ⟨expected_ok.mpr h.kind, bind_ok.mpr ⟨payload, hpayload, ?_⟩⟩
    exact bind_ok.mpr ⟨_, mapError_ok.mpr hstart, bind_ok.mpr ⟨_, hwrites, rfl⟩⟩
  · refine bind_ok.mpr ⟨⟨p.header, ⟨s, StaticKey.pub c ⟨p.clientEntropy⟩⟩, p.offer⟩, ?_, rfl⟩
    exact bind_ok.mpr ⟨_, mapError_ok.mpr hrequest, bind_ok.mpr ⟨p.offer, hread, rfl⟩⟩

theorem said_written {said : PairSaid} (header : Header) (h : said.carried.length ≤ pairMessage2) :
    encodeBody (PairSaid.encodeInto header said) maxPayload = .ok (PairSaid.frame header said).item.spelling :=
  (PairSaid.encode_ok (h.trans_lt (by decide))).mpr ⟨rfl, PairSaid.frame_length h⟩

theorem refused_carried (refusal : PairRefusal) (tag : Tag) :
    (PairSaid.refused refusal tag.toList).carried.length ≤ pairMessage2 := by
  change tag.toList.length ≤ pairMessage2
  rw [Vector.length_toList]
  decide

theorem read_frame {pending : PairPending} {said : PairSaid} {header : Header} (h : said.carried.length ≤ pairMessage2)
    (hkind : header.kind = .pairResponse) (hreq : header.reqId = pending.header.reqId) (label : Label)
    (printed : Vector UInt8 16) : receive .envelope (PairSaid.frame header said).item.spelling
      (fun envelope => pending.read c aead envelope label printed) = pending.believe c aead label printed said := by
  obtain ⟨e, he, hheader, hsaid⟩ := PairSaid.frame_received (h.trans_lt (by decide)) header
  unfold receive
  rw [he]
  change PairPending.read c aead pending e label printed = _
  unfold PairPending.read
  rw [hheader, expected_ok.mpr hkind]
  change ((if header.reqId ≠ pending.header.reqId then _ else _) : Except PairingError PairReply) = _
  rw [if_neg (not_not.mpr hreq), hsaid]
  rfl

theorem Honest.turnedAway (h : p.Honest c aead) (prologue : Prologue) (refusal : PairRefusal) :
    p.turnedAway c aead prologue refusal = .ok (.refused refusal) := by
  obtain ⟨s, hopened⟩ := h.first prologue
  have hcarried := refused_carried refusal (Mac.refusal c (p.label.refusalKey c) s.hash refusal.outcome)
  have hwritten := said_written { p.header with kind := .pairResponse } hcarried
  have hread := @read_frame c aead ⟨⟨s, ⟨p.clientEntropy⟩⟩, p.header⟩ _ { p.header with kind := .pairResponse } hcarried rfl
    rfl p.label p.printed
  have hbelieve : PairPending.believe c aead ⟨⟨s, ⟨p.clientEntropy⟩⟩, p.header⟩ p.label p.printed
      (.refused refusal (Mac.refusal c (p.label.refusalKey c) s.hash refusal.outcome).toList) = .ok (.refused refusal) :=
    seq_ok.mpr ⟨mapError_ok.mpr (Tag.verify_self _), rfl⟩
  rw [hbelieve] at hread
  unfold PairParties.turnedAway Offered.refuse
  refine bind_ok.mpr ⟨_, hopened, ?_⟩
  dsimp only
  exact bind_ok.mpr ⟨_, hwritten, hread⟩

theorem Honest.second (h : p.Honest c aead) (s : SymmetricState) : ∃ message s', s'.At 1 ∧
    Offered.proceed c aead ⟨p.header, ⟨s, StaticKey.pub c ⟨p.clientEntropy⟩⟩, p.offer⟩ p.controller p.controllerEntropy
      maxPayload = .ok (⟨⟨s', ⟨p.controllerEntropy⟩⟩⟩,
        (PairSaid.frame { p.header with kind := .pairResponse } (.proceed message)).item.spelling) ∧
    receive .envelope (PairSaid.frame { p.header with kind := .pairResponse } (.proceed message)).item.spelling
      (fun envelope => PairPending.read c aead ⟨⟨s, ⟨p.clientEntropy⟩⟩, p.header⟩ envelope p.label p.printed) =
        .ok (.proceed ⟨⟨s', StaticKey.pub c ⟨p.controllerEntropy⟩, p.controller.pub c⟩⟩) := by
  have hroom : (⟨emptyMap, pairMessage2, pairMessage2⟩ : Leg).Fits (Noise.keyBytes + sealedKeyBytes + tagBytes) :=
    ⟨by decide, by decide⟩
  obtain ⟨message, s', hat, hreply, hreplied⟩ := @pair_second c aead p.controller _ s _ _ h.ephemerals h.toController
    (h.opens _) (h.opens _) hroom
  have hcarried : (PairSaid.proceed message).carried.length ≤ pairMessage2 := PairRequested.reply_within hreply
  have hvouches : vouchesFor c p.printed (p.controller.pub c) = true := decide_eq_true h.printed
  refine ⟨message, s', hat, ?_, ?_⟩
  · have hwritten := said_written { p.header with kind := .pairResponse } hcarried
    unfold Offered.proceed
    dsimp only
    refine bind_ok.mpr ⟨_, mapError_ok.mpr hreply, ?_⟩
    exact bind_ok.mpr ⟨_, hwritten, rfl⟩
  · have hbelieve : PairPending.believe c aead ⟨⟨s, ⟨p.clientEntropy⟩⟩, p.header⟩ p.label p.printed (.proceed message) =
        .ok (.proceed ⟨⟨s', StaticKey.pub c ⟨p.controllerEntropy⟩, p.controller.pub c⟩⟩) :=
      bind_ok.mpr ⟨_, mapError_ok.mpr hreplied, if_neg (not_not.mpr hvouches)⟩
    rw [← hbelieve]
    exact @read_frame c aead ⟨⟨s, ⟨p.clientEntropy⟩⟩, p.header⟩ _ { p.header with kind := .pairResponse } hcarried rfl rfl
      p.label p.printed

theorem Honest.third (h : p.Honest c aead) {s : SymmetricState} (hat : s.At 1) : ∃ message keys,
    PairProceeding.finish c aead ⟨⟨s, StaticKey.pub c ⟨p.controllerEntropy⟩, p.controller.pub c⟩⟩ p.key p.enrolHeader
      maxPayload = .ok (⟨SessionKeys.forInitiator keys, p.enrolHeader⟩, (messageFrame p.enrolHeader message).item.spelling) ∧
    receive .envelope (messageFrame p.enrolHeader message).item.spelling
      (fun envelope => EnrolAwaiting.read c aead ⟨⟨s, ⟨p.controllerEntropy⟩⟩⟩ envelope) =
        .ok ⟨p.key.pub c, p.enrolHeader, keys.forResponder⟩ := by
  have hroom : (⟨emptyMap, pairMessage3, pairMessage3⟩ : Leg).Fits (sealedKeyBytes + tagBytes) := ⟨by decide, by decide⟩
  obtain ⟨message, keys, hfinish, hfinished⟩ := @pair_third c aead p.key _ s p.controllerEntropy (p.controller.pub c) hat
    h.toClient (h.opens _) (h.opens _) hroom
  have hwithin : message.length ≤ pairMessage3 := PairReplied.finish_within hfinish
  have hsmall : message.length < 2 ^ 64 := hwithin.trans_lt (by decide)
  obtain ⟨e, he, hheader, hmessage⟩ := message_received PairingError.unknownKey (.duplicate .handshake)
    (.missing .handshake) hsmall p.enrolHeader
  refine ⟨message, keys, ?_, receive_ok.mpr ⟨e, he, ?_⟩⟩
  · refine seq_ok.mpr ⟨expected_ok.mpr h.enrolKind, bind_ok.mpr ⟨_, mapError_ok.mpr hfinish, ?_⟩⟩
    exact bind_ok.mpr ⟨_, (encodeMessage_ok hsmall).mpr ⟨rfl, enrol_within hwithin⟩, rfl⟩
  · unfold EnrolAwaiting.read
    rw [hheader]
    refine seq_ok.mpr ⟨expected_ok.mpr h.enrolKind, bind_ok.mpr ⟨message, hmessage, ?_⟩⟩
    exact bind_ok.mpr ⟨_, mapError_ok.mpr hfinished, rfl⟩

theorem Honest.answered (h : p.Honest c aead) (keys : SessionKeys) (answer : EnrolAnswer) : ∃ written,
    Enrolling.answer aead ⟨p.key.pub c, p.enrolHeader, keys.forResponder⟩ answer (List.replicate maxPayload 0) =
      .ok written ∧
    receive .envelope written (fun envelope => EnrolPending.read aead ⟨keys.forInitiator, p.enrolHeader⟩ envelope
      (List.replicate maxEnrolAnswer 0)) = .ok answer := by
  have hinner := answer.encodes
  have hlength := (answer.encode_ok.mp hinner).2
  obtain ⟨len, envelope, frame, hsealed, henvelope, hframe, hheader, hopens⟩ := seal_opens h.encrypts
    (h.sound keys.responderToInitiator.toList)
    (show Direction.check { p.enrolHeader with kind := .enrolResponse } = .ok .controller from rfl)
    (show (0 : UInt64) ≠ lastNonce by decide) hlength
    (List.length_replicate : (List.replicate maxPayload (0 : UInt8)).length = maxPayload)
  refine ⟨_, bind_ok.mpr ⟨_, mapError_ok.mpr hinner, bind_ok.mpr ⟨len, mapError_ok.mpr hsealed, rfl⟩⟩, ?_⟩
  refine receive_ok.mpr ⟨envelope, henvelope, ?_⟩
  unfold EnrolPending.read
  rw [hheader]
  refine seq_ok.mpr ⟨expected_ok.mpr rfl, ?_⟩
  rw [if_neg (not_not.mpr rfl)]
  have hopened := hopens keys.forInitiator.rx (List.replicate maxEnrolAnswer 0) rfl rfl
    (by rw [List.length_replicate]; exact hlength)
  refine bind_ok.mpr ⟨frame, mapError_ok.mpr hframe, bind_ok.mpr ⟨_, mapError_ok.mpr hopened, ?_⟩⟩
  exact mapError_ok.mpr answer.decode_encoded

theorem Honest.enrolled (h : p.Honest c aead) (prologue : Prologue) (answer : EnrolAnswer) :
    p.enrolled c aead prologue answer = .ok (some ⟨p.controller.pub c, p.key.pub c, p.offer, answer⟩) := by
  obtain ⟨s, hopened⟩ := h.first prologue
  obtain ⟨message, s', hat, hproceed, hread⟩ := h.second s
  obtain ⟨message₃, keys, hfinish, henrolling⟩ := h.third hat
  obtain ⟨written, hanswer, hsaid⟩ := h.answered keys answer
  refine bind_ok.mpr ⟨_, hopened, bind_ok.mpr ⟨_, hproceed, bind_ok.mpr ⟨_, hread, ?_⟩⟩⟩
  exact bind_ok.mpr ⟨_, hfinish, bind_ok.mpr ⟨_, henrolling, bind_ok.mpr ⟨_, hanswer, bind_ok.mpr ⟨_, hsaid, rfl⟩⟩⟩⟩

/-- A pairing between ends with one label ends as the controller decides: turned away, the client believes the very
refusal; enrolled, the client pins the controller's key, the controller learns the client's, and the offer and the
answer are read as they were sent. -/
theorem pairing_completes (h : p.Honest c aead) (prologue : Prologue) :
    (∀ refusal, p.turnedAway c aead prologue refusal = .ok (.refused refusal)) ∧
    ∀ answer, p.enrolled c aead prologue answer = .ok (some ⟨p.controller.pub c, p.key.pub c, p.offer, answer⟩) :=
  ⟨h.turnedAway prologue, h.enrolled prologue⟩

end

end PairParties

theorem handle_nonzero : (3 : UInt16) ≠ 0 := by decide

def neighbours : PairParties where
  suite := .x25519ChachapolySha256
  label := ⟨.replicate 16 8, repeated 7⟩
  printed := fingerprint additive (repeated 4)
  key := ⟨repeated 3⟩
  clientEntropy := repeated 1
  offer := ⟨⟨1, 2⟩, ⟨ascii "1.0", by decide⟩, .app, ⟨ascii "phone", by decide⟩⟩
  header := ⟨.pair, .assigned 3 handle_nonzero, 5⟩
  enrolHeader := ⟨.enrol, .assigned 3 handle_nonzero, 6⟩
  controller := ⟨repeated 4⟩
  controllerEntropy := repeated 2

theorem neighbours_honest : neighbours.Honest additive .transparent where
  printed := rfl
  ephemerals := additive_agrees.1
  toController := additive_agrees.2.1
  toClient := additive_agrees.2.2.1
  encrypts _ _ _ _ := rfl
  sound := Aead.transparent_sound
  offer := ⟨by decide, by decide⟩
  kind := rfl
  enrolKind := rfl

theorem pairing_completes_neighbours :
    (∀ refusal, neighbours.turnedAway additive .transparent (.replicate 57 9) refusal = .ok (.refused refusal)) ∧
    ∀ answer, neighbours.enrolled additive .transparent (.replicate 57 9) answer =
      .ok (some ⟨repeated 4, repeated 3, neighbours.offer, answer⟩) :=
  PairParties.pairing_completes neighbours_honest _

end Km43.Pairing
