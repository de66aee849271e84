import Km43.Hello.Messages

namespace Km43.Hello

open Library Identity Cbor Sealed Link Handshake Noise Mac

structure HelloPending where
  initiator : HelloInitiator
  header : Header
  ours : Version

structure Session where
  channel : ClientChannel
  version : Version
  report : HelloReport

structure Admitted (K : Type) where
  slot : K
  header : Header
  suite : Suite
  handshake : Bytes

structure Proved (K : Type) where
  slot : K
  header : Header
  offer : HelloOffer
  responder : HelloProved

section

variable {K : Type} (c : Primitives) (aead : Aead)

def clientAdmitKey (enrolment : Enrolment) : Except HelloError AdmitKey :=
  (enrolment.key.admitKey c enrolment.deviceId enrolment.controller).mapError .noise

def HelloPending.start (prologue : Prologue) (enrolment : Enrolment) (ephemeral : Key32) (offer : HelloOffer)
    (header : Header) (dst : ℕ) : Except HelloError (HelloPending × Bytes) := do
  expected header .hello
  let payload ← offer.encode maxHelloOffer
  let (initiator, message) ← (HelloInitiator.start c aead prologue.toList enrolment.controller enrolment.key ephemeral
    payload maxHelloMessage1).mapError .noise
  let key ← clientAdmitKey c enrolment
  let tag := helloAdmit c key prologue message
  let written ← encodeBody (HelloArrival.encodeInto ⟨header, enrolment.suite, message, tag.toList⟩) dst
  .ok (⟨initiator, header, offer.version⟩, written)

def HelloPending.finish (pending : HelloPending) (enrolment : Enrolment) (envelope : Envelope) (dst : ℕ) :
    Except HelloError Session := do
  expected envelope.header .helloResponse
  if envelope.header.reqId ≠ pending.header.reqId then .error (.notThisRequest envelope.header.reqId)
  else if envelope.header.session = .none then .error .noHandle
  else do
    let message ← answerMessage envelope
    let (keys, payload) ← (pending.initiator.readReply c aead enrolment.key message dst).mapError .noise
    let report ← (HelloReport.decode payload envelope.header.session).mapError fun why => .report (.body why)
    let version ← (agreedVersion pending.ours report.version).mapError .report
    .ok ⟨keys.forInitiator, version, report⟩

def HelloArrival.tried (a : HelloArrival) (prologue : Prologue) :
    Option K → List (K × AdmitKey) → Except HelloError (Option K)
  | found, [] => .ok found
  | found, (slot, key) :: slots =>
    match (helloAdmit c key prologue a.handshake).verify a.admission with
    | .ok () => tried a prologue (if found.isNone then some slot else found) slots
    | .error (.wrongWidth length) => .error (.admitWidth length)
    | .error .mismatch => tried a prologue found slots

def HelloArrival.admits (a : HelloArrival) (prologue : Prologue) (slots : List (K × AdmitKey)) :
    Except HelloError (Admitted K) := do
  let found ← a.tried c prologue none slots
  let slot ← slotRequired .notAdmitted found
  .ok ⟨slot, a.header, a.suite, a.handshake⟩

/-- The suite that the slot pinned, then the key that it holds, and only then the offer. -/
def Admitted.prove (a : Admitted K) (prologue : Prologue) (controller : StaticKey) (enrolled : PublicKey × Suite)
    (dst : ℕ) : Except HelloError (Proved K) :=
  if a.suite ≠ enrolled.2 then .error (.unsupportedSuite a.suite.byte)
  else do
    let claim ← (HelloResponder.readClaim c aead prologue.toList controller a.handshake).mapError .noise
    if ¬claim.client.matches enrolled.1 then .error .keyMismatch
    else do
      let (responder, payload) ← (claim.prove c aead controller a.handshake dst).mapError .noise
      let offer ← HelloOffer.decode payload
      .ok ⟨a.slot, a.header, offer, responder⟩

/-- Message 2 in its frame, under the request's routing fields, and the controller's side of the session. -/
def Proved.reply (p : Proved K) (ephemeral : Key32) (report : HelloReport) (dst : ℕ) :
    Except HelloError (ControllerChannel × Bytes) := do
  let payload ← (report.encode maxHelloReport).mapError fun why => .report (.body why)
  let (keys, message) ← (p.responder.reply c aead ephemeral payload maxHelloMessage2).mapError .noise
  let written ← encodeBody (encodeAnswer { p.header with kind := .helloResponse } message) dst
  .ok (keys.forResponder, written)

end

structure Ends (K : Type) where
  session : Session
  controller : ControllerChannel
  slot : K
  offer : HelloOffer

/-- What a client and a controller bring to an exchange; a slot's key is kept beside what the slot enrolled. -/
structure Parties (K : Type) where
  enrolment : Enrolment
  clientEntropy : Key32
  offer : HelloOffer
  header : Header
  controller : StaticKey
  controllerEntropy : Key32
  slots : List (K × AdmitKey)
  enrolled : K → PublicKey × Suite
  report : HelloReport

def Parties.exchange {K : Type} (c : Primitives) (aead : Aead) (prologue : Prologue) (p : Parties K) :
    Except HelloError (Ends K) := do
  let (pending, request) ← HelloPending.start c aead prologue p.enrolment p.clientEntropy p.offer p.header maxPayload
  let arrival ← receive .envelope request HelloArrival.decode
  let admitted ← arrival.admits c prologue p.slots
  let proved ← admitted.prove c aead prologue p.controller (p.enrolled admitted.slot) maxHelloOffer
  let (channel, answer) ← proved.reply c aead p.controllerEntropy p.report maxPayload
  let session ← receive .envelope answer fun envelope => pending.finish c aead p.enrolment envelope maxHelloReport
  .ok ⟨session, channel, proved.slot, proved.offer⟩

section

variable {K : Type} {c : Primitives} {aead : Aead} {prologue : Prologue} {a : HelloArrival} {slots : List (K × AdmitKey)}

def Tagged (c : Primitives) (prologue : Prologue) (a : HelloArrival) (key : AdmitKey) : Prop :=
  (helloAdmit c key prologue a.handshake).toList = a.admission

instance (key : AdmitKey) : Decidable (Tagged c prologue a key) := inferInstanceAs (Decidable (_ = _))

theorem verify_wide {tag : Tag} {candidate : Bytes} (h : candidate.length = 16) :
    tag.verify candidate = if tag.toList = candidate then .ok () else .error .mismatch := if_neg (not_not.mpr h)

theorem tried_wide (h : a.admission.length = 16) (found : Option K) : a.tried c prologue found slots =
    .ok (found.or ((slots.find? fun s => decide (Tagged c prologue a s.2)).map Prod.fst)) := by
  induction slots generalizing found with
  | nil => simp [HelloArrival.tried]
  | cons s slots ih =>
    obtain ⟨slot, key⟩ := s
    rw [HelloArrival.tried, verify_wide h, List.find?_cons]
    by_cases htag : Tagged c prologue a key
    · have htag' : (helloAdmit c key prologue a.handshake).toList = a.admission := htag
      rw [if_pos htag', decide_eq_true htag]
      simp only [ih]
      cases found <;> simp
    · have htag' : ¬(helloAdmit c key prologue a.handshake).toList = a.admission := htag
      rw [if_neg htag', decide_eq_false htag]
      exact ih found

theorem tried_narrow (h : a.admission.length ≠ 16) (found : Option K) (hslots : slots ≠ []) :
    a.tried c prologue found slots = .error (.admitWidth a.admission.length) := by
  cases slots with
  | nil => exact absurd rfl hslots
  | cons s slots => simp only [HelloArrival.tried, Tag.verify, if_pos h]

/-- A tag that is not one is refused by its width, and another by no slot's having made it. -/
theorem admits_eq (prologue : Prologue) (a : HelloArrival) (slots : List (K × AdmitKey)) : a.admits c prologue slots =
    if slots ≠ [] ∧ a.admission.length ≠ 16 then .error (.admitWidth a.admission.length)
    else match slots.find? fun s => decide (Tagged c prologue a s.2) with
      | some s => .ok ⟨s.1, a.header, a.suite, a.handshake⟩
      | none => .error .notAdmitted := by
  by_cases hwide : a.admission.length = 16
  · rw [if_neg (by simp [hwide]), HelloArrival.admits, tried_wide hwide none, Option.none_or]
    cases slots.find? fun s => decide (Tagged c prologue a s.2) <;> rfl
  · by_cases hslots : slots = []
    · subst hslots
      rfl
    · rw [if_pos ⟨hslots, hwide⟩, HelloArrival.admits, tried_narrow hwide none hslots]
      rfl

theorem Tagged.wide {key : AdmitKey} (h : Tagged c prologue a key) : a.admission.length = 16 := by
  rw [← h, Vector.length_toList]

theorem admits_ok {admitted : Admitted K} : a.admits c prologue slots = .ok admitted ↔
    ∃ key, slots.find? (fun s => decide (Tagged c prologue a s.2)) = some (admitted.slot, key) ∧
      admitted.header = a.header ∧ admitted.suite = a.suite ∧ admitted.handshake = a.handshake := by
  rw [admits_eq]
  constructor
  · intro h
    split_ifs at h
    cases hfind : slots.find? fun s => decide (Tagged c prologue a s.2) with
    | none =>
      rw [hfind] at h
      cases h
    | some s =>
      rw [hfind] at h
      cases h
      exact ⟨s.2, rfl, rfl, rfl, rfl⟩
  · rintro ⟨key, hfind, hheader, hsuite, hhandshake⟩
    have hfound := List.find?_some hfind
    have htag : Tagged c prologue a key := of_decide_eq_true hfound
    rw [if_neg (by simp [htag.wide]), hfind, ← hheader, ← hsuite, ← hhandshake]

end

theorem admitKey_same {c : Primitives} {a b : StaticKey} (h : Agrees c a b) (deviceId : DeviceId) :
    a.admitKey c deviceId (b.pub c) = b.admitKey c deviceId (a.pub c) := by
  have hagree : a.agree c (b.pub c) = b.agree c (a.pub c) := by rw [StaticKey.agree, StaticKey.agree, h.same]
  rw [StaticKey.admitKey, StaticKey.admitKey, hagree]

theorem agreedVersion_ok {ours theirs : Version} (h : theirs.major = ours.major) :
    agreedVersion ours theirs = .ok ⟨ours.major, min ours.minor theirs.minor⟩ := if_neg (not_not.mpr h.symm)

def Parties.Sends {K : Type} (c : Primitives) (aead : Aead) (prologue : Prologue) (p : Parties K) (message : Bytes) :
    Prop :=
  ∃ pending written a,
    HelloPending.start c aead prologue p.enrolment p.clientEntropy p.offer p.header maxPayload = .ok (pending, written) ∧
    receive .envelope written HelloArrival.decode = .ok a ∧ a.handshake = message

/-- Two ends that hold each other's keys and agree on every secret, each with something to say that fits; a slot
whose key tags the message 1 that is sent as the client's does holds the client's key. -/
structure Parties.Honest {K : Type} (c : Primitives) (aead : Aead) (prologue : Prologue) (p : Parties K)
    (key : AdmitKey) : Prop where
  pinned : p.enrolment.controller = p.controller.pub c
  ephemerals : Agrees c ⟨p.clientEntropy⟩ ⟨p.controllerEntropy⟩
  toController : Agrees c ⟨p.clientEntropy⟩ p.controller
  statics : Agrees c p.enrolment.key p.controller
  toClient : Agrees c p.enrolment.key ⟨p.controllerEntropy⟩
  opens : ∀ plaintext : Bytes, plaintext.length ≤ maxHelloReport → Opens aead plaintext
  offer : p.offer.Fits
  kind : p.header.kind = .hello
  handle : p.header.session ≠ .none
  report : p.report.Fits
  ceiling : p.report.caps.channels ≤ Caps.channelCeiling
  session : p.report.session = p.header.session
  major : p.report.version.major = p.offer.version.major
  admits : p.controller.admitKey c p.enrolment.deviceId (p.enrolment.key.pub c) = .ok key
  held : ∃ slot, (slot, key) ∈ p.slots
  apart : ∀ message, p.Sends c aead prologue message → ∀ s ∈ p.slots,
    helloAdmit c s.2 prologue message = helloAdmit c key prologue message →
      p.enrolled s.1 = (p.enrolment.key.pub c, p.enrolment.suite)

namespace Parties

section

variable {K : Type} {c : Primitives} {aead : Aead} {prologue : Prologue} {p : Parties K} {key : AdmitKey}

def request (c : Primitives) (prologue : Prologue) (p : Parties K) (key : AdmitKey) (message : Bytes) : HelloArrival :=
  ⟨p.header, p.enrolment.suite, message, (helloAdmit c key prologue message).toList⟩

theorem Honest.clientKey (h : p.Honest c aead prologue key) : clientAdmitKey c p.enrolment = .ok key := by
  rw [clientAdmitKey, h.pinned, admitKey_same h.statics, h.admits]
  rfl

theorem request_admission {message : Bytes} :
    (p.request c prologue key message).admission = (helloAdmit c key prologue message).toList := by
  simp only [request]

theorem request_fits {message : Bytes} (h : message.length ≤ maxHelloMessage1) : (p.request c prologue key message).Fits := by
  refine ⟨h.trans_lt (by decide), ?_⟩
  rw [request, Vector.length_toList]
  decide

theorem Honest.first (h : p.Honest c aead prologue key) : ∃ message s,
    HelloPending.start c aead prologue p.enrolment p.clientEntropy p.offer p.header maxPayload =
      .ok (⟨⟨s, ⟨p.clientEntropy⟩⟩, p.header, p.offer.version⟩, (p.request c prologue key message).frame.item.spelling) ∧
    receive .envelope (p.request c prologue key message).frame.item.spelling HelloArrival.decode =
      .ok (p.request c prologue key message) ∧
    ∀ slot, Admitted.prove c aead (⟨slot, p.header, p.enrolment.suite, message⟩ : Admitted K) prologue p.controller
      (p.enrolment.key.pub c, p.enrolment.suite) maxHelloOffer =
        .ok ⟨slot, p.header, p.offer, ⟨s, StaticKey.pub c ⟨p.clientEntropy⟩, p.enrolment.key.pub c⟩⟩ := by
  obtain ⟨payload, hpayload, hshort, hread⟩ := HelloOffer.encodes h.offer
  have hclient : Opens aead (p.enrolment.key.pub c).toList := h.opens _ (by rw [Vector.length_toList]; decide)
  have hopens : Opens aead payload := h.opens _ (hshort.trans (by decide))
  have hroom : (⟨payload, maxHelloMessage1, maxHelloOffer⟩ : Leg).Fits (Noise.keyBytes + sealedKeyBytes + tagBytes) := by
    refine ⟨?_, hshort⟩
    unfold maxHelloMessage1
    dsimp only
    omega
  obtain ⟨message, claimed, s, hstart, hclaim, hprove⟩ := @open_first _ _ prologue.toList _ _ _ _ h.toController h.statics
    hclient hopens hroom
  have hwithin := HelloInitiator.start_within hstart
  have hfits := @request_fits _ c prologue p key _ hwithin
  refine ⟨message, s, ?_, ?_, ?_⟩
  · have htag : (p.request c prologue key message).admission.length = 16 := by
      rw [request_admission, Vector.length_toList]
    have hwrites : encodeBody (p.request c prologue key message).encodeInto maxPayload =
        .ok (p.request c prologue key message).frame.item.spelling :=
      (HelloArrival.encode_ok hfits).mpr ⟨rfl, HelloArrival.frame_length hwithin htag⟩
    unfold HelloPending.start
    refine seq_ok.mpr ⟨HelloArrival.expected_ok.mpr h.kind, bind_ok.mpr ⟨payload, hpayload, ?_⟩⟩
    rw [h.pinned]
    refine bind_ok.mpr ⟨_, mapError_ok.mpr hstart, bind_ok.mpr ⟨key, h.clientKey, ?_⟩⟩
    exact bind_ok.mpr ⟨_, hwrites, rfl⟩
  · obtain ⟨envelope, henvelope, hdecode⟩ := HelloArrival.frame_received hfits h.kind
    exact bind_ok.mpr ⟨envelope, mapError_ok.mpr henvelope, hdecode⟩
  · intro slot
    unfold Admitted.prove
    rw [if_neg (not_not.mpr rfl)]
    refine bind_ok.mpr ⟨_, mapError_ok.mpr hclaim, ?_⟩
    rw [if_neg (by simp [PublicKey.matches])]
    exact bind_ok.mpr ⟨_, mapError_ok.mpr hprove, bind_ok.mpr ⟨p.offer, hread, rfl⟩⟩

theorem request_tagged {other : AdmitKey} {message : Bytes} : Tagged c prologue (p.request c prologue key message) other ↔
    helloAdmit c other prologue message = helloAdmit c key prologue message := by
  unfold Tagged
  rw [request_admission]
  exact Vector.toList_inj

theorem Honest.admitted (h : p.Honest c aead prologue key) {message : Bytes} (hsent : p.Sends c aead prologue message) :
    ∃ slot,
    (p.request c prologue key message).admits c prologue p.slots = .ok ⟨slot, p.header, p.enrolment.suite, message⟩ ∧
      p.enrolled slot = (p.enrolment.key.pub c, p.enrolment.suite) := by
  obtain ⟨held, hmem⟩ := h.held
  have hown : Tagged c prologue (p.request c prologue key message) key := request_tagged.mpr rfl
  have hsome : (p.slots.find? fun s => decide (Tagged c prologue (p.request c prologue key message) s.2)).isSome :=
    List.find?_isSome.mpr ⟨_, hmem, decide_eq_true hown⟩
  obtain ⟨⟨slot, other⟩, hfind⟩ := Option.isSome_iff_exists.mp hsome
  have hfound := List.find?_some hfind
  have htag : helloAdmit c other prologue message = helloAdmit c key prologue message :=
    request_tagged.mp (of_decide_eq_true hfound)
  exact ⟨slot, admits_ok.mpr ⟨other, hfind, rfl, rfl, rfl⟩, h.apart message hsent _ (List.mem_of_find?_eq_some hfind) htag⟩

theorem Honest.second (h : p.Honest c aead prologue key) (slot : K) (s : SymmetricState) : ∃ keys answer,
    Proved.reply c aead ⟨slot, p.header, p.offer, ⟨s, StaticKey.pub c ⟨p.clientEntropy⟩, p.enrolment.key.pub c⟩⟩
      p.controllerEntropy p.report maxPayload = .ok (SessionKeys.forResponder keys, answer) ∧
    receive .envelope answer (fun envelope => HelloPending.finish c aead ⟨⟨s, ⟨p.clientEntropy⟩⟩, p.header, p.offer.version⟩
      p.enrolment envelope maxHelloReport) =
      .ok ⟨keys.forInitiator, ⟨p.offer.version.major, min p.offer.version.minor p.report.version.minor⟩, p.report⟩ := by
  have hlength := HelloReport.items_length h.report
  have hpayload : p.report.encode maxHelloReport = .ok (bodyItem p.report.items).spelling :=
    p.report.encode_iff.mpr ⟨h.ceiling, h.report, rfl, hlength⟩
  have hread := (p.report.decode_encode hpayload).1
  have hroom : (⟨(bodyItem p.report.items).spelling, maxHelloMessage2, maxHelloReport⟩ : Leg).Fits
      (Noise.keyBytes + tagBytes) := by
    refine ⟨?_, hlength⟩
    unfold maxHelloMessage2
    dsimp only
    omega
  obtain ⟨message, keys, hreply, hreplied⟩ := @open_second _ _ _ _ s _ _ h.ephemerals h.toClient (h.opens _ hlength) hroom
  have hwithin : message.length ≤ maxHelloMessage2 := HelloProved.reply_within hreply
  have hsmall : message.length < 2 ^ 64 := hwithin.trans_lt (by decide)
  refine ⟨keys, (messageFrame { p.header with kind := .helloResponse } message).item.spelling, ?_, ?_⟩
  · have hwrites : encodeBody (encodeAnswer { p.header with kind := .helloResponse } message) maxPayload =
        .ok (messageFrame { p.header with kind := .helloResponse } message).item.spelling :=
      (encodeMessage_ok hsmall).mpr ⟨rfl, answer_within hwithin⟩
    unfold Proved.reply
    refine bind_ok.mpr ⟨_, mapError_ok.mpr hpayload, bind_ok.mpr ⟨_, mapError_ok.mpr hreply, ?_⟩⟩
    exact bind_ok.mpr ⟨_, hwrites, rfl⟩
  · obtain ⟨envelope, henvelope, hheader, hmessage⟩ := message_received HelloError.unknownKey (.duplicate .handshake)
      (.missing .handshake) hsmall { p.header with kind := .helloResponse }
    refine bind_ok.mpr ⟨envelope, mapError_ok.mpr henvelope, ?_⟩
    unfold HelloPending.finish
    dsimp only
    rw [hheader]
    refine seq_ok.mpr ⟨HelloArrival.expected_ok.mpr rfl, ?_⟩
    rw [if_neg (not_not.mpr rfl), if_neg h.handle]
    rw [h.session] at hread
    refine bind_ok.mpr ⟨message, hmessage, bind_ok.mpr ⟨_, mapError_ok.mpr hreplied, ?_⟩⟩
    refine bind_ok.mpr ⟨p.report, mapError_ok.mpr hread, ?_⟩
    exact bind_ok.mpr ⟨_, mapError_ok.mpr (agreedVersion_ok h.major), rfl⟩

def ends (p : Parties K) (keys : SessionKeys) (slot : K) : Ends K where
  session := ⟨keys.forInitiator, ⟨p.offer.version.major, min p.offer.version.minor p.report.version.minor⟩, p.report⟩
  controller := keys.forResponder
  slot := slot
  offer := p.offer

theorem Honest.meets (h : p.Honest c aead prologue key) : ∃ (keys : SessionKeys) (slot : K),
    p.exchange c aead prologue = .ok (p.ends keys slot) ∧
    p.enrolled slot = (p.enrolment.key.pub c, p.enrolment.suite) := by
  obtain ⟨message, s, hstart, harrival, hprove⟩ := h.first
  obtain ⟨slot, hadmitted, henrolled⟩ := h.admitted ⟨_, _, _, hstart, harrival, rfl⟩
  obtain ⟨keys, answer, hreply, hfinish⟩ := h.second slot s
  have hproved := hprove slot
  rw [← henrolled] at hproved
  refine ⟨keys, slot, ?_, henrolled⟩
  unfold exchange
  refine bind_ok.mpr ⟨_, hstart, bind_ok.mpr ⟨_, harrival, bind_ok.mpr ⟨_, hadmitted, bind_ok.mpr ⟨_, hproved, ?_⟩⟩⟩⟩
  exact bind_ok.mpr ⟨_, hreply, bind_ok.mpr ⟨_, hfinish, rfl⟩⟩

/-- An exchange between honest ends ends with a session on both sides: keyed by one handshake, the offer and the report
read as they were sent, the lower of the minor versions agreed on, and the slot one of the client's. -/
theorem exchange_completes (h : p.Honest c aead prologue key) : ∃ (keys : SessionKeys) (slot : K),
    p.exchange c aead prologue = .ok ⟨⟨keys.forInitiator,
      ⟨p.offer.version.major, min p.offer.version.minor p.report.version.minor⟩, p.report⟩, keys.forResponder, slot,
      p.offer⟩ ∧
    p.enrolled slot = (p.enrolment.key.pub c, p.enrolment.suite) := h.meets

end

end Parties

def keyShown : Primitives := { additive with hmac := fun key message => fill 32 (key.toList ++ message) }

theorem keyShown_tag (key : AdmitKey) (prologue : Prologue) (message : Bytes) :
    (helloAdmit keyShown key prologue message)[0] = key[0] := by
  simp [helloAdmit, Preimage.tag, keyShown, fill, admitInput, Preimage.under, Preimage.bytes]

def short : Str := ⟨ascii "fw", by decide⟩

theorem handle_nonzero : (3 : UInt16) ≠ 0 := by decide

theorem epoch_nonzero : (1 : UInt32) ≠ 0 := by decide

theorem client_nonzero : (7 : UInt32) ≠ 0 := by decide

def status : HelloReport where
  version := ⟨1, 1⟩
  session := .assigned 3 handle_nonzero
  fwController := short
  fwComms := short
  capabilities := 0
  logOldestSeq := 1
  logNewestSeq := 2
  stateSeq := 3
  timeKnown := false
  caps := ⟨4, 8, 8, 64, 4, 64⟩
  topology := ⟨1, .replicate 8 7, 1, 2, 3, 4, 5, 6, 7, 8, 9, 10⟩
  clientId := ⟨7, client_nonzero⟩
  generation := ⟨1, epoch_nonzero⟩

def meetingKey : AdmitKey := fill 32 (ascii Derivation.admitKey.text ++ [1])

def meeting : Parties ℕ where
  enrolment := .new (.replicate 16 8) (repeated 4) ⟨repeated 3⟩ .x25519ChachapolySha256 ⟨1, epoch_nonzero⟩
  clientEntropy := repeated 1
  offer := ⟨⟨1, 2⟩, short⟩
  header := ⟨.hello, .assigned 3 handle_nonzero, 5⟩
  controller := ⟨repeated 4⟩
  controllerEntropy := repeated 2
  slots := [(2, repeated 0), (7, meetingKey)]
  enrolled slot := if slot = 7 then (repeated 3, .x25519ChachapolySha256) else (repeated 9, .x25519ChachapolySha256)
  report := status

theorem meeting_honest (prologue : Prologue) : meeting.Honest keyShown .transparent prologue meetingKey where
  pinned := rfl
  ephemerals := ⟨by decide, by decide⟩
  toController := ⟨by decide, by decide⟩
  statics := ⟨by decide, by decide⟩
  toClient := ⟨by decide, by decide⟩
  opens plaintext _ := transparent_opens plaintext
  offer := show short.raw.length ≤ maxString by decide
  kind := rfl
  handle := by decide
  report := ⟨by decide, by decide⟩
  ceiling := by decide
  session := rfl
  major := rfl
  admits := by decide +kernel
  held := ⟨7, by simp [meeting]⟩
  apart := by
    intro message _ s hs htag
    simp only [meeting, List.mem_cons, List.not_mem_nil, or_false] at hs
    rcases hs with rfl | rfl
    · have hfirst := congrArg (fun tag : Tag => tag[0]) htag
      simp only [keyShown_tag] at hfirst
      exact absurd hfirst (by decide +kernel)
    · rfl

theorem exchange_completes_meeting : ∃ (keys : SessionKeys) (slot : ℕ),
    meeting.exchange keyShown .transparent (.replicate 57 9) =
      .ok ⟨⟨keys.forInitiator, ⟨1, 1⟩, status⟩, keys.forResponder, slot, ⟨⟨1, 2⟩, short⟩⟩ ∧
    meeting.enrolled slot = (repeated 3, .x25519ChachapolySha256) :=
  Parties.exchange_completes (meeting_honest _)

end Km43.Hello
