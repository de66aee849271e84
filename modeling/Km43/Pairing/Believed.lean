import Km43.Hello.Session
import Km43.Pairing.Exchange

namespace Km43.Pairing

open Library Identity Cbor CborReader Sealed Link Handshake Noise Mac

section

variable {c : Primitives} {aead : Aead} {pending : PairPending} {label : Label} {printed : Vector UInt8 16}

/-- A refusal under the label's tag over this attempt, or message 2 of the controller that the label prints. -/
def Believed (c : Primitives) (aead : Aead) (pending : PairPending) (label : Label) (printed : Vector UInt8 16) :
    PairSaid → PairReply → Prop
  | .refused refusal tag, .refused believed => believed = refusal ∧
      tag = (Mac.refusal c (label.refusalKey c) pending.initiator.state.hash refusal.outcome).toList
  | .proceed message, .proceed proceeding => printed = fingerprint c proceeding.replied.controller ∧
      ∃ payload, pending.initiator.readReply c aead message pairMessage2 = .ok (proceeding.replied, payload)
  | .refused .., .proceed _ | .proceed _, .refused _ => False

theorem believe_ok {said : PairSaid} {reply : PairReply} :
    pending.believe c aead label printed said = .ok reply ↔ Believed c aead pending label printed said reply := by
  cases said with
  | refused refusal tag =>
    unfold PairPending.believe
    rw [seq_ok, mapError_ok, Tag.verify_ok]
    cases reply with
    | refused believed =>
      constructor
      · rintro ⟨htag, h⟩
        cases h
        exact ⟨rfl, htag.symm⟩
      · rintro ⟨rfl, htag⟩
        exact ⟨htag.symm, rfl⟩
    | proceed proceeding =>
      refine ⟨fun h => ?_, False.elim⟩
      cases h.2
  | proceed message =>
    unfold PairPending.believe
    rw [bind_ok]
    constructor
    · rintro ⟨⟨replied, payload⟩, hread, h⟩
      dsimp only at h
      split_ifs at h with hvouches
      obtain rfl := Except.ok.inj h
      exact ⟨of_decide_eq_true hvouches, payload, mapError_ok.mp hread⟩
    · intro h
      cases reply with
      | refused believed => exact h.elim
      | proceed proceeding =>
        obtain ⟨hprinted, payload, hread⟩ := h
        have hvouches : vouchesFor c printed proceeding.replied.controller = true := decide_eq_true hprinted
        exact ⟨_, mapError_ok.mpr hread, if_neg (not_not.mpr hvouches)⟩

theorem read_iff {bytes : Bytes} {reply : PairReply} :
    receive .envelope bytes (fun e => pending.read c aead e label printed) = .ok reply ↔ ∃ header said,
      header.kind = .pairResponse ∧ header.reqId = pending.header.reqId ∧
      (∃ e, Envelope.decode bytes = .ok e ∧ e.header = header ∧ PairSaid.decode e = .ok said) ∧
      Believed c aead pending label printed said reply := by
  rw [receive_ok]
  constructor
  · rintro ⟨e, he, h⟩
    unfold PairPending.read at h
    obtain ⟨hkind, h⟩ := seq_ok.mp h
    split_ifs at h with hreq
    obtain ⟨said, hsaid, hbelieve⟩ := bind_ok.mp h
    exact ⟨e.header, said, expected_ok.mp hkind, not_not.mp hreq, ⟨e, he, rfl, hsaid⟩, believe_ok.mp hbelieve⟩
  · rintro ⟨header, said, hkind, hreq, ⟨e, he, rfl, hsaid⟩, hbelieved⟩
    refine ⟨e, he, ?_⟩
    unfold PairPending.read
    refine seq_ok.mpr ⟨expected_ok.mpr hkind, ?_⟩
    rw [if_neg (not_not.mpr hreq)]
    exact bind_ok.mpr ⟨said, hsaid, believe_ok.mpr hbelieved⟩

/-- A client believes a refusal of the frames that answer its request with an outcome and the label's tag over this
attempt and this outcome, and goes on from the frames whose message 2 opens to the key that the label prints; there is
no other key in either. -/
theorem replies_believed (c : Primitives) (aead : Aead) (pending : PairPending) (label : Label)
    (printed : Vector UInt8 16) (bytes : Bytes) :
    (∀ refusal, receive .envelope bytes (fun e => pending.read c aead e label printed) = .ok (.refused refusal) ↔
      ∃ (header : Header) (f : Frame), header.kind = .pairResponse ∧ header.reqId = pending.header.reqId ∧
        f.item.Legal maxDepth ∧ f.item.spelling = bytes ∧ f.Scalars (frameHead header) ∧ OnlyKeys PairReplyKey f.pairs ∧
        Cbor.Holds f.pairs 1 u8Of refusal.outcome.byte ∧ ¬HasKey f.pairs 2 ∧ Cbor.Holds f.pairs 3 Item.bytes?
          (Mac.refusal c (label.refusalKey c) pending.initiator.state.hash refusal.outcome).toList) ∧
    ∀ proceeding, receive .envelope bytes (fun e => pending.read c aead e label printed) = .ok (.proceed proceeding) ↔
      ∃ (header : Header) (f : Frame) (message payload : Bytes), header.kind = .pairResponse ∧
        header.reqId = pending.header.reqId ∧ f.item.Legal maxDepth ∧ f.item.spelling = bytes ∧
        f.Scalars (frameHead header) ∧ OnlyKeys PairReplyKey f.pairs ∧ Cbor.Holds f.pairs 1 u8Of Pair.proceed.byte ∧
        Cbor.Holds f.pairs 2 Item.bytes? message ∧ ¬HasKey f.pairs 3 ∧
        pending.initiator.readReply c aead message pairMessage2 = .ok (proceeding.replied, payload) ∧
        printed = fingerprint c proceeding.replied.controller := by
  constructor
  · intro refusal
    rw [read_iff]
    constructor
    · rintro ⟨header, said, hkind, hreq, hsaid, hbelieved⟩
      cases said with
      | proceed message => exact hbelieved.elim
      | refused refusal tag =>
        obtain ⟨rfl, rfl⟩ := hbelieved
        obtain ⟨f, hf, hspell, hscalars, honly, h₁, h₂, h₃⟩ := PairSaid.read_iff.mp hsaid
        exact ⟨header, f, hkind, hreq, hf, hspell, hscalars, honly, h₁, h₂, h₃⟩
    · rintro ⟨header, f, hkind, hreq, hf, hspell, hscalars, honly, h₁, h₂, h₃⟩
      exact ⟨header, .refused refusal _, hkind, hreq, PairSaid.read_iff.mpr ⟨f, hf, hspell, hscalars, honly, h₁, h₂, h₃⟩,
        rfl, rfl⟩
  · intro proceeding
    rw [read_iff]
    constructor
    · rintro ⟨header, said, hkind, hreq, hsaid, hbelieved⟩
      cases said with
      | refused refusal tag => exact hbelieved.elim
      | proceed message =>
        obtain ⟨hprinted, payload, hread⟩ := hbelieved
        obtain ⟨f, hf, hspell, hscalars, honly, h₁, h₂, h₃⟩ := PairSaid.read_iff.mp hsaid
        exact ⟨header, f, message, payload, hkind, hreq, hf, hspell, hscalars, honly, h₁, h₂, h₃, hread, hprinted⟩
    · rintro ⟨header, f, message, payload, hkind, hreq, hf, hspell, hscalars, honly, h₁, h₂, h₃, hread, hprinted⟩
      exact ⟨header, .proceed message, hkind, hreq, PairSaid.read_iff.mpr ⟨f, hf, hspell, hscalars, honly, h₁, h₂, h₃⟩,
        hprinted, payload, hread⟩

/-- A refusal that was tagged for another attempt, for another outcome or under another label's key is not believed. -/
theorem refusal_fresh {key : RefusalKey} {h1 : Key32} {outcome refusal : PairRefusal} {reply : PairReply}
    (hapart : Preimage.Apart c (refusalInput (label.refusalKey c) pending.initiator.state.hash refusal.outcome)
      (refusalInput key h1 outcome.outcome))
    (h : pending.believe c aead label printed (.refused refusal (Mac.refusal c key h1 outcome.outcome).toList) = .ok reply) :
    key = label.refusalKey c ∧ h1 = pending.initiator.state.hash ∧ outcome = refusal ∧ reply = .refused refusal := by
  have hbelieved := believe_ok.mp h
  cases reply with
  | proceed proceeding => exact hbelieved.elim
  | refused believed =>
    obtain ⟨hreply, htag⟩ := hbelieved
    have hinput := hapart (Vector.toList_inj.mp htag.symm)
    have hkey : label.refusalKey c = key := congrArg Preimage.key hinput
    have hpurpose := @Purpose.message_inj (label.refusalKey c) key
      (.refusal pending.initiator.state.hash refusal.outcome) (.refusal h1 outcome.outcome)
      (congrArg Preimage.message hinput)
    obtain ⟨hhash, houtcome⟩ := Purpose.refusal.inj hpurpose
    have hsame : outcome = refusal := by
      cases outcome <;> cases refusal <;> first | rfl | cases houtcome
    exact ⟨hkey.symm, hhash.symm, hsame, by rw [hreply]⟩

end

def asked : PairPending := ⟨⟨⟨⟨none, 0⟩, repeated 6, repeated 9⟩, ⟨repeated 1⟩⟩, neighbours.header⟩

def closed (attempt : Key32) : PairSaid :=
  .refused .windowClosed
    (Mac.refusal Hello.endShown (neighbours.label.refusalKey Hello.endShown) attempt .windowClosed).toList

/-- Its refusal of this attempt is believed, and its refusal of another attempt is not. -/
theorem refusal_fresh_neighbours :
    asked.believe Hello.endShown .transparent neighbours.label neighbours.printed (closed (repeated 9)) =
      .ok (.refused .windowClosed) ∧
    repeated 9 = asked.initiator.state.hash ∧
    ∀ reply, asked.believe Hello.endShown .transparent neighbours.label neighbours.printed (closed (repeated 8)) ≠
      .ok reply := by
  have hbelieved : asked.believe Hello.endShown .transparent neighbours.label neighbours.printed (closed (repeated 9)) =
      .ok (.refused .windowClosed) := believe_ok.mpr ⟨rfl, rfl⟩
  have hown : Preimage.Apart Hello.endShown
      (refusalInput (neighbours.label.refusalKey Hello.endShown) asked.initiator.state.hash Pair.windowClosed)
      (refusalInput (neighbours.label.refusalKey Hello.endShown) (repeated 9) .windowClosed) := fun _ => rfl
  have htags : ∀ key : RefusalKey, Mac.refusal Hello.endShown key (repeated 9) .windowClosed ≠
      Mac.refusal Hello.endShown key (repeated 8) .windowClosed := by
    intro key hsame
    have hlast := congrArg (fun tag : Tag => tag[2]) hsame
    simp [Mac.refusal, Preimage.tag, Hello.endShown, refusalInput, Preimage.under, Preimage.bytes, fill, repeated] at hlast
  have hother : Preimage.Apart Hello.endShown
      (refusalInput (neighbours.label.refusalKey Hello.endShown) asked.initiator.state.hash Pair.windowClosed)
      (refusalInput (neighbours.label.refusalKey Hello.endShown) (repeated 8) .windowClosed) :=
    fun hsame => absurd hsame (htags _)
  obtain ⟨-, hattempt, -⟩ := @refusal_fresh _ _ asked _ _ _ _ .windowClosed .windowClosed _ hown hbelieved
  refine ⟨hbelieved, hattempt, fun reply hreply => ?_⟩
  obtain ⟨-, hstale, -⟩ := @refusal_fresh _ _ asked _ _ _ _ .windowClosed .windowClosed _ hother hreply
  exact absurd hstale (by decide)

def labelItem (i : Item) : Option Str := i.str?.bind fun label => (labelFits label).toOption

theorem PairOffer.decode_iff {payload : Bytes} {o : PairOffer} : PairOffer.decode payload = .ok o ↔
    ∃ w ps, (Item.map w ps).Legal maxDepth ∧ (Item.map w ps).spelling = payload ∧ Keyed ps ∧
      Cbor.Holds ps 1 u8Of o.version.major ∧ Cbor.Holds ps 2 u8Of o.version.minor ∧
      Cbor.Holds ps 3 Item.str? o.clientVersion ∧
      Cbor.Holds ps 4 (fun i => (u8Of i).bind Numbered.tryFrom) o.clientKind ∧ Cbor.Holds ps 5 labelItem o.label := by
  have hkind : (codec .clientKind).item = fun i => (u8Of i).bind (Numbered.tryFrom : UInt8 → Option Membership.ClientKind) :=
    funext (numbered_item PairingError.unknownKind)
  have hslots : ∀ ps : List (Key × Item), (∀ k, Table.SlotOf (t := table) (fun k => (codec k).item) ps o.slots k) ↔
      Cbor.Holds ps 1 u8Of o.version.major ∧ Cbor.Holds ps 2 u8Of o.version.minor ∧
        Cbor.Holds ps 3 Item.str? o.clientVersion ∧
        Cbor.Holds ps 4 (fun i => (u8Of i).bind Numbered.tryFrom) o.clientKind ∧ Cbor.Holds ps 5 labelItem o.label := by
    intro ps
    constructor
    · intro h
      have h₄ : Cbor.Holds ps 4 (codec .clientKind).item o.clientKind := Table.slotOf_shows.mp (h .clientKind)
      rw [hkind] at h₄
      exact ⟨Table.slotOf_shows.mp (h .protocolMajor), Table.slotOf_shows.mp (h .protocolMinor),
        Table.slotOf_shows.mp (h .clientVersion), h₄, Table.slotOf_shows.mp (h .label)⟩
    · rintro ⟨h₁, h₂, h₃, h₄, h₅⟩ k
      apply Table.slotOf_shows.mpr
      cases k with
      | protocolMajor => exact h₁
      | protocolMinor => exact h₂
      | clientVersion => exact h₃
      | clientKind =>
        rw [← hkind] at h₄
        exact h₄
      | label => exact h₅
  have hstands : decode payload = .ok o ↔ Table.Stands (t := table) (fun k => (codec k).item) o.slots payload :=
    (codecs_decode codec fun k => .duplicate (.offer k)).value fun _ => complete_ok
  exact hstands.trans (Table.stands_iff fun _ ps _ => hslots ps)

theorem PairArrival.read_iff {bytes : Bytes} {a : PairArrival} :
    receive .envelope bytes decode = .ok a ↔ a.header.kind = .pair ∧ ∃ (f : Frame) (suite : Suite),
      f.item.Legal maxDepth ∧ f.item.spelling = bytes ∧ f.Scalars (frameHead a.header) ∧ OnlyKeys PairRequestKey f.pairs ∧
      Cbor.Holds f.pairs 1 u8Of suite.byte ∧ Cbor.Holds f.pairs 2 Item.bytes? a.handshake := by
  have hslots : ∀ (pairs : List (Key × Item)) (suite : Suite),
      (∀ k, Table.SlotOf (t := table) (fun k => (codec k).item) pairs (a.slots suite) k) ↔
        Cbor.Holds pairs 1 u8Of suite.byte ∧ Cbor.Holds pairs 2 Item.bytes? a.handshake := by
    intro pairs suite
    constructor
    · intro h
      exact ⟨Table.slotOf_shows.mp (h .suite), Table.slotOf_shows.mp (h .handshake)⟩
    · rintro ⟨h₁, h₂⟩ k
      apply Table.slotOf_shows.mpr
      cases k
      · exact h₁
      · exact h₂
  have hreads : ∀ k, Reads (fun _ => True) 6 (table.read k) (codec k).item := fun k => (codec k).reads 6
  have hframe := fun suite => @closed_received _ _ _ _ _ table _ .unknownKey hreads bytes a.header (a.slots suite)
  simp only [hslots] at hframe
  rw [receive_ok]
  constructor
  · rintro ⟨e, he, h⟩
    obtain ⟨hkind, hheader, suite, hs⟩ := decode_ok.mp h
    obtain ⟨f, hf⟩ := (hframe suite).mp ⟨e, he, hheader.symm, hs⟩
    exact ⟨by rw [hheader, hkind], f, suite, hf⟩
  · rintro ⟨hkind, f, suite, hf⟩
    obtain ⟨e, he, hheader, hs⟩ := (hframe suite).mpr ⟨f, hf⟩
    exact ⟨e, he, decode_ok.mpr ⟨by rw [hheader, hkind], hheader.symm, suite, hs⟩⟩

/-- A controller reads an offer out of the frames that carry a suite and a message 1 and no other key, where the message
opens under the label's key to an offer; and it enrols a key out of the frames that carry a message 3 and no other key,
where the message proves the key. -/
theorem controller_reads (c : Primitives) (aead : Aead) (prologue : Prologue) (psk : Key32) (awaiting : EnrolAwaiting)
    (bytes : Bytes) (dst : ℕ) :
    (∀ offered, (receive .envelope bytes PairArrival.decode >>= fun a => a.open c aead prologue psk dst) = .ok offered ↔
      ∃ (f : Frame) (suite : Suite) (message payload : Bytes), offered.header.kind = .pair ∧ f.item.Legal maxDepth ∧
        f.item.spelling = bytes ∧ f.Scalars (frameHead offered.header) ∧ OnlyKeys PairRequestKey f.pairs ∧
        Cbor.Holds f.pairs 1 u8Of suite.byte ∧ Cbor.Holds f.pairs 2 Item.bytes? message ∧
        PairResponder.readRequest c aead prologue.toList psk message dst = .ok (offered.requested, payload) ∧
        PairOffer.decode payload = .ok offered.offer) ∧
    ∀ enrolling, receive .envelope bytes (fun e => awaiting.read c aead e) = .ok enrolling ↔
      ∃ (f : Frame) (message payload : Bytes) (keys : SessionKeys), enrolling.header.kind = .enrol ∧
        f.item.Legal maxDepth ∧ f.item.spelling = bytes ∧ f.Scalars (frameHead enrolling.header) ∧
        OnlyKeys MessageKey f.pairs ∧ Cbor.Holds f.pairs 1 Item.bytes? message ∧
        awaiting.awaiting.readFinish c aead message pairMessage3 = .ok (⟨enrolling.client, keys⟩, payload) ∧
        enrolling.channel = keys.forResponder := by
  constructor
  · intro offered
    constructor
    · intro h
      obtain ⟨a, ha, h⟩ := bind_ok.mp h
      obtain ⟨⟨requested, payload⟩, hread, h⟩ := bind_ok.mp h
      obtain ⟨offer, hoffer, h⟩ := bind_ok.mp h
      obtain ⟨hkind, f, suite, hf, hspell, hscalars, honly, h₁, h₂⟩ := PairArrival.read_iff.mp ha
      cases h
      exact ⟨f, suite, a.handshake, payload, hkind, hf, hspell, hscalars, honly, h₁, h₂, mapError_ok.mp hread, hoffer⟩
    · rintro ⟨f, suite, message, payload, hkind, hf, hspell, hscalars, honly, h₁, h₂, hread, hoffer⟩
      have ha : receive .envelope bytes PairArrival.decode = .ok ⟨offered.header, message⟩ :=
        PairArrival.read_iff.mpr ⟨hkind, f, suite, hf, hspell, hscalars, honly, h₁, h₂⟩
      refine bind_ok.mpr ⟨_, ha, ?_⟩
      exact bind_ok.mpr ⟨_, mapError_ok.mpr hread, bind_ok.mpr ⟨_, hoffer, rfl⟩⟩
  · intro enrolling
    rw [receive_ok]
    constructor
    · rintro ⟨e, he, h⟩
      obtain ⟨hkind, h⟩ := seq_ok.mp h
      obtain ⟨message, hmessage, h⟩ := bind_ok.mp h
      obtain ⟨⟨finished, payload⟩, hread, h⟩ := bind_ok.mp h
      obtain ⟨f, hf, hspell, hscalars, honly, hholds⟩ := message_read.mp ⟨e, he, rfl, hmessage⟩
      cases h
      exact ⟨f, message, payload, finished.keys, expected_ok.mp hkind, hf, hspell, hscalars, honly, hholds,
        mapError_ok.mp hread, rfl⟩
    · rintro ⟨f, message, payload, keys, hkind, hf, hspell, hscalars, honly, hholds, hread, hchannel⟩
      obtain ⟨e, he, hheader, hmessage⟩ : ∃ e, Envelope.decode bytes = .ok e ∧ e.header = enrolling.header ∧
          enrolMessage e = .ok message := message_read.mpr ⟨f, hf, hspell, hscalars, honly, hholds⟩
      refine ⟨e, he, ?_⟩
      unfold EnrolAwaiting.read
      rw [hheader]
      refine seq_ok.mpr ⟨expected_ok.mpr hkind, bind_ok.mpr ⟨message, hmessage, ?_⟩⟩
      refine bind_ok.mpr ⟨_, mapError_ok.mpr hread, ?_⟩
      dsimp only
      rw [← hchannel]

section

variable {K : Type} {c : Primitives} {aead : Aead} {prologue prologue' : Prologue} {p : PairParties} {ends : PairEnds}
variable {q : Hello.Parties K} {key : AdmitKey}

/-- What the two ends keep of a pairing: the client, the key that it pinned beside its own; the controller, the key that
it learned, in a slot that its admission key opens, with no slot of another client tagging the message 1 of the session the
same. -/
structure Follows (c : Primitives) (aead : Aead) (p : PairParties) (ends : PairEnds) (prologue : Prologue)
    (q : Hello.Parties K) (key : AdmitKey) : Prop where
  deviceId : q.enrolment.deviceId = p.label.deviceId
  pinned : q.enrolment.controller = ends.pinned
  own : q.enrolment.key = p.key
  suite : q.enrolment.suite = p.suite
  controller : q.controller = p.controller
  admits : p.controller.admitKey c p.label.deviceId ends.client = .ok key
  held : ∃ slot, (slot, key) ∈ q.slots
  apart : ∀ message, q.Sends c aead prologue message → ∀ s ∈ q.slots,
    helloAdmit c s.2 prologue message = helloAdmit c key prologue message → q.enrolled s.1 = (ends.client, p.suite)

/-- Fresh keys that agree with the ones that the ends keep, and something to say on both sides that fits. -/
structure Ready (c : Primitives) (q : Hello.Parties K) : Prop where
  ephemerals : Agrees c ⟨q.clientEntropy⟩ ⟨q.controllerEntropy⟩
  toController : Agrees c ⟨q.clientEntropy⟩ q.controller
  statics : Agrees c q.enrolment.key q.controller
  toClient : Agrees c q.enrolment.key ⟨q.controllerEntropy⟩
  offer : q.offer.Fits
  kind : q.header.kind = .hello
  handle : q.header.session ≠ .none
  report : q.report.Fits
  ceiling : q.report.caps.channels ≤ Caps.channelCeiling
  session : q.report.session = q.header.session
  major : q.report.version.major = q.offer.version.major

theorem PairParties.Honest.follows (h : p.Honest c aead) {answer : EnrolAnswer}
    (hends : p.enrolled c aead prologue answer = .ok (some ends)) (hfollows : Follows c aead p ends prologue' q key)
    (hready : Ready c q) : q.Honest c aead prologue' key ∧ ends.client = q.enrolment.key.pub c := by
  have hmade := Option.some.inj (Except.ok.inj ((h.enrolled prologue answer).symm.trans hends))
  have hpinned : ends.pinned = p.controller.pub c := by rw [← hmade]
  have hclient : ends.client = q.enrolment.key.pub c := by rw [← hmade, hfollows.own]
  refine ⟨?_, hclient⟩
  exact {
    pinned := by rw [hfollows.pinned, hpinned, hfollows.controller]
    ephemerals := hready.ephemerals
    toController := hready.toController
    statics := hready.statics
    toClient := hready.toClient
    opens := fun plaintext _ => h.opens plaintext
    offer := hready.offer
    kind := hready.kind
    handle := hready.handle
    report := hready.report
    ceiling := hready.ceiling
    session := hready.session
    major := hready.major
    admits := by rw [hfollows.controller, hfollows.deviceId, ← hclient]; exact hfollows.admits
    held := hfollows.held
    apart := by rw [← hclient, hfollows.suite]; exact hfollows.apart }

/-- What a pairing leaves opens every session after it: a client that kept the controller's key and a controller that
kept the client's end an exchange with the two halves of one handshake's keys, in a slot of the client's. -/
theorem pair_then_hello (h : p.Honest c aead) {answer : EnrolAnswer}
    (hends : p.enrolled c aead prologue answer = .ok (some ends)) (hfollows : Follows c aead p ends prologue' q key)
    (hready : Ready c q) : ∃ (keys : SessionKeys) (slot : K),
      q.exchange c aead prologue' = .ok ⟨⟨keys.forInitiator,
        ⟨q.offer.version.major, min q.offer.version.minor q.report.version.minor⟩, q.report⟩, keys.forResponder, slot,
        q.offer⟩ ∧
      q.enrolled slot = (ends.client, p.suite) := by
  obtain ⟨hhonest, hclient⟩ := h.follows hends hfollows hready
  obtain ⟨keys, slot, hexchange, henrolled⟩ := hhonest.meets
  refine ⟨keys, slot, hexchange, ?_⟩
  rw [henrolled, hclient, hfollows.suite]

def answered : EnrolAnswer := ⟨.enrolled ⟨7, Hello.client_nonzero⟩ ⟨1, Hello.epoch_nonzero⟩, .replicate 16 5⟩

def left : PairEnds := ⟨repeated 4, repeated 3, neighbours.offer, answered⟩

theorem neighbours_shown : neighbours.Honest Hello.keyShown .transparent where
  printed := by
    change fingerprint additive (repeated 4) = fingerprint Hello.keyShown (repeated 4)
    simp only [fingerprint, Hello.keyShown]
  ephemerals := ⟨by decide, by decide⟩
  toController := ⟨by decide, by decide⟩
  toClient := ⟨by decide, by decide⟩
  encrypts := neighbours_honest.encrypts
  sound := neighbours_honest.sound
  offer := neighbours_honest.offer
  kind := rfl
  enrolKind := rfl

theorem meeting_follows (prologue : Prologue) :
    Follows Hello.keyShown .transparent neighbours left prologue Hello.meeting Hello.meetingKey where
  deviceId := rfl
  pinned := rfl
  own := rfl
  suite := rfl
  controller := rfl
  admits := (Hello.meeting_honest prologue).admits
  held := (Hello.meeting_honest prologue).held
  apart := (Hello.meeting_honest prologue).apart

theorem meeting_ready : Ready Hello.keyShown Hello.meeting where
  ephemerals := (Hello.meeting_honest (.replicate 57 9)).ephemerals
  toController := (Hello.meeting_honest (.replicate 57 9)).toController
  statics := (Hello.meeting_honest (.replicate 57 9)).statics
  toClient := (Hello.meeting_honest (.replicate 57 9)).toClient
  offer := (Hello.meeting_honest (.replicate 57 9)).offer
  kind := rfl
  handle := by decide
  report := (Hello.meeting_honest (.replicate 57 9)).report
  ceiling := by decide
  session := rfl
  major := rfl

theorem pair_then_hello_neighbours : ∃ (keys : SessionKeys) (slot : ℕ),
    Hello.meeting.exchange Hello.keyShown .transparent (.replicate 57 9) =
      .ok ⟨⟨keys.forInitiator, ⟨1, 1⟩, Hello.status⟩, keys.forResponder, slot, ⟨⟨1, 2⟩, Hello.short⟩⟩ ∧
    Hello.meeting.enrolled slot = (repeated 3, .x25519ChachapolySha256) := by
  have hends := neighbours_shown.enrolled (.replicate 57 9) answered
  exact pair_then_hello neighbours_shown hends (meeting_follows _) meeting_ready

end

end Km43.Pairing
