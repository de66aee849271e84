import Km43.Hello.Exchange
import Km43.Sealed.Deliver

namespace Km43.Hello

open Library Identity Cbor CborReader Sealed Link Handshake Noise Mac

namespace HelloOffer

theorem decode_iff {payload : Bytes} {o : HelloOffer} : decode payload = .ok o ↔
    ∃ w ps, (Item.map w ps).Legal maxDepth ∧ (Item.map w ps).spelling = payload ∧ Keyed ps ∧
      Cbor.Holds ps 1 u8Of o.version.major ∧ Cbor.Holds ps 2 u8Of o.version.minor ∧
      Cbor.Holds ps 3 Item.str? o.clientVersion := by
  have hslots : ∀ ps : List (Key × Item), (∀ k, Table.SlotOf (t := table) (fun k => (codec k).item) ps o.slots k) ↔
      Cbor.Holds ps 1 u8Of o.version.major ∧ Cbor.Holds ps 2 u8Of o.version.minor ∧
        Cbor.Holds ps 3 Item.str? o.clientVersion := by
    intro ps
    constructor
    · intro h
      exact ⟨Table.slotOf_shows.mp (h .protocolMajor), Table.slotOf_shows.mp (h .protocolMinor),
        Table.slotOf_shows.mp (h .clientVersion)⟩
    · rintro ⟨h₁, h₂, h₃⟩ k
      apply Table.slotOf_shows.mpr
      cases k
      · exact h₁
      · exact h₂
      · exact h₃
  have hstands : decode payload = .ok o ↔ Table.Stands (t := table) (fun k => (codec k).item) o.slots payload :=
    (codecs_decode codec fun k => .duplicate (.offer k)).value fun _ => complete_ok
  exact hstands.trans (Table.stands_iff fun _ ps _ => hslots ps)

end HelloOffer

section

variable {K : Type}

def accept (c : Primitives) (aead : Aead) (prologue : Prologue) (controller : StaticKey) (slots : List (K × AdmitKey))
    (enrolled : K → PublicKey × Suite) (bytes : Bytes) (dst : ℕ) : Except HelloError (Proved K) := do
  let arrival ← receive .envelope bytes HelloArrival.decode
  let admitted ← arrival.admits c prologue slots
  admitted.prove c aead prologue controller (enrolled admitted.slot) dst

variable {c : Primitives} {aead : Aead} {prologue : Prologue} {controller : StaticKey} {slots : List (K × AdmitKey)}
  {enrolled : K → PublicKey × Suite} {bytes : Bytes} {dst : ℕ} {p : Proved K}

theorem prove_ok {a : Admitted K} {pinned : PublicKey × Suite} : a.prove c aead prologue controller pinned dst = .ok p ↔
    a.suite = pinned.2 ∧ p.slot = a.slot ∧ p.header = a.header ∧
      ∃ claim payload, HelloResponder.readClaim c aead prologue.toList controller a.handshake = .ok claim ∧
        claim.client = pinned.1 ∧ claim.prove c aead controller a.handshake dst = .ok (p.responder, payload) ∧
        HelloOffer.decode payload = .ok p.offer := by
  unfold Admitted.prove
  constructor
  · intro h
    split_ifs at h with hsuite
    obtain ⟨claim, hclaim, h⟩ := bind_ok.mp h
    split_ifs at h with hmatches
    obtain ⟨⟨responder, payload⟩, hproved, h⟩ := bind_ok.mp h
    obtain ⟨offer, hoffer, h⟩ := bind_ok.mp h
    cases h
    exact ⟨not_not.mp hsuite, rfl, rfl, claim, payload, mapError_ok.mp hclaim,
      of_decide_eq_true hmatches, mapError_ok.mp hproved, hoffer⟩
  · rintro ⟨hsuite, hslot, hheader, claim, payload, hclaim, hclient, hproved, hoffer⟩
    have hmatches : claim.client.matches pinned.1 = true := decide_eq_true hclient
    rw [if_neg (not_not.mpr hsuite)]
    refine bind_ok.mpr ⟨claim, mapError_ok.mpr hclaim, ?_⟩
    rw [if_neg (not_not.mpr hmatches)]
    refine bind_ok.mpr ⟨_, mapError_ok.mpr hproved, bind_ok.mpr ⟨_, hoffer, ?_⟩⟩
    rw [← hslot, ← hheader]

/-- A controller may answer the frames that carry the three keys and no other, under a tag that the key of a slot made
over this prologue and this message 1, where message 1 names and proves the key that the slot holds, in the suite that
it pinned, and carries an offer; the slot is the first whose key made the tag. -/
theorem accept_iff : accept c aead prologue controller slots enrolled bytes dst = .ok p ↔
    ∃ (handshake : Bytes) (key : AdmitKey) (f : Frame) (claim : HelloClaimed) (payload : Bytes),
      p.header.kind = .hello ∧ f.item.Legal maxDepth ∧ f.item.spelling = bytes ∧ f.Scalars (frameHead p.header) ∧
      OnlyKeys RequestKey f.pairs ∧ Cbor.Holds f.pairs 1 u8Of (enrolled p.slot).2.byte ∧
      Cbor.Holds f.pairs 2 Item.bytes? handshake ∧
      Cbor.Holds f.pairs 3 Item.bytes? (helloAdmit c key prologue handshake).toList ∧
      slots.find? (fun s => decide (helloAdmit c s.2 prologue handshake = helloAdmit c key prologue handshake)) =
        some (p.slot, key) ∧
      HelloResponder.readClaim c aead prologue.toList controller handshake = .ok claim ∧
      claim.client = (enrolled p.slot).1 ∧ claim.prove c aead controller handshake dst = .ok (p.responder, payload) ∧
      HelloOffer.decode payload = .ok p.offer := by
  have htagged : ∀ (a : HelloArrival) (key : AdmitKey), a.admission = (helloAdmit c key prologue a.handshake).toList →
      (fun s : K × AdmitKey => decide (Tagged c prologue a s.2)) =
        fun s => decide (helloAdmit c s.2 prologue a.handshake = helloAdmit c key prologue a.handshake) := by
    intro a key htag
    funext s
    apply decide_eq_decide.mpr
    unfold Tagged
    rw [htag]
    exact Vector.toList_inj
  constructor
  · intro h
    obtain ⟨a, ha, h⟩ := bind_ok.mp h
    obtain ⟨admitted, hadmitted, h⟩ := bind_ok.mp h
    obtain ⟨key, hfind, hheader, hsuite, hhandshake⟩ := admits_ok.mp hadmitted
    obtain ⟨hpinned, hslot, hhead, claim, payload, hclaim, hclient, hproved, hoffer⟩ := prove_ok.mp h
    obtain ⟨hkind, f, hf, hspell, hscalars, honly, h₁, h₂, h₃⟩ :=
      (HelloArrival.received bytes a).mp (receive_ok.mp ha)
    have hfound := List.find?_some hfind
    have htag : a.admission = (helloAdmit c key prologue a.handshake).toList := (of_decide_eq_true hfound).symm
    rw [htagged a key htag, ← hslot] at hfind
    rw [← hslot] at hpinned hclient
    rw [hhandshake] at hclaim hproved
    rw [htag] at h₃
    rw [← hsuite, hpinned] at h₁
    have hheads : p.header = a.header := hhead.trans hheader
    rw [← hheads] at hkind hscalars
    exact ⟨a.handshake, key, f, claim, payload, hkind, hf, hspell, hscalars, honly, h₁, h₂, h₃, hfind, hclaim, hclient,
      hproved, hoffer⟩
  · rintro ⟨handshake, key, f, claim, payload, hkind, hf, hspell, hscalars, honly, h₁, h₂, h₃, hfind, hclaim, hclient,
      hproved, hoffer⟩
    obtain ⟨a, hheader, hsuite, rfl, htag⟩ : ∃ a : HelloArrival, a.header = p.header ∧ a.suite = (enrolled p.slot).2 ∧
        a.handshake = handshake ∧ a.admission = (helloAdmit c key prologue handshake).toList :=
      ⟨⟨_, _, _, _⟩, rfl, rfl, rfl, rfl⟩
    rw [← hheader] at hkind hscalars
    rw [← hsuite] at h₁
    rw [← htag] at h₃
    have hreceived : receive .envelope bytes HelloArrival.decode = .ok a :=
      receive_ok.mpr ((HelloArrival.received bytes a).mpr ⟨hkind, f, hf, hspell, hscalars, honly, h₁, h₂, h₃⟩)
    have hadmits : a.admits c prologue slots = .ok ⟨p.slot, a.header, a.suite, a.handshake⟩ := by
      refine admits_ok.mpr ⟨key, ?_, rfl, rfl, rfl⟩
      rw [htagged a key htag]
      exact hfind
    unfold accept
    refine bind_ok.mpr ⟨a, hreceived, bind_ok.mpr ⟨_, hadmits, ?_⟩⟩
    exact prove_ok.mpr ⟨hsuite, rfl, hheader.symm, claim, payload, hclaim, hclient, hproved, hoffer⟩

theorem agreedVersion_iff {ours theirs version : Version} : agreedVersion ours theirs = .ok version ↔
    theirs.major = ours.major ∧ version = ⟨ours.major, min ours.minor theirs.minor⟩ := by
  unfold agreedVersion
  constructor
  · intro h
    split_ifs at h with hmajor
    exact ⟨(not_not.mp hmajor).symm, (Except.ok.inj h).symm⟩
  · rintro ⟨hmajor, rfl⟩
    exact if_neg (not_not.mpr hmajor.symm)

/-- A client opens a session on the frames that answer its own request, at a handle, with one key and no other, whose
message 2 opens under the key it pinned to a report of that handle and of its own major version. -/
theorem finish_iff {pending : HelloPending} {enrolment : Enrolment} {session : Session} :
    receive .envelope bytes (fun e => pending.finish c aead enrolment e dst) = .ok session ↔
      ∃ (header : Header) (message : Bytes) (f : Frame) (keys : SessionKeys) (payload : Bytes),
        header.kind = .helloResponse ∧ header.reqId = pending.header.reqId ∧ header.session ≠ .none ∧
        f.item.Legal maxDepth ∧ f.item.spelling = bytes ∧ f.Scalars (frameHead header) ∧
        OnlyKeys MessageKey f.pairs ∧ Cbor.Holds f.pairs 1 Item.bytes? message ∧
        pending.initiator.readReply c aead enrolment.key message dst = .ok (keys, payload) ∧
        session.channel = keys.forInitiator ∧ HelloReport.decode payload header.session = .ok session.report ∧
        session.report.version.major = pending.ours.major ∧
        session.version = ⟨pending.ours.major, min pending.ours.minor session.report.version.minor⟩ := by
  constructor
  · intro h
    obtain ⟨e, he, hfinish⟩ := receive_ok.mp h
    unfold HelloPending.finish at hfinish
    obtain ⟨hkind, hfinish⟩ := seq_ok.mp hfinish
    split_ifs at hfinish with hreq hhandle
    obtain ⟨message, hmessage, hfinish⟩ := bind_ok.mp hfinish
    obtain ⟨⟨keys, payload⟩, hread, hfinish⟩ := bind_ok.mp hfinish
    obtain ⟨report, hreport, hfinish⟩ := bind_ok.mp hfinish
    obtain ⟨version, hversion, hfinish⟩ := bind_ok.mp hfinish
    cases hfinish
    obtain ⟨f, hf, hspell, hscalars, honly, hholds⟩ := message_read.mp ⟨e, he, rfl, hmessage⟩
    obtain ⟨hmajor, hagreed⟩ := agreedVersion_iff.mp (mapError_ok.mp hversion)
    exact ⟨e.header, message, f, keys, payload, HelloArrival.expected_ok.mp hkind, not_not.mp hreq, hhandle, hf, hspell,
      hscalars, honly, hholds, mapError_ok.mp hread, rfl, mapError_ok.mp hreport, hmajor, hagreed⟩
  · rintro ⟨header, message, f, keys, payload, hkind, hreq, hhandle, hf, hspell, hscalars, honly, hholds, hread, hchannel,
      hreport, hmajor, hversion⟩
    obtain ⟨e, he, hheader, hmessage⟩ : ∃ e, Envelope.decode bytes = .ok e ∧ e.header = header ∧
        answerMessage e = .ok message := message_read.mpr ⟨f, hf, hspell, hscalars, honly, hholds⟩
    refine receive_ok.mpr ⟨e, he, ?_⟩
    unfold HelloPending.finish
    rw [hheader]
    refine seq_ok.mpr ⟨HelloArrival.expected_ok.mpr hkind, ?_⟩
    rw [if_neg (not_not.mpr hreq), if_neg hhandle]
    refine bind_ok.mpr ⟨message, hmessage, bind_ok.mpr ⟨_, mapError_ok.mpr hread, ?_⟩⟩
    refine bind_ok.mpr ⟨session.report, mapError_ok.mpr hreport, ?_⟩
    refine bind_ok.mpr ⟨session.version, mapError_ok.mpr (agreedVersion_iff.mpr ⟨hmajor, hversion⟩), ?_⟩
    rw [← hchannel]

/-- A request is admitted under no prologue but the one it was tagged under, of no message but the one that was tagged,
and to no slot but one of the key that tagged it. -/
theorem admitted_fresh {fields fields' : PrologueFields} {key : AdmitKey} {a : HelloArrival} {message : Bytes}
    {admitted : Admitted K} (htag : a.admission = (helloAdmit c key (Prologue.new fields) message).toList)
    (hapart : ∀ s ∈ slots, Preimage.Apart c (admitInput s.2 (Prologue.new fields') a.handshake)
      (admitInput key (Prologue.new fields) message))
    (h : a.admits c (Prologue.new fields') slots = .ok admitted) :
    fields' = fields ∧ a.handshake = message ∧ (admitted.slot, key) ∈ slots := by
  obtain ⟨other, hfind, -⟩ := admits_ok.mp h
  have hmem := List.mem_of_find?_eq_some hfind
  have hfound := List.find?_some hfind
  have hmade : (helloAdmit c other (Prologue.new fields') a.handshake).toList = a.admission := of_decide_eq_true hfound
  have hinput := hapart _ hmem (Vector.toList_inj.mp (hmade.trans htag))
  have hkey : other = key := congrArg Preimage.key hinput
  have hpurpose := @Purpose.message_inj other key (.helloAdmit (Prologue.new fields') a.handshake)
    (.helloAdmit (Prologue.new fields) message) (congrArg Preimage.message hinput)
  obtain ⟨hprologue, hmessage⟩ := Purpose.helloAdmit.inj hpurpose
  rw [hkey] at hmem
  exact ⟨PrologueFields.new_inj hprologue, hmessage, hmem⟩

end

namespace Ends

variable {K : Type}

def sealers (ends : Ends K) : Sealed.Session := ⟨ends.session.channel.tx, ends.controller.tx⟩

def opener (ends : Ends K) : Direction → Opener
  | .request => ends.controller.rx
  | .controller => ends.session.channel.rx

variable {c : Primitives} {aead : Aead} {prologue : Prologue} {p : Parties K} {key : AdmitKey} {ends : Ends K}

/-- In a session that honest ends opened, what either side seals is opened by the other when it first arrives and
refused as a replay whenever it arrives again, in whatever order it does. -/
theorem traffic_once (h : p.Honest c aead prologue key) (hends : p.exchange c aead prologue = .ok ends)
    (side : Direction) (hsound : aead.Sound (ends.sealers.key side)) (calls : List SealCall)
    (hcalls : ∀ call ∈ calls, call.dst.length < 2 ^ 64) (deliveries : List Delivery)
    (hreaches : Reaches side (Sealed.Session.sent aead side ends.sealers calls) deliveries) (k : ℕ) (d : Delivery)
    (hd : deliveries[k]? = some d) :
    ((∀ e ∈ deliveries.take k, e.message ≠ d.message) →
      ((Opener.deliver aead).outputs (ends.opener side) (deliveries.map Delivery.arrival))[k]? =
        some (.ok ⟨d.message.header, d.message.inner⟩)) ∧
    ((∃ e ∈ deliveries.take k, e.message = d.message) →
      ((Opener.deliver aead).outputs (ends.opener side) (deliveries.map Delivery.arrival))[k]? =
        some (.error (.sealed (.replayed d.message.nonce.toNat)))) := by
  obtain ⟨keys, slot, hexchange, -⟩ := h.meets
  have hmade := Except.ok.inj (hends.symm.trans hexchange)
  have hopener : ends.opener side = .new (ends.sealers.key side) side := by
    rw [hmade]
    cases side with
    | request => rfl
    | controller => rfl
  obtain ⟨hall, hrising⟩ := Sealed.Session.sent_genuine aead side hcalls
  have houtcome := Opener.deliver_sound hsound (fun m hm => (hall m hm).1) hreaches hd
  rw [hopener]
  have hmem := hreaches.sealed d (List.mem_of_getElem? hd)
  refine ⟨fun hnew => houtcome.1 fun e he hnonce => hnew e he ?_, ?_⟩
  · exact Sealed.Session.sent_inj hrising (hreaches.sealed e (List.mem_of_mem_take he)) hmem hnonce
  · rintro ⟨e, he, hsame⟩
    exact houtcome.2 ⟨e, he, by rw [hsame]⟩

end Ends

def fields : PrologueFields :=
  ⟨.x25519ChachapolySha256, ⟨1, 2⟩, .replicate 16 8, ⟨1, epoch_nonzero⟩, .replicate 16 5, .assigned 3 handle_nonzero⟩

def later : PrologueFields := { fields with challenge := .replicate 16 6 }

def endShown : Primitives := { additive with hmac := fun key message => fill 32 (key[0] :: message.reverse) }

def tagged : HelloArrival :=
  ⟨meeting.header, .x25519ChachapolySha256, [1], (helloAdmit endShown meetingKey (Prologue.new fields) [1]).toList⟩

def taken : Admitted ℕ := ⟨7, meeting.header, .x25519ChachapolySha256, [1]⟩

/-- It is taken under its own prologue, and under a later one by no slot. -/
theorem admitted_fresh_meeting : tagged.admits endShown (Prologue.new fields) meeting.slots = .ok taken ∧
    (taken.slot, meetingKey) ∈ meeting.slots ∧
    ∀ admitted, tagged.admits endShown (Prologue.new later) meeting.slots ≠ .ok admitted := by
  have htag : tagged.admission = (helloAdmit endShown meetingKey (Prologue.new fields) [1]).toList := rfl
  have hother : helloAdmit endShown (repeated 0) (Prologue.new fields) [1] ≠
      helloAdmit endShown meetingKey (Prologue.new fields) [1] := by decide
  have hlater : ∀ key ∈ [repeated 0, meetingKey], helloAdmit endShown key (Prologue.new later) [1] ≠
      helloAdmit endShown meetingKey (Prologue.new fields) [1] := by decide
  have htaken : tagged.admits endShown (Prologue.new fields) meeting.slots = .ok taken :=
    admits_ok.mpr ⟨meetingKey, by decide, rfl, rfl, rfl⟩
  have hown : ∀ s ∈ meeting.slots, Preimage.Apart endShown (admitInput s.2 (Prologue.new fields) tagged.handshake)
      (admitInput meetingKey (Prologue.new fields) [1]) := by
    intro s hs hsame
    rcases List.mem_cons.mp hs with rfl | hs
    · exact absurd hsame hother
    · obtain rfl := List.mem_singleton.mp hs
      rfl
  have hapart : ∀ s ∈ meeting.slots, Preimage.Apart endShown (admitInput s.2 (Prologue.new later) tagged.handshake)
      (admitInput meetingKey (Prologue.new fields) [1]) := by
    intro s hs hsame
    exact absurd hsame (hlater s.2 (List.mem_map_of_mem hs))
  obtain ⟨-, -, hslot⟩ := admitted_fresh htag hown htaken
  refine ⟨htaken, hslot, fun admitted hadmitted => ?_⟩
  obtain ⟨hfields, -⟩ := admitted_fresh htag hapart hadmitted
  exact absurd hfields (by decide)

def asking : SealCall := .request .getConfig (.assigned 3 handle_nonzero) [0xA0] (List.replicate 64 0)

theorem asking_sent : ((meeting.exchange keyShown .transparent (.replicate 57 9)).toOption.map fun ends =>
    (Sealed.Session.sent .transparent .request ends.sealers [asking]).map fun m => (m.inner, m.nonce)) =
    some [([0xA0], 1)] := by
  decide +kernel

theorem traffic_once_meeting : ∃ (ends : Ends ℕ) (d : Delivery),
    meeting.exchange keyShown .transparent (.replicate 57 9) = .ok ends ∧ d.message.inner = [0xA0] ∧
    ((Opener.deliver .transparent).outputs (ends.opener .request) ([d, d].map Delivery.arrival))[1]? =
      some (.error (.sealed (.replayed d.message.nonce.toNat))) := by
  obtain ⟨ends, hends⟩ : ∃ ends, meeting.exchange keyShown .transparent (.replicate 57 9) = .ok ends := by
    obtain ⟨keys, slot, hends, -⟩ := (meeting_honest (.replicate 57 9)).meets
    exact ⟨_, hends⟩
  have hsent := asking_sent
  rw [hends] at hsent
  obtain ⟨m, hm, hvalues⟩ := List.map_eq_singleton_iff.mp (Option.some.inj hsent)
  obtain ⟨hinner, hnonce⟩ := Prod.mk.inj hvalues
  have hreaches : Reaches .request (Sealed.Session.sent .transparent .request ends.sealers [asking])
      [⟨m, List.replicate 8 0⟩, ⟨m, List.replicate 8 0⟩] := by
    refine ⟨?_, ?_, ?_⟩
    · intro d hd
      obtain rfl : d = ⟨m, List.replicate 8 0⟩ := by simpa using hd
      rw [hm]
      exact List.mem_singleton_self m
    · intro d hd
      obtain rfl : d = ⟨m, List.replicate 8 0⟩ := by simpa using hd
      rw [hinner]
      change 1 ≤ (List.replicate 8 (0 : UInt8)).length
      decide
    · intro k d hd e he
      obtain rfl : d = ⟨m, List.replicate 8 0⟩ := by simpa using List.mem_of_getElem? hd
      obtain rfl : e = ⟨m, List.replicate 8 0⟩ := by simpa using List.mem_of_mem_take he
      exact Nat.lt_add_of_pos_right (by decide)
  have honce := Ends.traffic_once (meeting_honest (.replicate 57 9)) hends .request (Aead.transparent_sound _) [asking]
    (by decide) _ hreaches 1 _ rfl
  exact ⟨_, ⟨m, List.replicate 8 0⟩, hends, hinner, honce.2 ⟨_, List.mem_cons_self, rfl⟩⟩

end Km43.Hello
