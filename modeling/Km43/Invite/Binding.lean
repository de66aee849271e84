import Km43.Library.Fallible
import Km43.Identity.Stored

namespace Km43.Invite

open Library Identity

abbrev InviteNonce := Vector UInt8 16
abbrev Reveal := Vector UInt8 16
abbrev Commitment := Key32

def proofInput (admitKey : AdmitKey) (transcript : Bytes) : Preimage :=
  (Preimage.under admitKey .inviteProof).bytes transcript

def confirmInput (admitKey : AdmitKey) (transcript : Bytes) (clientId : ClientId) (generation : Generation) : Preimage :=
  (((Preimage.under admitKey .inviteConfirm).bytes transcript).bytes (u32Bytes clientId.get)).bytes
    (u32Bytes generation.get)

def inviteProof (c : Primitives) (admitKey : AdmitKey) (transcript : Bytes) : Tag := (proofInput admitKey transcript).tag c

def inviteConfirm (c : Primitives) (admitKey : AdmitKey) (transcript : Bytes) (clientId : ClientId)
    (generation : Generation) : Tag := (confirmInput admitKey transcript clientId generation).tag c

def Commitment.of (c : Primitives) (invitee : PublicKey) (reveal : Reveal) : Commitment :=
  c.sha256 (ascii "km43/v1/invite-commit" ++ invitee.toList ++ reveal.toList)

def Commitment.opens (c : Primitives) (commitment : Commitment) (invitee : PublicKey) (reveal : Reveal) : Bool :=
  decide (commitment = Commitment.of c invitee reveal)

inductive InviteError
  | commitmentDoesNotOpen
  | notThisController
  | agreement (why : NoiseError)
  | tag (why : MacError)
  deriving DecidableEq

structure Invitation where
  deviceId : DeviceId
  controller : PublicKey
  epoch : Epoch
  suite : Suite
  role : Role
  inviter : ClientId
  inviterGeneration : Generation
  invitee : PublicKey
  nonce : InviteNonce
  reveal : Reveal
  deriving DecidableEq

namespace Invitation

def parts (i : Invitation) : List Bytes :=
  [i.deviceId.toList, i.controller.toList, u32Bytes i.epoch.get, [i.suite.byte], [i.role.byte],
    u32Bytes i.inviter.get, u32Bytes i.inviterGeneration.get, i.invitee.toList, i.nonce.toList, i.reveal.toList]

def transcript (i : Invitation) : Vector UInt8 126 := fill 126 i.parts.flatten

def sas (c : Primitives) (i : Invitation) : ℕ :=
  BigEndian.value ((c.sha256 (ascii "km43/v1/invite-sas" ++ i.transcript.toList)).toList.take 4) % 1000000

def proof (c : Primitives) (i : Invitation) (admitKey : AdmitKey) : Tag := inviteProof c admitKey i.transcript.toList

end Invitation

structure InviteDetails where
  deviceId : DeviceId
  controller : PublicKey
  epoch : Epoch
  suite : Suite
  role : Role
  inviter : ClientId
  inviterGeneration : Generation
  nonce : InviteNonce
  deriving DecidableEq

def InviteDetails.invitation (details : InviteDetails) (invitee : PublicKey) (reveal : Reveal) : Invitation where
  deviceId := details.deviceId
  controller := details.controller
  epoch := details.epoch
  suite := details.suite
  role := details.role
  inviter := details.inviter
  inviterGeneration := details.inviterGeneration
  invitee := invitee
  nonce := details.nonce
  reveal := reveal

structure InviteeStart where
  key : StaticKey
  reveal : Reveal

structure Invitee where
  key : StaticKey
  invitation : Invitation
  admitKey : AdmitKey

namespace InviteeStart

variable (c : Primitives)

def new (entropy : Key32) (nonce : Reveal) : InviteeStart := ⟨⟨entropy⟩, nonce⟩

def pub (start : InviteeStart) : PublicKey := start.key.pub c

def commitment (start : InviteeStart) : Commitment := Commitment.of c (start.key.pub c) start.reveal

def receive (start : InviteeStart) (details : InviteDetails) : Except InviteError Invitee := do
  let admitKey ← (start.key.admitKey c details.deviceId details.controller).mapError .agreement
  .ok ⟨start.key, details.invitation (start.key.pub c) start.reveal, admitKey⟩

end InviteeStart

structure Matched where
  invitee : Invitee

namespace Invitee

variable (c : Primitives)

def reveal (invitee : Invitee) : Reveal := invitee.invitation.reveal

def proof (invitee : Invitee) : Tag := invitee.invitation.proof c invitee.admitKey

def sas (invitee : Invitee) : ℕ := invitee.invitation.sas c

def digitsMatched (invitee : Invitee) : Matched := ⟨invitee⟩

end Invitee

def Matched.keep (c : Primitives) (matched : Matched) (confirm : Bytes) (clientId : ClientId)
    (generation : Generation) : Except InviteError Enrolment := do
  let invitee := matched.invitee
  ((inviteConfirm c invitee.admitKey invitee.invitation.transcript.toList clientId generation).verify confirm).mapError
    InviteError.tag
  .ok ((Enrolment.new invitee.invitation.deviceId invitee.invitation.controller invitee.key invitee.invitation.suite
    invitee.invitation.epoch).withSlot clientId generation)

structure Verified where
  transcript : Vector UInt8 126
  admitKey : AdmitKey

def Verified.confirm (c : Primitives) (verified : Verified) (clientId : ClientId) (generation : Generation) : Tag :=
  inviteConfirm c verified.admitKey verified.transcript.toList clientId generation

def Invitation.verify (c : Primitives) (i : Invitation) (commitment : Commitment) (proof : Bytes)
    (controller : StaticKey) : Except InviteError Verified := do
  if !commitment.opens c i.invitee i.reveal then .error InviteError.commitmentDoesNotOpen
  else if !(controller.pub c).matches i.controller then .error .notThisController
  else
    let admitKey ← (controller.admitKey c i.deviceId i.invitee).mapError .agreement
    ((i.proof c admitKey).verify proof).mapError InviteError.tag
    .ok ⟨i.transcript, admitKey⟩

variable {c : Primitives} {i j : Invitation} {start : InviteeStart} {details : InviteDetails} {invitee : Invitee}
  {controller : StaticKey}

theorem Invitation.parts_length (i : Invitation) :
    i.parts.map List.length = [16, 32, 4, 1, 1, 4, 4, 32, 16, 16] := by
  simp [parts, u32Bytes_length]

theorem Invitation.transcript_toList (i : Invitation) : i.transcript.toList = i.parts.flatten := by
  apply fill_toList
  rw [List.length_flatten, i.parts_length]
  rfl

theorem role_byte_inj {a b : Role} (h : a.byte = b.byte) : a = b := by
  cases a <;> cases b <;> first | rfl | cases h

theorem Invitation.transcript_inj (h : i.transcript = j.transcript) : i = j := by
  have hflat : i.parts.flatten = j.parts.flatten := by rw [← transcript_toList, h, transcript_toList]
  have hparts : i.parts = j.parts := by
    apply List.eq_iff_flatten_eq.mpr
    exact ⟨hflat, by rw [i.parts_length, j.parts_length]⟩
  simp only [parts, List.cons.injEq, Vector.toList_inj, and_true] at hparts
  obtain ⟨hdevice, hcontroller, hepoch, hsuite, hrole, hinviter, hgeneration, hinvitee, hnonce, hreveal⟩ := hparts
  cases i
  cases j
  simp only [mk.injEq]
  refine ⟨hdevice, hcontroller, NonZeroU32.ext (u32Bytes_inj hepoch), trivial, role_byte_inj hrole,
    NonZeroU32.ext (u32Bytes_inj hinviter), NonZeroU32.ext (u32Bytes_inj hgeneration), hinvitee, hnonce, hreveal⟩

theorem admitKey_ok {key : StaticKey} {peer : PublicKey} (h : c.diffieHellman key.secret peer ≠ .replicate 32 0)
    (deviceId : DeviceId) :
    key.admitKey c deviceId peer =
      .ok (c.derive deviceId.toList (c.diffieHellman key.secret peer).toList .admitKey) := by
  rw [StaticKey.admitKey, StaticKey.agree, if_pos h]
  rfl

theorem receive_ok (h : start.receive c details = .ok invitee) :
    start.key.admitKey c details.deviceId details.controller = .ok invitee.admitKey ∧
      invitee.key = start.key ∧ invitee.invitation = details.invitation (start.pub c) start.reveal := by
  obtain ⟨admitKey, hkeyed, h⟩ := bind_ok.mp h
  cases h
  exact ⟨mapError_ok.mp hkeyed, rfl, rfl⟩

theorem keep_ok (matched : Matched) (clientId : ClientId) (generation : Generation) {confirm : Bytes}
    (h : (inviteConfirm c matched.invitee.admitKey matched.invitee.invitation.transcript.toList clientId
      generation).toList = confirm) :
    matched.keep c confirm clientId generation = .ok ⟨matched.invitee.invitation.deviceId,
      matched.invitee.invitation.controller, matched.invitee.key, matched.invitee.invitation.suite,
      matched.invitee.invitation.epoch, some (clientId, generation)⟩ := by
  rw [Matched.keep, Tag.verify_ok.mpr h]
  rfl

theorem opens_of (c : Primitives) (key : PublicKey) (reveal : Reveal) :
    (Commitment.of c key reveal).opens c key reveal = true := decide_eq_true rfl

theorem verify_ok {commitment : Commitment} {proof : Bytes} {admitKey : AdmitKey}
    (hopens : commitment.opens c i.invitee i.reveal = true) (hown : i.controller = controller.pub c)
    (hkeyed : controller.admitKey c i.deviceId i.invitee = .ok admitKey) (hproof : (i.proof c admitKey).toList = proof) :
    i.verify c commitment proof controller = .ok ⟨i.transcript, admitKey⟩ := by
  have hmatches : (controller.pub c).matches i.controller = true := decide_eq_true hown.symm
  rw [Invitation.verify, hopens, hmatches, hkeyed]
  simp only [Bool.not_true, Bool.false_eq_true, if_false]
  show ((i.proof c admitKey).verify proof).mapError InviteError.tag >>= _ = _
  rw [Tag.verify_ok.mpr hproof]
  rfl

theorem verify_error {commitment : Commitment} {proof : Bytes}
    (hproof : ∀ admitKey, controller.admitKey c i.deviceId i.invitee = .ok admitKey → (i.proof c admitKey).toList ≠ proof)
    (hwidth : proof.length = 16) :
    ∃ why, i.verify c commitment proof controller = .error why ∧
      (i.controller = controller.pub c → c.diffieHellman controller.secret i.invitee ≠ .replicate 32 0 →
        why = .commitmentDoesNotOpen ∨ why = .tag .mismatch) := by
  unfold Invitation.verify
  cases hopens : commitment.opens c i.invitee i.reveal with
  | false => exact ⟨_, rfl, fun _ _ => .inl rfl⟩
  | true =>
    cases hmatches : (controller.pub c).matches i.controller with
    | false =>
      refine ⟨_, rfl, fun hown => ?_⟩
      rw [hown, PublicKey.matches, decide_eq_true rfl] at hmatches
      cases hmatches
    | true =>
      cases hkeyed : controller.admitKey c i.deviceId i.invitee with
      | error why =>
        refine ⟨_, rfl, fun _ hagree => ?_⟩
        rw [admitKey_ok hagree] at hkeyed
        cases hkeyed
      | ok admitKey =>
        have hmismatch : (i.proof c admitKey).verify proof = .error .mismatch := by
          rw [Tag.verify, if_neg (by simp [hwidth]), if_neg (hproof admitKey hkeyed)]
        refine ⟨.tag .mismatch, ?_, fun _ _ => .inr rfl⟩
        simp only [Bool.not_true, Bool.false_eq_true, if_false]
        show ((i.proof c admitKey).verify proof).mapError InviteError.tag >>= _ = _
        rw [hmismatch]
        rfl

theorem honest (hc : c.Commutes) (hown : details.controller = controller.pub c)
    (hagree : c.diffieHellman start.key.secret details.controller ≠ .replicate 32 0) :
    ∃ invitee verified, start.receive c details = .ok invitee ∧
      (details.invitation (start.pub c) invitee.reveal).sas c = invitee.sas c ∧
      (details.invitation (start.pub c) invitee.reveal).verify c (start.commitment c) (invitee.proof c).toList
        controller = .ok verified ∧
      ∀ clientId generation,
        invitee.digitsMatched.keep c (verified.confirm c clientId generation).toList clientId generation =
          .ok ⟨details.deviceId, controller.pub c, start.key, details.suite, details.epoch,
            some (clientId, generation)⟩ := by
  have hkeyed := admitKey_ok (c := c) hagree details.deviceId
  have hsame : c.diffieHellman controller.secret (start.pub c) =
      c.diffieHellman start.key.secret details.controller := by
    rw [hown]
    exact hc controller.secret start.key.secret
  have hkeyed' := @admitKey_ok c controller (start.pub c) (by rw [hsame]; exact hagree) details.deviceId
  rw [hsame, ← hkeyed] at hkeyed'
  refine ⟨⟨start.key, details.invitation (start.pub c) start.reveal, _⟩, _, ?_, rfl,
    verify_ok (opens_of c _ _) hown (hkeyed'.trans hkeyed) rfl, ?_⟩
  · rw [InviteeStart.receive, hkeyed]
    rfl
  · intro clientId generation
    rw [← hown]
    exact keep_ok _ clientId generation rfl

theorem proofInput_inj {admitKey admitKey' : AdmitKey}
    (h : proofInput admitKey i.transcript.toList = proofInput admitKey' j.transcript.toList) : i = j := by
  have hmessage := congrArg Preimage.message h
  apply Invitation.transcript_inj
  apply Vector.toList_inj.mp
  exact List.append_cancel_left hmessage

theorem confirmInput_inj {admitKey admitKey' : AdmitKey} {clientId clientId' : ClientId} {generation generation' : Generation}
    (h : confirmInput admitKey i.transcript.toList clientId generation =
      confirmInput admitKey' j.transcript.toList clientId' generation') :
    i = j ∧ clientId = clientId' ∧ generation = generation' := by
  have hmessage : ((ascii Domain.inviteConfirm.text ++ i.transcript.toList) ++ u32Bytes clientId.get) ++
      u32Bytes generation.get = ((ascii Domain.inviteConfirm.text ++ j.transcript.toList) ++ u32Bytes clientId'.get) ++
        u32Bytes generation'.get := congrArg Preimage.message h
  obtain ⟨hrest, hgeneration⟩ := List.append_inj' hmessage (by rw [u32Bytes_length, u32Bytes_length])
  obtain ⟨hrest, hclient⟩ := List.append_inj' hrest (by rw [u32Bytes_length, u32Bytes_length])
  refine ⟨?_, NonZeroU32.ext (u32Bytes_inj hclient), NonZeroU32.ext (u32Bytes_inj hgeneration)⟩
  apply Invitation.transcript_inj
  apply Vector.toList_inj.mp
  exact List.append_cancel_left hrest

theorem tampered_proof {mine : Invitation} (hother : mine ≠ invitee.invitation)
    (hapart : ∀ admitKey, controller.admitKey c mine.deviceId mine.invitee = .ok admitKey →
      Preimage.Apart c (proofInput admitKey mine.transcript.toList)
        (proofInput invitee.admitKey invitee.invitation.transcript.toList)) (commitment : Commitment) :
    ∃ why, mine.verify c commitment (invitee.proof c).toList controller = .error why ∧
      (mine.controller = controller.pub c → c.diffieHellman controller.secret mine.invitee ≠ .replicate 32 0 →
        why = .commitmentDoesNotOpen ∨ why = .tag .mismatch) := by
  apply verify_error _ (by simp)
  intro admitKey hkeyed hsame
  exact hother (proofInput_inj (hapart admitKey hkeyed (Vector.toList_inj.mp hsame)))

theorem tampered_confirm {mine : Invitation} {admitKey : AdmitKey} {clientId clientId' : ClientId}
    {generation generation' : Generation}
    (hother : mine ≠ invitee.invitation ∨ clientId ≠ clientId' ∨ generation ≠ generation')
    (hapart : Preimage.Apart c (confirmInput invitee.admitKey invitee.invitation.transcript.toList clientId' generation')
      (confirmInput admitKey mine.transcript.toList clientId generation)) :
    invitee.digitsMatched.keep c ((Verified.mk mine.transcript admitKey).confirm c clientId generation).toList clientId'
      generation' = .error (.tag .mismatch) := by
  have hmismatch : (inviteConfirm c invitee.admitKey invitee.invitation.transcript.toList clientId' generation').verify
      ((Verified.mk mine.transcript admitKey).confirm c clientId generation).toList = .error .mismatch := by
    rw [Tag.verify, if_neg (by simp), if_neg]
    intro hsame
    obtain ⟨hi, hc', hg⟩ := confirmInput_inj (hapart (Vector.toList_inj.mp hsame))
    rcases hother with h | h | h
    · exact h hi.symm
    · exact h hc'.symm
    · exact h hg.symm
  rw [Matched.keep]
  show ((inviteConfirm c invitee.admitKey invitee.invitation.transcript.toList clientId' generation').verify _).mapError
    InviteError.tag >>= _ = _
  rw [hmismatch]
  rfl

/-- An invite relayed as it is ends in an enrolment; one changed on the way ends in a refusal on each side. -/
theorem invite_binds (hc : c.Commutes) :
    (∀ (start : InviteeStart) (controller : StaticKey) (details : InviteDetails), details.controller = controller.pub c →
      c.diffieHellman start.key.secret details.controller ≠ .replicate 32 0 →
      ∃ invitee verified, start.receive c details = .ok invitee ∧
        (details.invitation (start.pub c) invitee.reveal).sas c = invitee.sas c ∧
        (details.invitation (start.pub c) invitee.reveal).verify c (start.commitment c) (invitee.proof c).toList
          controller = .ok verified ∧
        ∀ clientId generation,
          invitee.digitsMatched.keep c (verified.confirm c clientId generation).toList clientId generation =
            .ok ⟨details.deviceId, controller.pub c, start.key, details.suite, details.epoch,
              some (clientId, generation)⟩) ∧
    (∀ (start : InviteeStart) (details : InviteDetails) (invitee : Invitee) (mine : Invitation) (controller : StaticKey)
      (commitment : Commitment), start.receive c details = .ok invitee → mine ≠ invitee.invitation →
      (∀ admitKey, controller.admitKey c mine.deviceId mine.invitee = .ok admitKey →
        Preimage.Apart c (proofInput admitKey mine.transcript.toList)
          (proofInput invitee.admitKey invitee.invitation.transcript.toList)) →
      ∃ why, mine.verify c commitment (invitee.proof c).toList controller = .error why ∧
        (mine.controller = controller.pub c → c.diffieHellman controller.secret mine.invitee ≠ .replicate 32 0 →
          why = .commitmentDoesNotOpen ∨ why = .tag .mismatch)) ∧
    (∀ (start : InviteeStart) (details : InviteDetails) (invitee : Invitee) (mine : Invitation) (admitKey : AdmitKey)
      (clientId clientId' : ClientId) (generation generation' : Generation), start.receive c details = .ok invitee →
      mine ≠ invitee.invitation ∨ clientId ≠ clientId' ∨ generation ≠ generation' →
      Preimage.Apart c (confirmInput invitee.admitKey invitee.invitation.transcript.toList clientId' generation')
        (confirmInput admitKey mine.transcript.toList clientId generation) →
      invitee.digitsMatched.keep c ((Verified.mk mine.transcript admitKey).confirm c clientId generation).toList clientId'
        generation' = .error (.tag .mismatch)) ∧
    ∀ i j : Invitation, i.transcript = j.transcript → i = j := by
  refine ⟨?_, ?_, ?_, fun i j h => Invitation.transcript_inj h⟩
  · intro start controller details hown hagree
    exact honest hc hown hagree
  · intro start details invitee mine controller commitment _ hother hapart
    exact tampered_proof hother hapart commitment
  · intro start details invitee mine admitKey clientId clientId' generation generation' _ hother hapart
    exact tampered_confirm hother hapart

/-- Primitives that hide nothing: the MAC is the message from the role of a proof's transcript on. -/
def bare : Primitives where
  sha256 bytes := fill 32 bytes
  hmac _ message := fill 32 (message.drop 73)
  extract _ _ := .replicate 32 5
  publicKey secret := secret
  diffieHellman _ _ := .replicate 32 1

def relayed : InviteDetails where
  deviceId := .replicate 16 2
  controller := .replicate 32 3
  epoch := ⟨1, by decide⟩
  suite := .x25519ChachapolySha256
  role := .viewer
  inviter := ⟨1, by decide⟩
  inviterGeneration := ⟨1, by decide⟩
  nonce := .replicate 16 4

def inviteeOfSix : InviteeStart := .new (.replicate 32 6) (.replicate 16 7)

def ownerHeld : Invitation := { relayed.invitation (.replicate 32 6) (.replicate 16 7) with role := .owner }

theorem invite_binds_role : ∃ invitee why, inviteeOfSix.receive bare relayed = .ok invitee ∧
    ownerHeld.verify bare (inviteeOfSix.commitment bare) (invitee.proof bare).toList ⟨.replicate 32 3⟩ = .error why := by
  have hc : bare.Commutes := fun a b => rfl
  have hagree : bare.diffieHellman inviteeOfSix.key.secret relayed.controller ≠ .replicate 32 0 := by decide
  obtain ⟨invitee, -, hreceive, -⟩ := (invite_binds hc).1 inviteeOfSix ⟨.replicate 32 3⟩ relayed rfl hagree
  have hinvitation := (receive_ok hreceive).2.2
  have hother : ownerHeld ≠ invitee.invitation := by
    intro hsame
    rw [hinvitation] at hsame
    cases congrArg Invitation.role hsame
  have hapart : ∀ admitKey, (⟨.replicate 32 3⟩ : StaticKey).admitKey bare ownerHeld.deviceId ownerHeld.invitee = .ok admitKey →
      Preimage.Apart bare (proofInput admitKey ownerHeld.transcript.toList)
        (proofInput invitee.admitKey invitee.invitation.transcript.toList) := by
    intro admitKey _ hsame
    rw [hinvitation] at hsame
    have htags : fill 16 (fill 32 ((ascii Domain.inviteProof.text ++ ownerHeld.transcript.toList).drop 73)).toList =
        fill 16 (fill 32 ((ascii Domain.inviteProof.text ++
          (relayed.invitation (.replicate 32 6) (.replicate 16 7)).transcript.toList).drop 73)).toList := hsame
    exact absurd htags (by decide)
  obtain ⟨why, hwhy, -⟩ := (invite_binds hc).2.1 inviteeOfSix relayed invitee ownerHeld ⟨.replicate 32 3⟩
    (inviteeOfSix.commitment bare) hreceive hother hapart
  exact ⟨invitee, why, hreceive, hwhy⟩

end Km43.Invite
