import Km43.Handshake.Prologue
import Km43.Invite.Binding
import Km43.Library.Lists
import Km43.Pairing.Answer
import Km43.Vouch.Statement

namespace Km43.Mac

open Library Identity Handshake Pairing Invite Vouch

abbrev RefusalKey := Key32

def refusalInput (key : RefusalKey) (h1 : Key32) (outcome : Pair) : Preimage :=
  ((Preimage.under key .pairRefused).bytes h1.toList).bytes [outcome.byte]

def admitInput (key : AdmitKey) (prologue : Prologue) (handshake : Bytes) : Preimage :=
  ((Preimage.under key .helloAdmit).bytes prologue.toList).bytes handshake

def refusal (c : Primitives) (key : RefusalKey) (h1 : Key32) (outcome : Pair) : Tag := (refusalInput key h1 outcome).tag c

def helloAdmit (c : Primitives) (key : AdmitKey) (prologue : Prologue) (handshake : Bytes) : Tag :=
  (admitInput key prologue handshake).tag c

inductive Purpose
  | refusal (h1 : Key32) (outcome : Pair)
  | helloAdmit (prologue : Prologue) (handshake : Bytes)
  | inviteProof (transcript : Bytes)
  | inviteConfirm (transcript : Bytes) (clientId : ClientId) (generation : Generation)
  | vouch (statement : VouchStatement)

namespace Purpose

def domain : Purpose → Domain
  | refusal .. => .pairRefused
  | helloAdmit .. => .helloAdmit
  | inviteProof _ => .inviteProof
  | inviteConfirm .. => .inviteConfirm
  | vouch _ => .vouch

def input (key : Key32) : Purpose → Preimage
  | refusal h1 outcome => refusalInput key h1 outcome
  | helloAdmit prologue handshake => admitInput key prologue handshake
  | inviteProof transcript => proofInput key transcript
  | inviteConfirm transcript clientId generation => confirmInput key transcript clientId generation
  | vouch statement => vouchInput key statement

def tag (c : Primitives) (key : Key32) : Purpose → Tag
  | refusal h1 outcome => Mac.refusal c key h1 outcome
  | helloAdmit prologue handshake => Mac.helloAdmit c key prologue handshake
  | inviteProof transcript => Invite.inviteProof c key transcript
  | inviteConfirm transcript clientId generation => Invite.inviteConfirm c key transcript clientId generation
  | vouch statement => vouchTag c key statement

def fields : Purpose → Bytes
  | refusal h1 outcome => h1.toList ++ [outcome.byte]
  | helloAdmit prologue handshake => prologue.toList ++ handshake
  | inviteProof transcript => transcript
  | inviteConfirm transcript clientId generation => transcript ++ (u32Bytes clientId.get ++ u32Bytes generation.get)
  | vouch s => s.deviceId.toList ++ (u32Bytes s.epoch.get ++ (u32Bytes s.clientId.get ++ (u32Bytes s.generation.get ++
      (s.nonce.toList ++ s.binding.toList))))

end Purpose

def label (domain : Domain) : Bytes := ascii domain.text

theorem labels_prefixFree : PrefixFree label := by
  intro i j h
  have hno : ∀ i j : Domain, i ≠ j → ¬label i <+: label j := by
    intro i j
    cases i <;> cases j <;> decide
  by_contra hij
  exact hno i j hij h

namespace Purpose

variable {key key' : Key32} {p q : Purpose}

theorem input_message (key : Key32) (p : Purpose) : (p.input key).message = label p.domain ++ p.fields := by
  cases p <;> simp only [input, refusalInput, admitInput, proofInput, confirmInput, vouchInput, Preimage.bytes,
    Preimage.under, label, domain, fields, List.append_assoc]

theorem pair_byte_inj {a b : Pair} (h : a.byte = b.byte) : a = b := by
  cases a <;> cases b <;> first | rfl | cases h

theorem fields_inj (hdomain : p.domain = q.domain) (h : p.fields = q.fields) : p = q := by
  cases p with
  | refusal h1 outcome =>
    cases q with
    | refusal h1' outcome' =>
      obtain ⟨hhash, hcode⟩ := List.append_inj h (by simp)
      rw [Vector.toList_inj.mp hhash, pair_byte_inj (List.cons.inj hcode).1]
    | helloAdmit | inviteProof | inviteConfirm | vouch => cases hdomain
  | helloAdmit prologue handshake =>
    cases q with
    | helloAdmit prologue' handshake' =>
      obtain ⟨hprologue, hrest⟩ := List.append_inj h (by simp)
      rw [Vector.toList_inj.mp hprologue, hrest]
    | refusal | inviteProof | inviteConfirm | vouch => cases hdomain
  | inviteProof transcript =>
    cases q with
    | inviteProof transcript' => exact congrArg inviteProof h
    | refusal | helloAdmit | inviteConfirm | vouch => cases hdomain
  | inviteConfirm transcript clientId generation =>
    cases q with
    | inviteConfirm transcript' clientId' generation' =>
      -- the transcript may have any length, what follows it has one
      obtain ⟨htranscript, hslot⟩ := List.append_inj' h (by simp [u32Bytes_length])
      obtain ⟨hclient, hgeneration⟩ := List.append_inj hslot (by simp [u32Bytes_length])
      rw [htranscript, NonZeroU32.ext (u32Bytes_inj hclient), NonZeroU32.ext (u32Bytes_inj hgeneration)]
    | refusal | helloAdmit | inviteProof | vouch => cases hdomain
  | vouch s =>
    cases q with
    | vouch s' =>
      obtain ⟨hdevice, h⟩ := List.append_inj h (by simp)
      obtain ⟨hepoch, h⟩ := List.append_inj h (by simp [u32Bytes_length])
      obtain ⟨hclient, h⟩ := List.append_inj h (by simp [u32Bytes_length])
      obtain ⟨hgeneration, h⟩ := List.append_inj h (by simp [u32Bytes_length])
      obtain ⟨hnonce, hbinding⟩ := List.append_inj h (by simp)
      obtain ⟨deviceId, epoch, clientId, generation, nonce, binding⟩ := s
      obtain ⟨deviceId', epoch', clientId', generation', nonce', binding'⟩ := s'
      have hepoch' : epoch = epoch' := NonZeroU32.ext (u32Bytes_inj hepoch)
      have hclient' : clientId = clientId' := NonZeroU32.ext (u32Bytes_inj hclient)
      have hgeneration' : generation = generation' := NonZeroU32.ext (u32Bytes_inj hgeneration)
      simp only [Vector.toList_inj] at hdevice hnonce hbinding
      rw [hdevice, hepoch', hclient', hgeneration', hnonce, hbinding]
    | refusal | helloAdmit | inviteProof | inviteConfirm => cases hdomain

theorem message_inj (h : (p.input key).message = (q.input key').message) : p = q := by
  rw [input_message, input_message] at h
  obtain ⟨hdomain, hfields⟩ := labels_prefixFree.split h
  exact fields_inj hdomain hfields

theorem label_starts {domain : Domain} (h : label domain <+: (p.input key).message) : domain = p.domain := by
  rw [input_message] at h
  exact labels_prefixFree.starts h

theorem tag_input (c : Primitives) (key : Key32) (p : Purpose) : p.tag c key = (p.input key).tag c := by cases p <;> rfl

theorem tag_apart {c : Primitives} (hdomain : p.domain ≠ q.domain)
    (hapart : Preimage.Apart c (p.input key) (q.input key)) :
    (p.tag c key).verify (q.tag c key).toList = .error .mismatch := by
  rw [Tag.verify, if_neg (by simp), if_neg]
  intro hsame
  have htag : p.tag c key = q.tag c key := Vector.toList_inj.mp hsame
  rw [tag_input, tag_input] at htag
  have hinput : p.input key = q.input key := hapart htag
  have hpq : p = q := message_inj (congrArg Preimage.message hinput)
  exact hdomain (congrArg domain hpq)

end Purpose

/-- A preimage names its domain and every argument; no purpose's tag passes for another's; a prologue names its fields. -/
theorem preimages_unambiguous :
    (∀ (key key' : Key32) (p q : Purpose), (p.input key).message = (q.input key').message → p = q) ∧
    (∀ (key : Key32) (p : Purpose) (domain : Domain), domain ≠ p.domain → ¬label domain <+: (p.input key).message) ∧
    (∀ (c : Primitives) (key : AdmitKey) (p q : Purpose), p.domain ≠ q.domain →
      Preimage.Apart c (p.input key) (q.input key) → (p.tag c key).verify (q.tag c key).toList = .error .mismatch) ∧
    ∀ f g : PrologueFields, Prologue.new f = Prologue.new g → f = g :=
  ⟨fun _ _ _ _ => Purpose.message_inj, fun _ _ _ hdomain h => hdomain (Purpose.label_starts h),
    fun _ _ _ _ => Purpose.tag_apart, fun _ _ => PrologueFields.new_inj⟩

def spoken : Primitives := { bare with hmac := fun _ message => fill 32 (message.drop 8) }

theorem admission_no_proof : ((Purpose.inviteProof [1]).tag spoken (.replicate 32 5)).verify
    ((Purpose.helloAdmit (.replicate 57 2) [1]).tag spoken (.replicate 32 5)).toList = .error .mismatch := by
  have hapart : Preimage.Apart spoken ((Purpose.inviteProof [1]).input (.replicate 32 5))
      ((Purpose.helloAdmit (.replicate 57 2) [1]).input (.replicate 32 5)) := by
    intro hsame
    have htags : fill 16 (fill 32 ((ascii Domain.inviteProof.text ++ [1]).drop 8)).toList =
        fill 16 (fill 32 ((ascii Domain.helloAdmit.text ++ (Vector.replicate 57 (2 : UInt8)).toList ++ [1]).drop 8)).toList :=
      hsame
    exact absurd htags (by decide)
  exact preimages_unambiguous.2.2.1 spoken _ _ _ (by decide) hapart

end Km43.Mac
