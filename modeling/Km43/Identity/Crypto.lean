import Km43.Library.BigEndian
import Km43.Limits

namespace Km43.Identity

structure NonZeroU32 where
  get : UInt32
  nonzero : get ≠ 0

namespace NonZeroU32

theorem ext {a b : NonZeroU32} (h : a.get = b.get) : a = b := by
  cases a
  cases b
  cases h
  rfl

instance : DecidableEq NonZeroU32 := fun a b => decidable_of_iff (a.get = b.get) ⟨ext, congrArg get⟩

def new (raw : UInt32) : Option NonZeroU32 :=
  if h : raw ≠ 0 then some ⟨raw, h⟩ else none

theorem new_get (a : NonZeroU32) : new a.get = some a := dif_pos a.nonzero

end NonZeroU32

abbrev Epoch := NonZeroU32

abbrev ClientId := NonZeroU32

abbrev Generation := NonZeroU32

abbrev DeviceId := Vector UInt8 16
abbrev PublicKey := Vector UInt8 32

def PublicKey.matches (key other : PublicKey) : Bool := decide (key = other)

structure Version where
  major : UInt8
  minor : UInt8
  deriving DecidableEq

inductive Role
  | owner
  | admin
  | viewer
  deriving DecidableEq

def Role.byte : Role → UInt8
  | owner => 1
  | admin => 2
  | viewer => 3

open Library

abbrev Key32 := Vector UInt8 32

structure Primitives where
  sha256 : Bytes → Key32
  hmac : Vector UInt8 64 → Bytes → Key32
  extract : Bytes → Bytes → Key32
  publicKey : Key32 → PublicKey
  diffieHellman : Key32 → PublicKey → Key32

def Primitives.Commutes (c : Primitives) : Prop :=
  ∀ a b, c.diffieHellman a (c.publicKey b) = c.diffieHellman b (c.publicKey a)

def ascii (text : String) : Bytes := text.toUTF8.data.toList

def u32Bytes (n : UInt32) : Bytes := BigEndian.digits 4 n.toNat

inductive Suite
  | x25519ChachapolySha256
  deriving DecidableEq

def Suite.byte : Suite → UInt8
  | x25519ChachapolySha256 => 1

inductive NoiseError
  | truncated
  | decrypt
  | lowOrderPoint
  | nonceExhausted
  | destinationTooSmall
  deriving DecidableEq

inductive MacError
  | wrongWidth (length : ℕ)
  | mismatch
  deriving DecidableEq

abbrev Tag := Vector UInt8 16

def Tag.verify (tag : Tag) (candidate : Bytes) : Except MacError Unit :=
  if candidate.length ≠ 16 then .error (.wrongWidth candidate.length)
  else if tag.toList = candidate then .ok ()
  else .error .mismatch

inductive Domain
  | pairRefused
  | helloAdmit
  | vouch
  | inviteProof
  | inviteConfirm
  deriving DecidableEq

def Domain.text : Domain → String
  | pairRefused => "km43/v1/pair-refused"
  | helloAdmit => "km43/v1/hello-admit"
  | vouch => "km43/v1/vouch"
  | inviteProof => "km43/v1/invite-proof"
  | inviteConfirm => "km43/v1/invite-confirm"

structure Preimage where
  key : Key32
  message : Bytes
  deriving DecidableEq

namespace Preimage

def under (key : Key32) (domain : Domain) : Preimage := ⟨key, ascii domain.text⟩

def bytes (p : Preimage) (value : Bytes) : Preimage := { p with message := p.message ++ value }

def tag (c : Primitives) (p : Preimage) : Tag := fill 16 (c.hmac (fill 64 p.key.toList) p.message).toList

def Apart (c : Primitives) (p q : Preimage) : Prop := p.tag c = q.tag c → p = q

end Preimage

inductive Derivation
  | pairPsk
  | pairRefusal
  | admitKey
  | vouchKey
  deriving DecidableEq

def Derivation.text : Derivation → String
  | pairPsk => "km43/v1/pair-psk"
  | pairRefusal => "km43/v1/pair-refusal"
  | admitKey => "km43/v1/admit-key"
  | vouchKey => "km43/v1/vouch-key"

def Primitives.derive (c : Primitives) (salt ikm : Bytes) (derivation : Derivation) : Key32 :=
  c.extract (c.extract salt ikm).toList (ascii derivation.text ++ [1])

abbrev AdmitKey := Key32
abbrev VouchKey := Key32

structure StaticKey where
  secret : Key32

namespace StaticKey

variable (c : Primitives)

def pub (key : StaticKey) : PublicKey := c.publicKey key.secret

def agree (key : StaticKey) (theirs : PublicKey) : Except NoiseError Key32 :=
  if c.diffieHellman key.secret theirs ≠ .replicate 32 0 then .ok (c.diffieHellman key.secret theirs)
  else .error .lowOrderPoint

def admitKey (key : StaticKey) (deviceId : DeviceId) (peer : PublicKey) : Except NoiseError AdmitKey := do
  let shared ← key.agree c peer
  .ok (c.derive deviceId.toList shared.toList .admitKey)

def vouchKey (key : StaticKey) (deviceId : DeviceId) (peer : PublicKey) : Except NoiseError VouchKey := do
  let shared ← key.agree c peer
  .ok (c.derive deviceId.toList shared.toList .vouchKey)

end StaticKey

def fingerprint (c : Primitives) (controller : PublicKey) : Vector UInt8 16 :=
  fill 16 (c.sha256 (ascii "km43/v1/controller-fp" ++ controller.toList)).toList

def vouchesFor (c : Primitives) (printed : Vector UInt8 16) (controller : PublicKey) : Bool :=
  decide (printed = fingerprint c controller)

theorem Tag.verify_self (tag : Tag) : tag.verify tag.toList = .ok () := by
  rw [verify, if_neg (by simp), if_pos rfl]

theorem Tag.verify_ok {tag : Tag} {candidate : Bytes} : tag.verify candidate = .ok () ↔ tag.toList = candidate := by
  constructor
  · intro h
    unfold verify at h
    split_ifs at h with hlen hsame
    exact hsame
  · rintro rfl
    exact tag.verify_self

theorem StaticKey.agree_same {c : Primitives} (hc : c.Commutes) (a b : StaticKey) :
    a.agree c (b.pub c) = b.agree c (a.pub c) := by
  rw [agree, agree, pub, pub, hc a.secret b.secret]

theorem u32Bytes_length (n : UInt32) : (u32Bytes n).length = 4 := BigEndian.digits_length 4 _

theorem u32Bytes_inj {m n : UInt32} (h : u32Bytes m = u32Bytes n) : m = n :=
  UInt32.toNat_inj.mp (BigEndian.digits_inj m.toNat_lt n.toNat_lt h)

end Km43.Identity
