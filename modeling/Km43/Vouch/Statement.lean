import Km43.Cbor.Takes
import Km43.Cbor.Whole
import Km43.Identity.Crypto

namespace Km43.Vouch

open Library Identity Cbor CborReader

abbrev VouchNonce := Vector UInt8 16
abbrev AccountBinding := Vector UInt8 32

structure VouchStatement where
  deviceId : DeviceId
  epoch : Epoch
  clientId : ClientId
  generation : Generation
  nonce : VouchNonce
  binding : AccountBinding
  deriving DecidableEq

inductive VouchField
  | verifier
  | nonce
  | binding
  | outcome
  | epoch
  | clientId
  | generation
  | tag
  deriving DecidableEq

inductive VouchError
  | missing (field : VouchField)
  | duplicate (field : VouchField)
  | wrongWidth (field : VouchField)
  | zero (field : VouchField)
  | unknownOutcome (raw : UInt8)
  | outcomeDisagrees
  | cbor (why : CborError)
  deriving DecidableEq

instance : FromCbor VouchError := ⟨.cbor⟩

def fixed (n : ℕ) (field : VouchField) (bytes : Bytes) : Except VouchError (Vector UInt8 n) :=
  if bytes.length = n then .ok (fill n bytes) else .error (.wrongWidth field)

def required {α : Type} (slot : Option α) (field : VouchField) : Except VouchError α :=
  slotRequired (.missing field) slot

def nonZero (field : VouchField) (raw : UInt32) : Except VouchError NonZeroU32 :=
  match NonZeroU32.new raw with
  | some n => .ok n
  | none => .error (.zero field)

def fixedBytes (n : ℕ) (field : VouchField) : Read VouchError (Vector UInt8 n) := do
  let bytes ← ask bytesValue
  let bytes ← fixed n field bytes
  pure bytes

structure VouchRequest where
  verifier : PublicKey
  nonce : VouchNonce
  binding : AccountBinding
  deriving DecidableEq

structure RequestSlots where
  verifier : Option (Vector UInt8 32)
  nonce : Option (Vector UInt8 16)
  binding : Option (Vector UInt8 32)

namespace RequestSlots

def empty : RequestSlots := ⟨none, none, none⟩

def step : ℤ → RequestSlots → Read VouchError RequestSlots
  | 1, s => slotField (fixedBytes 32 .verifier) (.duplicate .verifier) s.verifier fun slot => { s with verifier := slot }
  | 2, s => slotField (fixedBytes 16 .nonce) (.duplicate .nonce) s.nonce fun slot => { s with nonce := slot }
  | 3, s => slotField (fixedBytes 32 .binding) (.duplicate .binding) s.binding fun slot => { s with binding := slot }
  | _, s => passOver s

def read : Read VouchError RequestSlots := do
  let pairs ← ask map
  pairLoop step pairs empty

def request (s : RequestSlots) : Except VouchError VouchRequest := do
  let verifier ← required s.verifier .verifier
  let nonce ← required s.nonce .nonce
  let binding ← required s.binding .binding
  .ok ⟨verifier, nonce, binding⟩

end RequestSlots

inductive Outcome
  | vouched
  | badVerifier
  deriving DecidableEq

namespace Outcome

def byte : Outcome → UInt8
  | vouched => 1
  | badVerifier => 2

def tryFrom (raw : UInt8) : Option Outcome :=
  if raw = 1 then some .vouched else if raw = 2 then some .badVerifier else none

end Outcome

inductive VouchAnswer
  | vouched (epoch : Epoch) (clientId : ClientId) (generation : Generation) (tag : Tag)
  | badVerifier
  deriving DecidableEq

structure AnswerSlots where
  outcome : Option UInt8
  epoch : Option UInt32
  clientId : Option UInt32
  generation : Option UInt32
  tag : Option (Vector UInt8 16)

namespace AnswerSlots

def empty : AnswerSlots := ⟨none, none, none, none, none⟩

def step : ℤ → AnswerSlots → Read VouchError AnswerSlots
  | 1, s => slotField (ask u8) (.duplicate .outcome) s.outcome fun slot => { s with outcome := slot }
  | 2, s => slotField (ask u32) (.duplicate .epoch) s.epoch fun slot => { s with epoch := slot }
  | 3, s => slotField (ask u32) (.duplicate .clientId) s.clientId fun slot => { s with clientId := slot }
  | 4, s => slotField (ask u32) (.duplicate .generation) s.generation fun slot => { s with generation := slot }
  | 5, s => slotField (fixedBytes 16 .tag) (.duplicate .tag) s.tag fun slot => { s with tag := slot }
  | _, s => passOver s

def read : Read VouchError AnswerSlots := do
  let pairs ← ask map
  pairLoop step pairs empty

def answer (s : AnswerSlots) : Except VouchError VouchAnswer := do
  let raw ← required s.outcome .outcome
  match Outcome.tryFrom raw with
  | none => .error (.unknownOutcome raw)
  | some .vouched =>
    match s.epoch, s.clientId, s.generation, s.tag with
    | some epoch, some clientId, some generation, some tag => do
      let epoch ← nonZero .epoch epoch
      let clientId ← nonZero .clientId clientId
      let generation ← nonZero .generation generation
      .ok (.vouched epoch clientId generation tag)
    | _, _, _, _ => .error .outcomeDisagrees
  | some .badVerifier =>
    if s.epoch.isSome || s.clientId.isSome || s.generation.isSome || s.tag.isSome then .error .outcomeDisagrees
    else .ok .badVerifier

end AnswerSlots

def vouchInput (key : VouchKey) (s : VouchStatement) : Preimage :=
  ((((((Preimage.under key .vouch).bytes s.deviceId.toList).bytes (u32Bytes s.epoch.get)).bytes
    (u32Bytes s.clientId.get)).bytes (u32Bytes s.generation.get)).bytes s.nonce.toList).bytes s.binding.toList

def vouchTag (c : Primitives) (key : VouchKey) (s : VouchStatement) : Tag := (vouchInput key s).tag c

namespace VouchRequest

def encodeInto (r : VouchRequest) : Encoder VouchError Unit := do
  tell (CborWriter.map 3)
  tell (CborWriter.key 1)
  tell (CborWriter.bytes r.verifier.toList)
  tell (CborWriter.key 2)
  tell (CborWriter.bytes r.nonce.toList)
  tell (CborWriter.key 3)
  tell (CborWriter.bytes r.binding.toList)

def encode (r : VouchRequest) (dst : ℕ) : Except VouchError Bytes := encodeBody r.encodeInto dst

def decode (payload : Bytes) : Except VouchError VouchRequest := do
  let slots ← decodeBody RequestSlots.read payload
  slots.request

def answer (c : Primitives) (r : VouchRequest) (controller : StaticKey) (deviceId : DeviceId) (epoch : Epoch)
    (bound : ClientId × Generation) : VouchAnswer :=
  match controller.vouchKey c deviceId r.verifier with
  | .error _ => .badVerifier
  | .ok key =>
    .vouched epoch bound.1 bound.2 (vouchTag c key ⟨deviceId, epoch, bound.1, bound.2, r.nonce, r.binding⟩)

end VouchRequest

namespace VouchAnswer

def encodeInto : VouchAnswer → Encoder VouchError Unit
  | vouched epoch clientId generation tag => do
    tell (CborWriter.map 5)
    tell (CborWriter.key 1)
    tell (CborWriter.u64 Outcome.vouched.byte.toNat)
    tell (CborWriter.key 2)
    tell (CborWriter.u64 epoch.get.toNat)
    tell (CborWriter.key 3)
    tell (CborWriter.u64 clientId.get.toNat)
    tell (CborWriter.key 4)
    tell (CborWriter.u64 generation.get.toNat)
    tell (CborWriter.key 5)
    tell (CborWriter.bytes tag.toList)
  | badVerifier => do
    tell (CborWriter.map 1)
    tell (CborWriter.key 1)
    tell (CborWriter.u64 Outcome.badVerifier.byte.toNat)

def encode (a : VouchAnswer) (dst : ℕ) : Except VouchError Bytes := encodeBody a.encodeInto dst

def decode (payload : Bytes) : Except VouchError VouchAnswer := do
  let slots ← decodeBody AnswerSlots.read payload
  slots.answer

end VouchAnswer

structure VouchIssue where
  deviceId : DeviceId
  epoch : Epoch
  nonce : VouchNonce
  binding : AccountBinding
  deriving DecidableEq

structure VouchClaim where
  controller : PublicKey
  clientId : ClientId
  generation : Generation
  tag : Tag
  deriving DecidableEq

inductive VouchRefusal
  | noRecord
  | wrongController
  | lowOrderController
  | tagMismatch
  deriving DecidableEq

structure Vouched where
  statement : VouchStatement
  deriving DecidableEq

namespace VouchIssue

def statement (issue : VouchIssue) (claim : VouchClaim) : VouchStatement :=
  ⟨issue.deviceId, issue.epoch, claim.clientId, claim.generation, issue.nonce, issue.binding⟩

def verify (c : Primitives) (issue : VouchIssue) (verifier : StaticKey) (record : Option (Vector UInt8 16))
    (claim : VouchClaim) : Except VouchRefusal Vouched :=
  match record with
  | none => .error .noRecord
  | some printed =>
    if !vouchesFor c printed claim.controller then .error .wrongController
    else
      match verifier.vouchKey c issue.deviceId claim.controller with
      | .error _ => .error .lowOrderController
      | .ok key =>
        match (vouchTag c key (issue.statement claim)).verify claim.tag.toList with
        | .error _ => .error .tagMismatch
        | .ok () => .ok ⟨issue.statement claim⟩

end VouchIssue

end Km43.Vouch
