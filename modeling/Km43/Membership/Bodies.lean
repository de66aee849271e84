import Km43.Cbor.Entries
import Km43.Invite.Binding

namespace Km43.Membership

open Library Identity Invite Cbor CborReader

inductive InviteKey
  | role
  | invitee
  | commitment
  | clientKind
  | label
  deriving DecidableEq

inductive InviteAckKey
  | outcome
  | nonce
  deriving DecidableEq

inductive ApproveKey
  | nonce
  | decision
  | reveal
  | proof
  deriving DecidableEq

inductive ApproveAckKey
  | outcome
  | clientId
  | generation
  | confirm
  deriving DecidableEq

inductive RemoveKey
  | clientId
  | generation
  deriving DecidableEq

inductive RemoveAckKey
  | outcome
  deriving DecidableEq

inductive MembershipKey
  | invite (key : InviteKey)
  | inviteAck (key : InviteAckKey)
  | approve (key : ApproveKey)
  | approveAck (key : ApproveAckKey)
  | remove (key : RemoveKey)
  | removeAckOutcome
  deriving DecidableEq

inductive MembershipError
  | missing (key : MembershipKey)
  | duplicate (key : MembershipKey)
  | unexpected (key : MembershipKey)
  | wrongLength (key : MembershipKey) (len : ℕ)
  | zero (key : MembershipKey)
  | unknownRole (raw : UInt8)
  | unknownClientKind (raw : UInt8)
  | unknownDecision (raw : UInt8)
  | unknownOutcome (raw : UInt8)
  | emptyLabel
  | labelTooLong (len : ℕ)
  | proposedWithoutNonce
  | enrolledWithoutSlot
  | cbor (why : CborError)
  deriving DecidableEq

instance : FromCbor MembershipError := ⟨.cbor⟩

namespace InviteKey

def of (number : ℤ) : Option InviteKey :=
  if number = 1 then some role else if number = 2 then some invitee else if number = 3 then some commitment
  else if number = 4 then some clientKind else if number = 5 then some label else none

def number : InviteKey → ℕ
  | role => 1
  | invitee => 2
  | commitment => 3
  | clientKind => 4
  | label => 5

theorem of_iff (n : ℤ) (k : InviteKey) : of n = some k ↔ n = k.number := by
  constructor
  · intro h
    unfold of at h
    split_ifs at h <;> cases h <;> assumption
  · rintro rfl
    cases k <;> rfl

theorem small (k : InviteKey) : k.number < 256 := by cases k <;> decide

end InviteKey

instance : BodyKey InviteKey := ⟨InviteKey.of, InviteKey.number, InviteKey.of_iff, InviteKey.small⟩

namespace InviteAckKey

def of (number : ℤ) : Option InviteAckKey :=
  if number = 1 then some outcome else if number = 2 then some nonce else none

def number : InviteAckKey → ℕ
  | outcome => 1
  | nonce => 2

theorem of_iff (n : ℤ) (k : InviteAckKey) : of n = some k ↔ n = k.number := by
  constructor
  · intro h
    unfold of at h
    split_ifs at h <;> cases h <;> assumption
  · rintro rfl
    cases k <;> rfl

theorem small (k : InviteAckKey) : k.number < 256 := by cases k <;> decide

end InviteAckKey

instance : BodyKey InviteAckKey := ⟨InviteAckKey.of, InviteAckKey.number, InviteAckKey.of_iff, InviteAckKey.small⟩

namespace ApproveKey

def of (number : ℤ) : Option ApproveKey :=
  if number = 1 then some nonce else if number = 2 then some decision else if number = 3 then some reveal
  else if number = 4 then some proof else none

def number : ApproveKey → ℕ
  | nonce => 1
  | decision => 2
  | reveal => 3
  | proof => 4

theorem of_iff (n : ℤ) (k : ApproveKey) : of n = some k ↔ n = k.number := by
  constructor
  · intro h
    unfold of at h
    split_ifs at h <;> cases h <;> assumption
  · rintro rfl
    cases k <;> rfl

theorem small (k : ApproveKey) : k.number < 256 := by cases k <;> decide

end ApproveKey

instance : BodyKey ApproveKey := ⟨ApproveKey.of, ApproveKey.number, ApproveKey.of_iff, ApproveKey.small⟩

namespace ApproveAckKey

def of (number : ℤ) : Option ApproveAckKey :=
  if number = 1 then some outcome else if number = 2 then some clientId else if number = 3 then some generation
  else if number = 4 then some confirm else none

def number : ApproveAckKey → ℕ
  | outcome => 1
  | clientId => 2
  | generation => 3
  | confirm => 4

theorem of_iff (n : ℤ) (k : ApproveAckKey) : of n = some k ↔ n = k.number := by
  constructor
  · intro h
    unfold of at h
    split_ifs at h <;> cases h <;> assumption
  · rintro rfl
    cases k <;> rfl

theorem small (k : ApproveAckKey) : k.number < 256 := by cases k <;> decide

end ApproveAckKey

instance : BodyKey ApproveAckKey :=
  ⟨ApproveAckKey.of, ApproveAckKey.number, ApproveAckKey.of_iff, ApproveAckKey.small⟩

namespace RemoveKey

def of (number : ℤ) : Option RemoveKey :=
  if number = 1 then some clientId else if number = 2 then some generation else none

def number : RemoveKey → ℕ
  | clientId => 1
  | generation => 2

theorem of_iff (n : ℤ) (k : RemoveKey) : of n = some k ↔ n = k.number := by
  constructor
  · intro h
    unfold of at h
    split_ifs at h <;> cases h <;> assumption
  · rintro rfl
    cases k <;> rfl

theorem small (k : RemoveKey) : k.number < 256 := by cases k <;> decide

end RemoveKey

instance : BodyKey RemoveKey := ⟨RemoveKey.of, RemoveKey.number, RemoveKey.of_iff, RemoveKey.small⟩

namespace RemoveAckKey

def of (number : ℤ) : Option RemoveAckKey := if number = 1 then some outcome else none

def number : RemoveAckKey → ℕ
  | outcome => 1

theorem of_iff (n : ℤ) (k : RemoveAckKey) : of n = some k ↔ n = k.number := by
  unfold of
  cases k
  split_ifs
  · simp_all [number]
  · simp_all [number]

theorem small (k : RemoveAckKey) : k.number < 256 := by cases k; decide

end RemoveAckKey

instance : BodyKey RemoveAckKey := ⟨RemoveAckKey.of, RemoveAckKey.number, RemoveAckKey.of_iff, RemoveAckKey.small⟩

def roleTryFrom (v : UInt8) : Option Role :=
  if v = 1 then some .owner else if v = 2 then some .admin else if v = 3 then some .viewer else none

inductive ClientKind
  | app
  | browser
  | cloud
  | cli
  deriving DecidableEq

def ClientKind.byte : ClientKind → UInt8
  | app => 1
  | browser => 2
  | cloud => 3
  | cli => 4

def ClientKind.tryFrom (v : UInt8) : Option ClientKind :=
  if v = 1 then some app else if v = 2 then some browser else if v = 3 then some cloud
  else if v = 4 then some cli else none

inductive InviteOutcome
  | proposed
  | unauthorised
  | invitesFull
  | knownKey
  | tableFull
  | noBudget
  deriving DecidableEq

def InviteOutcome.byte : InviteOutcome → UInt8
  | proposed => 1
  | unauthorised => 2
  | invitesFull => 3
  | knownKey => 4
  | tableFull => 5
  | noBudget => 6

def InviteOutcome.tryFrom (v : UInt8) : Option InviteOutcome :=
  if v = 1 then some proposed else if v = 2 then some unauthorised else if v = 3 then some invitesFull
  else if v = 4 then some knownKey else if v = 5 then some tableFull else if v = 6 then some noBudget else none

inductive InviteDecision
  | approve
  | decline
  deriving DecidableEq

def InviteDecision.byte : InviteDecision → UInt8
  | approve => 1
  | decline => 2

def InviteDecision.tryFrom (v : UInt8) : Option InviteDecision :=
  if v = 1 then some approve else if v = 2 then some decline else none

inductive ApproveOutcome
  | enrolled
  | declined
  | unauthorised
  | unknownInvite
  | inviterGone
  | refused
  | knownKey
  | tableFull
  | notStored
  deriving DecidableEq

def ApproveOutcome.byte : ApproveOutcome → UInt8
  | enrolled => 1
  | declined => 2
  | unauthorised => 3
  | unknownInvite => 4
  | inviterGone => 5
  | refused => 6
  | knownKey => 7
  | tableFull => 8
  | notStored => 9

def ApproveOutcome.tryFrom (v : UInt8) : Option ApproveOutcome :=
  if v = 1 then some enrolled else if v = 2 then some declined else if v = 3 then some unauthorised
  else if v = 4 then some unknownInvite else if v = 5 then some inviterGone else if v = 6 then some refused
  else if v = 7 then some knownKey else if v = 8 then some tableFull else if v = 9 then some notStored else none

inductive RemoveOutcome
  | removed
  | gone
  | isProtected
  | unauthorised
  | notStored
  deriving DecidableEq

def RemoveOutcome.byte : RemoveOutcome → UInt8
  | removed => 1
  | gone => 2
  | isProtected => 3
  | unauthorised => 4
  | notStored => 5

def RemoveOutcome.tryFrom (v : UInt8) : Option RemoveOutcome :=
  if v = 1 then some removed else if v = 2 then some gone else if v = 3 then some isProtected
  else if v = 4 then some unauthorised else if v = 5 then some notStored else none

def unknown {α : Type} (tryFrom : UInt8 → Option α) (why : UInt8 → MembershipError) (raw : UInt8) :
    Except MembershipError α :=
  match tryFrom raw with
  | some value => .ok value
  | none => .error (why raw)

def fixed (n : ℕ) (key : MembershipKey) (bytes : Bytes) : Except MembershipError (Vector UInt8 n) :=
  if bytes.length = n then .ok (fill n bytes) else .error (.wrongLength key bytes.length)

def nonZero (key : MembershipKey) (raw : UInt32) : Except MembershipError NonZeroU32 :=
  match NonZeroU32.new raw with
  | some value => .ok value
  | none => .error (.zero key)

def labelFits (label : Str) : Except MembershipError Unit :=
  if label.raw.length = 0 then .error .emptyLabel
  else if label.raw.length > maxLabel then .error (.labelTooLong label.raw.length)
  else .ok ()

def fittingLabel (label : Str) : Except MembershipError Str := do
  labelFits label
  .ok label

structure InviteOperation where
  role : Role
  invitee : PublicKey
  commitment : Commitment
  clientKind : ClientKind
  label : Str

namespace InviteOperation

def Value : InviteKey → Type
  | .role => Role
  | .invitee => PublicKey
  | .commitment => Commitment
  | .clientKind => ClientKind
  | .label => Str

def table : Table MembershipError InviteKey where
  Value := Value
  read
    | .role => checkedRead (ask u8) (unknown roleTryFrom .unknownRole)
    | .invitee => checkedRead (ask bytesValue) (fixed 32 (.invite .invitee))
    | .commitment => checkedRead (ask bytesValue) (fixed 32 (.invite .commitment))
    | .clientKind => checkedRead (ask u8) (unknown ClientKind.tryFrom .unknownClientKind)
    | .label => checkedRead textValue fittingLabel
  twice key := .duplicate (.invite key)

def missing (key : InviteKey) : MembershipError := .missing (.invite key)

def ofSlots (s : table.Slots) : Except MembershipError InviteOperation := do
  let role ← slotRequired (missing .role) (s .role)
  let invitee ← slotRequired (missing .invitee) (s .invitee)
  let commitment ← slotRequired (missing .commitment) (s .commitment)
  let clientKind ← slotRequired (missing .clientKind) (s .clientKind)
  let label ← slotRequired (missing .label) (s .label)
  .ok ⟨role, invitee, commitment, clientKind, label⟩

def decode : Bytes → Except MembershipError InviteOperation := table.decode ofSlots

def entries (op : InviteOperation) : List (InviteKey × List Call) :=
  [(.role, [.u64 op.role.byte.toUInt64]), (.invitee, [.bytes op.invitee.toList]),
    (.commitment, [.bytes op.commitment.toList]), (.clientKind, [.u64 op.clientKind.byte.toUInt64]),
    (.label, [.text op.label])]

def encode (op : InviteOperation) (dst : ℕ) : Except MembershipError Bytes := do
  labelFits op.label
  encodeBody (writeBody 5 op.entries) dst

end InviteOperation

structure InviteAck where
  outcome : InviteOutcome
  nonce : Option InviteNonce
  paired : nonce.isSome = decide (outcome = .proposed)

namespace InviteAck

def proposed (nonce : InviteNonce) : InviteAck := ⟨.proposed, some nonce, rfl⟩

def refused (outcome : InviteOutcome) : Except MembershipError InviteAck :=
  if h : outcome = .proposed then .error .proposedWithoutNonce else .ok ⟨outcome, none, (decide_eq_false h).symm⟩

def Value : InviteAckKey → Type
  | .outcome => InviteOutcome
  | .nonce => InviteNonce

def table : Table MembershipError InviteAckKey where
  Value := Value
  read
    | .outcome => checkedRead (ask u8) (unknown InviteOutcome.tryFrom .unknownOutcome)
    | .nonce => checkedRead (ask bytesValue) (fixed 16 (.inviteAck .nonce))
  twice key := .duplicate (.inviteAck key)

def ofSlots (s : table.Slots) : Except MembershipError InviteAck := do
  let outcome : InviteOutcome ← slotRequired (.missing (.inviteAck .outcome)) (s .outcome)
  match outcome, s .nonce with
  | .proposed, some nonce => .ok (proposed nonce)
  | .proposed, none => .error .proposedWithoutNonce
  | _, some _ => .error (.unexpected (.inviteAck .nonce))
  | outcome, none => refused outcome

def decode : Bytes → Except MembershipError InviteAck := table.decode ofSlots

def entries (ack : InviteAck) : List (InviteAckKey × List Call) :=
  (.outcome, [.u64 ack.outcome.byte.toUInt64]) :: (ack.nonce.map fun nonce => (.nonce, [.bytes nonce.toList])).toList

def encode (ack : InviteAck) (dst : ℕ) : Except MembershipError Bytes :=
  encodeBody (writeBody (if ack.nonce.isSome then 2 else 1) ack.entries) dst

end InviteAck

inductive Decision
  | approve (reveal : Reveal) (proof : Tag)
  | decline
  deriving DecidableEq

structure ApproveOperation where
  nonce : InviteNonce
  decision : Decision
  deriving DecidableEq

namespace ApproveOperation

def Value : ApproveKey → Type
  | .nonce => InviteNonce
  | .decision => InviteDecision
  | .reveal => Reveal
  | .proof => Tag

def table : Table MembershipError ApproveKey where
  Value := Value
  read
    | .nonce => checkedRead (ask bytesValue) (fixed 16 (.approve .nonce))
    | .decision => checkedRead (ask u8) (unknown InviteDecision.tryFrom .unknownDecision)
    | .reveal => checkedRead (ask bytesValue) (fixed 16 (.approve .reveal))
    | .proof => checkedRead (ask bytesValue) (fixed 16 (.approve .proof))
  twice key := .duplicate (.approve key)

def decide (decision : InviteDecision) (reveal : Option Reveal) (proof : Option Tag) : Except MembershipError Decision :=
  match decision with
  | .approve => do
    let reveal ← slotRequired (.missing (.approve .reveal)) reveal
    let proof ← slotRequired (.missing (.approve .proof)) proof
    .ok (.approve reveal proof)
  | .decline =>
    if reveal.isSome then .error (.unexpected (.approve .reveal))
    else if proof.isSome then .error (.unexpected (.approve .proof))
    else .ok .decline

def ofSlots (s : table.Slots) : Except MembershipError ApproveOperation := do
  let nonce ← slotRequired (.missing (.approve .nonce)) (s .nonce)
  let decision ← slotRequired (.missing (.approve .decision)) (s .decision)
  let decision ← decide decision (s .reveal) (s .proof)
  .ok ⟨nonce, decision⟩

def decode : Bytes → Except MembershipError ApproveOperation := table.decode ofSlots

def entries (op : ApproveOperation) : List (ApproveKey × List Call) :=
  match op.decision with
  | .approve reveal proof =>
    [(.nonce, [.bytes op.nonce.toList]), (.decision, [.u64 InviteDecision.approve.byte.toUInt64]),
      (.reveal, [.bytes reveal.toList]), (.proof, [.bytes proof.toList])]
  | .decline => [(.nonce, [.bytes op.nonce.toList]), (.decision, [.u64 InviteDecision.decline.byte.toUInt64])]

def count (op : ApproveOperation) : UInt64 :=
  match op.decision with
  | .approve .. => 4
  | .decline => 2

def encode (op : ApproveOperation) (dst : ℕ) : Except MembershipError Bytes :=
  encodeBody (writeBody op.count op.entries) dst

end ApproveOperation

structure Enrolled where
  clientId : ClientId
  generation : Generation
  confirm : Tag
  deriving DecidableEq

structure ApproveAck where
  outcome : ApproveOutcome
  enrolled : Option Enrolled
  paired : enrolled.isSome = decide (outcome = .enrolled)

namespace ApproveAck

def ofEnrolled (enrolled : Enrolled) : ApproveAck := ⟨.enrolled, some enrolled, rfl⟩

def other (outcome : ApproveOutcome) : Except MembershipError ApproveAck :=
  if h : outcome = .enrolled then .error .enrolledWithoutSlot else .ok ⟨outcome, none, (decide_eq_false h).symm⟩

def Value : ApproveAckKey → Type
  | .outcome => ApproveOutcome
  | .clientId => ClientId
  | .generation => Generation
  | .confirm => Tag

def table : Table MembershipError ApproveAckKey where
  Value := Value
  read
    | .outcome => checkedRead (ask u8) (unknown ApproveOutcome.tryFrom .unknownOutcome)
    | .clientId => checkedRead (ask u32) (nonZero (.approveAck .clientId))
    | .generation => checkedRead (ask u32) (nonZero (.approveAck .generation))
    | .confirm => checkedRead (ask bytesValue) (fixed 16 (.approveAck .confirm))
  twice key := .duplicate (.approveAck key)

def ofSlots (s : table.Slots) : Except MembershipError ApproveAck := do
  let outcome : ApproveOutcome ← slotRequired (.missing (.approveAck .outcome)) (s .outcome)
  if outcome = .enrolled then
    let clientId ← slotRequired .enrolledWithoutSlot (s .clientId)
    let generation ← slotRequired .enrolledWithoutSlot (s .generation)
    let confirm ← slotRequired .enrolledWithoutSlot (s .confirm)
    .ok (ofEnrolled ⟨clientId, generation, confirm⟩)
  else if (s .clientId).isSome then .error (.unexpected (.approveAck .clientId))
  else if (s .generation).isSome then .error (.unexpected (.approveAck .generation))
  else if (s .confirm).isSome then .error (.unexpected (.approveAck .confirm))
  else other outcome

def decode : Bytes → Except MembershipError ApproveAck := table.decode ofSlots

def entries (ack : ApproveAck) : List (ApproveAckKey × List Call) :=
  (.outcome, [.u64 ack.outcome.byte.toUInt64]) :: match ack.enrolled with
    | some enrolled =>
      [(.clientId, [.u64 enrolled.clientId.get.toUInt64]), (.generation, [.u64 enrolled.generation.get.toUInt64]),
        (.confirm, [.bytes enrolled.confirm.toList])]
    | none => []

def encode (ack : ApproveAck) (dst : ℕ) : Except MembershipError Bytes :=
  encodeBody (writeBody (if ack.enrolled.isSome then 4 else 1) ack.entries) dst

end ApproveAck

structure RemoveOperation where
  clientId : ClientId
  generation : Generation
  deriving DecidableEq

namespace RemoveOperation

def table : Table MembershipError RemoveKey where
  Value _ := NonZeroU32
  read key := checkedRead (ask u32) (nonZero (.remove key))
  twice key := .duplicate (.remove key)

def ofSlots (s : table.Slots) : Except MembershipError RemoveOperation := do
  let clientId ← slotRequired (.missing (.remove .clientId)) (s .clientId)
  let generation ← slotRequired (.missing (.remove .generation)) (s .generation)
  .ok ⟨clientId, generation⟩

def decode : Bytes → Except MembershipError RemoveOperation := table.decode ofSlots

def entries (op : RemoveOperation) : List (RemoveKey × List Call) :=
  [(.clientId, [.u64 op.clientId.get.toUInt64]), (.generation, [.u64 op.generation.get.toUInt64])]

def encode (op : RemoveOperation) (dst : ℕ) : Except MembershipError Bytes := encodeBody (writeBody 2 op.entries) dst

end RemoveOperation

structure RemoveAck where
  outcome : RemoveOutcome
  deriving DecidableEq

namespace RemoveAck

def table : Table MembershipError RemoveAckKey where
  Value _ := RemoveOutcome
  read _ := checkedRead (ask u8) (unknown RemoveOutcome.tryFrom .unknownOutcome)
  twice _ := .duplicate .removeAckOutcome

def ofSlots (s : table.Slots) : Except MembershipError RemoveAck := do
  let outcome ← slotRequired (.missing .removeAckOutcome) (s .outcome)
  .ok ⟨outcome⟩

def decode : Bytes → Except MembershipError RemoveAck := table.decode ofSlots

def entries (ack : RemoveAck) : List (RemoveAckKey × List Call) := [(.outcome, [.u64 ack.outcome.byte.toUInt64])]

def encode (ack : RemoveAck) (dst : ℕ) : Except MembershipError Bytes := encodeBody (writeBody 1 ack.entries) dst

end RemoveAck

end Km43.Membership
