import Km43.Cbor.Calls
import Km43.Link.FrameLaws
import Km43.Membership.Bodies

namespace Km43.Membership

open Library Identity Invite Cbor CborReader CborWriter

def maxInvites : ℕ := 4

def inviteTtlMs : ℕ := 3600000

def maxExpiresIn : ℕ := inviteTtlMs / 1000

inductive ClientsField
  | clients
  | invites
  | clientId
  | generation
  | role
  | clientKind
  | label
  | nonce
  | invitee
  | inviter
  | inviterGeneration
  | expiresIn
  | suite
  deriving DecidableEq

inductive ClientsError
  | missing (field : ClientsField)
  | duplicate (field : ClientsField)
  | unallocated (field : ClientsField) (raw : UInt8)
  | zero (field : ClientsField)
  | wrongLength (field : ClientsField) (len : ℕ)
  | labelLength (len : ℕ)
  | expiresTooLate (secs : UInt32)
  | tooMany (field : ClientsField) (count : ℕ)
  | slotsOutOfOrder
  | inviteRepeated
  | cbor (why : CborError)
  deriving DecidableEq

instance : FromCbor ClientsError := ⟨.cbor⟩

def roles : List Role := [.owner, .admin, .viewer]

theorem role_found (a : Role) : (roles.find? fun b => b.byte == a.byte) = some a := by cases a <;> rfl

instance : Numbered Role := ⟨roles, Role.byte, role_found⟩

def clientKinds : List ClientKind := [.app, .browser, .cloud, .cli]

theorem clientKind_found (a : ClientKind) : (clientKinds.find? fun b => b.byte == a.byte) = some a := by
  cases a <;> rfl

instance : Numbered ClientKind := ⟨clientKinds, ClientKind.byte, clientKind_found⟩

def suites : List Suite := [.x25519ChachapolySha256]

theorem suite_found (a : Suite) : (suites.find? fun b => b.byte == a.byte) = some a := by
  cases a
  rfl

instance : Numbered Suite := ⟨suites, Suite.byte, suite_found⟩

namespace ClientsField

def nonZero (field : ClientsField) (raw : UInt32) : Except ClientsError NonZeroU32 :=
  match NonZeroU32.new raw with
  | some value => .ok value
  | none => .error (.zero field)

theorem nonZero_get (field : ClientsField) (raw : UInt32) (value : NonZeroU32) (h : field.nonZero raw = .ok value) :
    value.get = raw := by
  unfold nonZero NonZeroU32.new at h
  split_ifs at h
  cases h
  rfl

def number (field : ClientsField) : Codec ClientsError NonZeroU32 := Codec.u32.checked field.nonZero _ field.nonZero_get

def closed {α : Type} [Numbered α] (field : ClientsField) : Codec ClientsError α := Codec.closed (.unallocated field)

def fixed (n : ℕ) (field : ClientsField) : Codec ClientsError (Vector UInt8 n) := Codec.fixed n (.wrongLength field)

end ClientsField

class Row (R : Type) where
  max : ℕ
  field : ClientsField
  check : R → Except ClientsError Unit
  encodeInto : R → Encoder ClientsError Unit
  decodeFrom : Read ClientsError R
  follows : R → R → Except ClientsError Unit

structure ClientRow where
  clientId : ClientId
  generation : Generation
  role : Role
  clientKind : ClientKind
  label : Str
  deriving DecidableEq

inductive ClientRowKey
  | clientId
  | generation
  | role
  | clientKind
  | label
  deriving DecidableEq

namespace ClientRowKey

def all : List ClientRowKey := [clientId, generation, role, clientKind, label]

theorem keyList : KeyList all := ⟨by decide, fun k => by cases k <;> decide, by decide⟩

instance : Listed ClientRowKey := ⟨all, keyList⟩

def field : ClientRowKey → ClientsField
  | clientId => .clientId
  | generation => .generation
  | role => .role
  | clientKind => .clientKind
  | label => .label

def Value : ClientRowKey → Type
  | clientId => ClientId
  | generation => Generation
  | role => Role
  | clientKind => ClientKind
  | label => Str

def codec : ∀ k, Codec ClientsError (Value k)
  | clientId => ClientsField.number .clientId
  | generation => ClientsField.number .generation
  | role => (ClientsField.closed .role : Codec ClientsError Role)
  | clientKind => (ClientsField.closed .clientKind : Codec ClientsError ClientKind)
  | label => .text

end ClientRowKey

namespace ClientRow

def table : Table ClientsError ClientRowKey := .ofCodecs ClientRowKey.codec fun k => .duplicate k.field

def check (row : ClientRow) : Except ClientsError Unit :=
  if row.label.raw.length > maxLabel then .error (.labelLength row.label.raw.length) else .ok ()

def encodeInto (row : ClientRow) : Encoder ClientsError Unit := do
  row.check
  tell (CborWriter.map 5)
  tell (CborWriter.key 1)
  tell (CborWriter.u64 row.clientId.get.toNat)
  tell (CborWriter.key 2)
  tell (CborWriter.u64 row.generation.get.toNat)
  tell (CborWriter.key 3)
  tell (CborWriter.u64 row.role.byte.toNat)
  tell (CborWriter.key 4)
  tell (CborWriter.u64 row.clientKind.byte.toNat)
  tell (CborWriter.key 5)
  tell (CborWriter.text row.label.raw)

def ofSlots (s : table.Slots) : Except ClientsError ClientRow := do
  let clientId ← slotRequired (.missing .clientId) (s .clientId)
  let generation ← slotRequired (.missing .generation) (s .generation)
  let role ← slotRequired (.missing .role) (s .role)
  let clientKind ← slotRequired (.missing .clientKind) (s .clientKind)
  let label ← slotRequired (.missing .label) (s .label)
  let row : ClientRow := ⟨clientId, generation, role, clientKind, label⟩
  row.check
  .ok row

def decodeFrom : Read ClientsError ClientRow := checkedRead table.slots ofSlots

def follows (row earlier : ClientRow) : Except ClientsError Unit :=
  if row.clientId.get ≤ earlier.clientId.get then .error .slotsOutOfOrder else .ok ()

instance : Row ClientRow := ⟨maxClients, .clients, check, encodeInto, decodeFrom, follows⟩

end ClientRow

structure InviteRow where
  nonce : InviteNonce
  role : Role
  invitee : PublicKey
  inviter : ClientId
  inviterGeneration : Generation
  clientKind : ClientKind
  label : Str
  expiresIn : UInt32
  suite : Suite
  deriving DecidableEq

inductive InviteRowKey
  | nonce
  | role
  | invitee
  | inviter
  | inviterGeneration
  | clientKind
  | label
  | expiresIn
  | suite
  deriving DecidableEq

namespace InviteRowKey

def all : List InviteRowKey := [nonce, role, invitee, inviter, inviterGeneration, clientKind, label, expiresIn, suite]

theorem keyList : KeyList all := ⟨by decide, fun k => by cases k <;> decide, by decide⟩

instance : Listed InviteRowKey := ⟨all, keyList⟩

def field : InviteRowKey → ClientsField
  | nonce => .nonce
  | role => .role
  | invitee => .invitee
  | inviter => .inviter
  | inviterGeneration => .inviterGeneration
  | clientKind => .clientKind
  | label => .label
  | expiresIn => .expiresIn
  | suite => .suite

def Value : InviteRowKey → Type
  | nonce => InviteNonce
  | role => Role
  | invitee => PublicKey
  | inviter => ClientId
  | inviterGeneration => Generation
  | clientKind => ClientKind
  | label => Str
  | expiresIn => UInt32
  | suite => Suite

def codec : ∀ k, Codec ClientsError (Value k)
  | nonce => ClientsField.fixed 16 .nonce
  | role => (ClientsField.closed .role : Codec ClientsError Role)
  | invitee => ClientsField.fixed 32 .invitee
  | inviter => ClientsField.number .inviter
  | inviterGeneration => ClientsField.number .inviterGeneration
  | clientKind => (ClientsField.closed .clientKind : Codec ClientsError ClientKind)
  | label => .text
  | expiresIn => .u32
  | suite => (ClientsField.closed .suite : Codec ClientsError Suite)

end InviteRowKey

namespace InviteRow

def table : Table ClientsError InviteRowKey := .ofCodecs InviteRowKey.codec fun k => .duplicate k.field

def check (row : InviteRow) : Except ClientsError Unit :=
  if row.label.raw = [] ∨ row.label.raw.length > maxLabel then .error (.labelLength row.label.raw.length)
  else if row.expiresIn.toNat > maxExpiresIn then .error (.expiresTooLate row.expiresIn)
  else .ok ()

def encodeInto (row : InviteRow) : Encoder ClientsError Unit := do
  row.check
  tell (CborWriter.map 9)
  tell (CborWriter.key 1)
  tell (CborWriter.bytes row.nonce.toList)
  tell (CborWriter.key 2)
  tell (CborWriter.u64 row.role.byte.toNat)
  tell (CborWriter.key 3)
  tell (CborWriter.bytes row.invitee.toList)
  tell (CborWriter.key 4)
  tell (CborWriter.u64 row.inviter.get.toNat)
  tell (CborWriter.key 5)
  tell (CborWriter.u64 row.inviterGeneration.get.toNat)
  tell (CborWriter.key 6)
  tell (CborWriter.u64 row.clientKind.byte.toNat)
  tell (CborWriter.key 7)
  tell (CborWriter.text row.label.raw)
  tell (CborWriter.key 8)
  tell (CborWriter.u64 row.expiresIn.toNat)
  tell (CborWriter.key 9)
  tell (CborWriter.u64 row.suite.byte.toNat)

def ofSlots (s : table.Slots) : Except ClientsError InviteRow := do
  let nonce ← slotRequired (.missing .nonce) (s .nonce)
  let role ← slotRequired (.missing .role) (s .role)
  let invitee ← slotRequired (.missing .invitee) (s .invitee)
  let inviter ← slotRequired (.missing .inviter) (s .inviter)
  let inviterGeneration ← slotRequired (.missing .inviterGeneration) (s .inviterGeneration)
  let clientKind ← slotRequired (.missing .clientKind) (s .clientKind)
  let label ← slotRequired (.missing .label) (s .label)
  let expiresIn ← slotRequired (.missing .expiresIn) (s .expiresIn)
  let suite ← slotRequired (.missing .suite) (s .suite)
  let row : InviteRow := ⟨nonce, role, invitee, inviter, inviterGeneration, clientKind, label, expiresIn, suite⟩
  row.check
  .ok row

def decodeFrom : Read ClientsError InviteRow := checkedRead table.slots ofSlots

def follows (row earlier : InviteRow) : Except ClientsError Unit :=
  if row.nonce = earlier.nonce then .error .inviteRepeated else .ok ()

instance : Row InviteRow := ⟨maxInvites, .invites, check, encodeInto, decodeFrom, follows⟩

end InviteRow

inductive Rows (R : Type)
  | built (rows : List R)
  | read (item : Bytes) (count : ℕ)

structure RowIter (R : Type) where
  built : List R
  read : CborReader
  left : ℕ
  header : Except CborError Unit

section

variable {R : Type} [Row R]

namespace RowIter

def next (it : RowIter R) : Option (Except ClientsError (R × RowIter R)) :=
  match it.built with
  | row :: rest => some (.ok (row, { it with built := rest }))
  | [] =>
    if it.left = 0 then none
    else
      match it.header with
      | .error why => some (.error (.cbor why))
      | .ok () =>
        match Row.decodeFrom it.read with
        | .error why => some (.error why)
        | .ok (row, read) => some (.ok (row, { it with read := read, left := it.left - 1 }))

def walk : ℕ → RowIter R → List (Except ClientsError R)
  | 0, _ => []
  | n + 1, it =>
    match it.next with
    | none => []
    | some (.error why) => [.error why]
    | some (.ok (row, it)) => .ok row :: walk n it

end RowIter

namespace Rows

def len : Rows R → ℕ
  | built rows => rows.length
  | read _ count => count

def iter : Rows R → RowIter R
  | built rows => ⟨rows, .new [], 0, .ok ()⟩
  | read item count =>
    match CborReader.array (.new item) with
    | .ok (_, reader) => ⟨[], reader, count, .ok ()⟩
    | .error why => ⟨[], .new item, count, .error why⟩

def items (rows : Rows R) : List (Except ClientsError R) := rows.iter.walk rows.len

def followsAll (row : R) : List (Except ClientsError R) → Except ClientsError Unit
  | [] => .ok ()
  | next :: rest => do
    let earlier ← next
    Row.follows row earlier
    followsAll row rest

def checkFrom (rows : Rows R) : ℕ → List (Except ClientsError R) → Except ClientsError Unit
  | _, [] => .ok ()
  | index, next :: rest => do
    let row ← next
    Row.check row
    followsAll row (rows.iter.walk index)
    checkFrom rows (index + 1) rest

def check (rows : Rows R) : Except ClientsError Unit :=
  if rows.len > Row.max R then .error (.tooMany (Row.field R) rows.len) else rows.checkFrom 0 rows.items

def encode : Rows R → Encoder ClientsError Unit
  | built rows => do
    tell (CborWriter.array rows.length)
    rows.forM Row.encodeInto
  | read item _ => tell (CborWriter.raw item)

def ofArray (item : Bytes) : Except ClientsError (Rows R) := do
  let (count, _) ← (CborReader.array (.new item)).mapError ClientsError.cbor
  if count > Row.max R then .error (.tooMany (Row.field R) count)
  else
    let rows : Rows R := .read item count
    rows.check
    .ok rows

def same [DecidableEq R] (a b : Rows R) : Bool :=
  decide (a.len = b.len) && (a.items.zip b.items).all fun p => match p with
    | (.ok x, .ok y) => decide (x = y)
    | (.error x, .error y) => decide (x = y)
    | _ => false

end Rows

end

inductive AnswerKey
  | clients
  | invites
  deriving DecidableEq

namespace AnswerKey

def all : List AnswerKey := [clients, invites]

theorem keyList : KeyList all := ⟨by decide, fun k => by cases k <;> decide, by decide⟩

instance : Listed AnswerKey := ⟨all, keyList⟩

def field : AnswerKey → ClientsField
  | clients => .clients
  | invites => .invites

end AnswerKey

structure ClientsAnswer where
  clients : Rows ClientRow
  invites : Rows InviteRow

namespace ClientsAnswer

def new (clients : List ClientRow) (invites : List InviteRow) : Except ClientsError ClientsAnswer := do
  let answer : ClientsAnswer := ⟨.built clients, .built invites⟩
  answer.clients.check
  answer.invites.check
  .ok answer

def encodeInto (answer : ClientsAnswer) : Encoder ClientsError Unit := do
  tell (CborWriter.map 2)
  tell (CborWriter.key 1)
  answer.clients.encode
  tell (CborWriter.key 2)
  answer.invites.encode

def encode (answer : ClientsAnswer) (dst : ℕ) : Except ClientsError Bytes := encodeBody answer.encodeInto dst

def table : Table ClientsError AnswerKey := ⟨fun _ => Bytes, fun _ => ask raw, fun k => .duplicate k.field⟩

def ofSlots (s : table.Slots) : Except ClientsError ClientsAnswer := do
  let clients ← slotRequired (.missing .clients) (s .clients)
  let clients ← Rows.ofArray clients
  let invites ← slotRequired (.missing .invites) (s .invites)
  let invites ← Rows.ofArray invites
  .ok ⟨clients, invites⟩

def decode (payload : Bytes) : Except ClientsError ClientsAnswer := table.decode ofSlots payload

def same (a b : ClientsAnswer) : Bool := a.clients.same b.clients && a.invites.same b.invites

end ClientsAnswer

end Km43.Membership
