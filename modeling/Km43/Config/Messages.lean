import Km43.Cbor.Carried

namespace Km43.Config

open Library Cbor CborReader

inductive ConfigSection
  | identityAndSite
  | channels
  | busesAndDevices
  | generatorBehaviour
  | frostBehaviour
  | scheduleBehaviour
  | loadShedBehaviour
  | network
  | cloud
  deriving DecidableEq

namespace ConfigSection

def number : ConfigSection → UInt16
  | identityAndSite => 0x1
  | channels => 0x2
  | busesAndDevices => 0x3
  | generatorBehaviour => 0x10
  | frostBehaviour => 0x11
  | scheduleBehaviour => 0x12
  | loadShedBehaviour => 0x13
  | network => 0x20
  | cloud => 0x21

def all : List ConfigSection :=
  [identityAndSite, channels, busesAndDevices, generatorBehaviour, frostBehaviour, scheduleBehaviour,
    loadShedBehaviour, network, cloud]

theorem found (a : ConfigSection) : (all.find? fun b => b.number == a.number) = some a := by cases a <;> rfl

instance : Allocated ConfigSection := ⟨all, number, found⟩

end ConfigSection

inductive SetConfig
  | accepted
  | staleVersion
  | invalid
  | unauthorised
  | exceedsCap
  | staged
  deriving DecidableEq

namespace SetConfig

def byte : SetConfig → UInt8
  | accepted => 1
  | staleVersion => 2
  | invalid => 3
  | unauthorised => 4
  | exceedsCap => 5
  | staged => 9

def all : List SetConfig := [accepted, staleVersion, invalid, unauthorised, exceedsCap, staged]

theorem found (a : SetConfig) : (all.find? fun b => b.byte == a.byte) = some a := by cases a <;> rfl

instance : Numbered SetConfig := ⟨all, byte, found⟩

end SetConfig

inductive ConfigMessageKey
  | sectionId
  | version
  | expectedVersion
  | body
  | outcome
  deriving DecidableEq

def ConfigMessageKey.number : ConfigMessageKey → ℕ
  | sectionId => 1
  | version | expectedVersion => 2
  | body | outcome => 3

inductive ConfigMessageError
  | missing (key : ConfigMessageKey)
  | duplicate (key : ConfigMessageKey)
  | unknownSection (number : UInt16)
  | unknownOutcome (number : UInt8)
  | bodyNotAMap
  | unwrittenWithBody
  | writtenWithoutBody
  | cbor (why : CborError)
  deriving DecidableEq

instance : FromCbor ConfigMessageError := ⟨.cbor⟩

inductive AnswerKey
  | sectionId
  | version
  | body
  deriving DecidableEq

namespace AnswerKey

def key : AnswerKey → ConfigMessageKey
  | sectionId => .sectionId
  | version => .version
  | body => .body

def of (number : ℤ) : Option AnswerKey :=
  if number = 1 then some sectionId else if number = 2 then some version else if number = 3 then some body else none

theorem of_iff (n : ℤ) (k : AnswerKey) : of n = some k ↔ n = k.key.number := by
  constructor
  · intro h
    unfold of at h
    split_ifs at h <;> cases h <;> assumption
  · rintro rfl
    cases k <;> rfl

theorem small (k : AnswerKey) : k.key.number < 256 := by cases k <;> decide

instance : BodyKey AnswerKey := ⟨of, fun k => k.key.number, of_iff, small⟩

theorem all_iff {P : AnswerKey → Prop} : (∀ k, P k) ↔ P sectionId ∧ P version ∧ P body := by
  constructor
  · intro h
    exact ⟨h _, h _, h _⟩
  · rintro ⟨h₁, h₂, h₃⟩ k
    cases k <;> assumption

end AnswerKey

inductive SetKey
  | sectionId
  | expectedVersion
  | body
  deriving DecidableEq

namespace SetKey

def key : SetKey → ConfigMessageKey
  | sectionId => .sectionId
  | expectedVersion => .expectedVersion
  | body => .body

def of (number : ℤ) : Option SetKey :=
  if number = 1 then some sectionId else if number = 2 then some expectedVersion
  else if number = 3 then some body else none

theorem of_iff (n : ℤ) (k : SetKey) : of n = some k ↔ n = k.key.number := by
  constructor
  · intro h
    unfold of at h
    split_ifs at h <;> cases h <;> assumption
  · rintro rfl
    cases k <;> rfl

theorem small (k : SetKey) : k.key.number < 256 := by cases k <;> decide

instance : BodyKey SetKey := ⟨of, fun k => k.key.number, of_iff, small⟩

theorem all_iff {P : SetKey → Prop} : (∀ k, P k) ↔ P sectionId ∧ P expectedVersion ∧ P body := by
  constructor
  · intro h
    exact ⟨h _, h _, h _⟩
  · rintro ⟨h₁, h₂, h₃⟩ k
    cases k <;> assumption

end SetKey

inductive SetAckKey
  | sectionId
  | version
  | outcome
  deriving DecidableEq

namespace SetAckKey

def key : SetAckKey → ConfigMessageKey
  | sectionId => .sectionId
  | version => .version
  | outcome => .outcome

def of (number : ℤ) : Option SetAckKey :=
  if number = 1 then some sectionId else if number = 2 then some version else if number = 3 then some outcome else none

theorem of_iff (n : ℤ) (k : SetAckKey) : of n = some k ↔ n = k.key.number := by
  constructor
  · intro h
    unfold of at h
    split_ifs at h <;> cases h <;> assumption
  · rintro rfl
    cases k <;> rfl

theorem small (k : SetAckKey) : k.key.number < 256 := by cases k <;> decide

instance : BodyKey SetAckKey := ⟨of, fun k => k.key.number, of_iff, small⟩

theorem all_iff {P : SetAckKey → Prop} : (∀ k, P k) ↔ P sectionId ∧ P version ∧ P outcome := by
  constructor
  · intro h
    exact ⟨h _, h _, h _⟩
  · rintro ⟨h₁, h₂, h₃⟩ k
    cases k <;> assumption

end SetAckKey

def aMap : Bytes → Except ConfigMessageError Unit := probeMap .bodyNotAMap

def knownOutcome : UInt8 → Except ConfigMessageError SetConfig := Numbered.known .unknownOutcome

def readSection : Read ConfigMessageError ConfigSection :=
  checkedRead (ask u16) (Allocated.known .unknownSection)

def checkAnswer (version : UInt32) (body : Option Bytes) : Except ConfigMessageError Unit :=
  match body with
  | none => if version = 0 then .ok () else .error .writtenWithoutBody
  | some body => if version = 0 then .error .unwrittenWithBody else aMap body

structure ConfigAnswer where
  sectionId : ConfigSection
  version : UInt32
  body : Option Bytes
  checked : checkAnswer version body = .ok ()

namespace ConfigAnswer

def new (sectionId : ConfigSection) (version : UInt32) (body : Option Bytes) :
    Except ConfigMessageError ConfigAnswer :=
  match h : checkAnswer version body with
  | .ok () => .ok ⟨sectionId, version, body, h⟩
  | .error why => .error why

def Value : AnswerKey → Type
  | .sectionId => ConfigSection
  | .version => UInt32
  | .body => Bytes

def table : Table ConfigMessageError AnswerKey where
  Value := Value
  read
    | .sectionId => readSection
    | .version => ask u32
    | .body => ask raw
  twice k := .duplicate k.key

def ofSlots (s : table.Slots) : Except ConfigMessageError ConfigAnswer := do
  let sectionId ← slotRequired (.missing .sectionId) (s .sectionId)
  let version ← slotRequired (.missing .version) (s .version)
  new sectionId version (s .body)

def decode : Bytes → Except ConfigMessageError ConfigAnswer := table.decode ofSlots

def heads (a : ConfigAnswer) : List (AnswerKey × List Call) :=
  [(.sectionId, [.u64 a.sectionId.number.toUInt64]), (.version, [.u64 a.version.toUInt64])]

def entries (a : ConfigAnswer) : List (AnswerKey × List Call) :=
  a.heads ++ (a.body.map fun body => (.body, [.raw body])).toList

def encode (a : ConfigAnswer) (dst : ℕ) : Except ConfigMessageError Bytes :=
  encodeBody (writeBody (if a.body.isSome then 3 else 2) a.entries) dst

end ConfigAnswer

structure SetConfigOperation where
  sectionId : ConfigSection
  expectedVersion : UInt32
  body : Bytes
  deriving DecidableEq

namespace SetConfigOperation

def Value : SetKey → Type
  | .sectionId => ConfigSection
  | .expectedVersion => UInt32
  | .body => Bytes

def table : Table ConfigMessageError SetKey where
  Value := Value
  read
    | .sectionId => readSection
    | .expectedVersion => ask u32
    | .body => checkedRead (ask raw) (keptMap .bodyNotAMap)
  twice k := .duplicate k.key

def ofSlots (s : table.Slots) : Except ConfigMessageError SetConfigOperation := do
  let sectionId ← slotRequired (.missing .sectionId) (s .sectionId)
  let expectedVersion ← slotRequired (.missing .expectedVersion) (s .expectedVersion)
  let body ← slotRequired (.missing .body) (s .body)
  .ok ⟨sectionId, expectedVersion, body⟩

def decode : Bytes → Except ConfigMessageError SetConfigOperation := table.decode ofSlots

def heads (op : SetConfigOperation) : List (SetKey × List Call) :=
  [(.sectionId, [.u64 op.sectionId.number.toUInt64]), (.expectedVersion, [.u64 op.expectedVersion.toUInt64])]

def encode (op : SetConfigOperation) (dst : ℕ) : Except ConfigMessageError Bytes := do
  aMap op.body
  encodeBody (writeBody 3 (op.heads ++ [(.body, [.raw op.body])])) dst

end SetConfigOperation

structure SetConfigAck where
  sectionId : ConfigSection
  version : UInt32
  outcome : SetConfig
  deriving DecidableEq

namespace SetConfigAck

def Value : SetAckKey → Type
  | .sectionId => ConfigSection
  | .version => UInt32
  | .outcome => SetConfig

def table : Table ConfigMessageError SetAckKey where
  Value := Value
  read
    | .sectionId => readSection
    | .version => ask u32
    | .outcome => checkedRead (ask u8) knownOutcome
  twice k := .duplicate k.key

def ofSlots (s : table.Slots) : Except ConfigMessageError SetConfigAck := do
  let sectionId ← slotRequired (.missing .sectionId) (s .sectionId)
  let version ← slotRequired (.missing .version) (s .version)
  let outcome ← slotRequired (.missing .outcome) (s .outcome)
  .ok ⟨sectionId, version, outcome⟩

def decode : Bytes → Except ConfigMessageError SetConfigAck := table.decode ofSlots

def entries (ack : SetConfigAck) : List (SetAckKey × List Call) :=
  [(.sectionId, [.u64 ack.sectionId.number.toUInt64]), (.version, [.u64 ack.version.toUInt64]),
    (.outcome, [.u64 ack.outcome.byte.toUInt64])]

def encode (ack : SetConfigAck) (dst : ℕ) : Except ConfigMessageError Bytes :=
  encodeBody (writeBody 3 ack.entries) dst

end SetConfigAck

end Km43.Config
