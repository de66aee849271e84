import Km43.Cbor.Cells
import Km43.Readings.Quality

namespace Km43.Concerns

open Library Cbor CborReader CborWriter Readings

def concernMaxBytes : ℕ := 63

def conditionNeedsVendorCode : List UInt16 := [0x0019]

structure Condition where
  raw : UInt16
  deriving DecidableEq

def Condition.needsVendorCode (cond : Condition) : Bool := conditionNeedsVendorCode.contains cond.raw

structure VendorNamespace where
  raw : UInt16
  deriving DecidableEq

inductive Severity
  | info
  | warning
  | fault
  | protection
  deriving DecidableEq

def Severity.byte : Severity → UInt8
  | info => 1
  | warning => 2
  | fault => 3
  | protection => 4

def Severity.tryFrom (v : UInt8) : Option Severity :=
  if v = 1 then some info else if v = 2 then some warning else if v = 3 then some fault
  else if v = 4 then some protection else none

inductive ConcernState
  | active
  | activeAcked
  | latchedCleared
  | clearingBlocked
  | cleared
  deriving DecidableEq

def ConcernState.byte : ConcernState → UInt8
  | active => 1
  | activeAcked => 2
  | latchedCleared => 3
  | clearingBlocked => 4
  | cleared => 5

def ConcernState.tryFrom (v : UInt8) : Option ConcernState :=
  if v = 1 then some active else if v = 2 then some activeAcked else if v = 3 then some latchedCleared
  else if v = 4 then some clearingBlocked else if v = 5 then some cleared else none

structure ElementAt where
  raw : UInt8
  nonzero : raw ≠ 0
  within : raw.toNat ≤ maxSeriesLen

structure VendorCode where
  raw : UInt32
  vns : VendorNamespace

structure Part where
  dev : Id
  cmp : UInt16

namespace Part

def device (dev : Id) : Part := ⟨dev, 0⟩

def component (dev cmp : Id) : Part := ⟨dev, cmp.raw⟩

end Part

inductive Subject
  | part (part : Part)
  | signal (part : Part) (sig : Id)
  | element (part : Part) (sig : Id) (place : ElementAt)

namespace Subject

def whole : Subject → Part
  | part p | signal p _ | element p _ _ => p

def sig : Subject → Option Id
  | part _ => none
  | signal _ sig | element _ sig _ => some sig

def place : Subject → Option ElementAt
  | part _ | signal _ _ => none
  | element _ _ place => some place

end Subject

inductive ConcernKey
  | cid
  | dev
  | cmp
  | sig
  | elem
  | cond
  | sev
  | state
  | age
  | since
  | raw
  | vns
  | seq
  deriving DecidableEq

namespace ConcernKey

def of (number : ℤ) : Option ConcernKey :=
  if number = 1 then some cid else if number = 2 then some dev else if number = 3 then some cmp
  else if number = 4 then some sig else if number = 5 then some elem else if number = 6 then some cond
  else if number = 7 then some sev else if number = 8 then some state else if number = 9 then some age
  else if number = 10 then some since else if number = 11 then some raw else if number = 12 then some vns
  else if number = 13 then some seq else none

def number : ConcernKey → ℕ
  | cid => 1
  | dev => 2
  | cmp => 3
  | sig => 4
  | elem => 5
  | cond => 6
  | sev => 7
  | state => 8
  | age => 9
  | since => 10
  | raw => 11
  | vns => 12
  | seq => 13

def all : List ConcernKey := [cid, dev, cmp, sig, elem, cond, sev, state, age, since, raw, vns, seq]

theorem of_iff (n : ℤ) (k : ConcernKey) : of n = some k ↔ n = k.number := by
  constructor
  · intro h
    unfold of at h
    iterate 13
      rcases arm_some h with ⟨hn, rfl⟩ | h
      · exact hn
    cases h
  · rintro rfl
    cases k <;> rfl

theorem narrow (k : ConcernKey) : k.number < 24 := by cases k <;> decide

theorem small (k : ConcernKey) : k.number < 256 := k.narrow.trans (by decide)

end ConcernKey

instance : BodyKey ConcernKey := ⟨ConcernKey.of, ConcernKey.number, ConcernKey.of_iff, ConcernKey.small⟩

theorem ConcernKey.all_inOrder : InOrder ConcernKey.all := by
  constructor
  · decide
  · intro k
    cases k <;> decide

inductive ConcernsError
  | duplicate (key : UInt8)
  | zeroId
  | zeroElement
  | elementPastSeries (position : UInt8)
  | elementWithoutSignal
  | codeWithoutNamespace
  | namespaceWithoutCode
  | conditionWithoutCode (cond : Condition)
  | unknownSeverity (number : UInt8)
  | unknownState (number : UInt8)
  | missingRow (key : ConcernKey)
  | missingEvent (key : UInt8)
  | wentNowhere (state : ConcernState)
  | cbor (why : CborError)
  deriving DecidableEq

instance : FromCbor ConcernsError := ⟨.cbor⟩

def newId (value : UInt16) : Except ConcernsError Id := if h : value = 0 then .error .zeroId else .ok ⟨value, h⟩

def newElement (position : UInt8) : Except ConcernsError ElementAt :=
  if hzero : position = 0 then .error .zeroElement
  else if hwithin : position.toNat ≤ maxSeriesLen then .ok ⟨position, hzero, hwithin⟩
  else .error (.elementPastSeries position)

def severity (number : UInt8) : Except ConcernsError Severity :=
  match Severity.tryFrom number with
  | some value => .ok value
  | none => .error (.unknownSeverity number)

def concernState (number : UInt8) : Except ConcernsError ConcernState :=
  match ConcernState.tryFrom number with
  | some value => .ok value
  | none => .error (.unknownState number)

structure Concern where
  cid : Id
  subject : Subject
  cond : Condition
  sev : Severity
  state : ConcernState
  age : UInt32
  since : Option UInt64
  code : Option VendorCode
  seq : UInt64

namespace Concern

def unnamed (c : Concern) : Bool := c.code.isNone && c.cond.needsVendorCode

def pairs (c : Concern) : ℕ :=
  8 + c.subject.sig.isSome.toNat + c.subject.place.isSome.toNat + c.since.isSome.toNat +
    if c.code.isSome then 2 else 0

def call (c : Concern) : ConcernKey → Option Call
  | .cid => some (.u64 c.cid.raw.toUInt64)
  | .dev => some (.u64 c.subject.whole.dev.raw.toUInt64)
  | .cmp => some (.u64 c.subject.whole.cmp.toUInt64)
  | .sig => c.subject.sig.map fun sig => .u64 sig.raw.toUInt64
  | .elem => c.subject.place.map fun place => .u64 place.raw.toUInt64
  | .cond => some (.u64 c.cond.raw.toUInt64)
  | .sev => some (.u64 c.sev.byte.toUInt64)
  | .state => some (.u64 c.state.byte.toUInt64)
  | .age => some (.u64 c.age.toUInt64)
  | .since => c.since.map .u64
  | .raw => c.code.map fun code => .u64 code.raw.toUInt64
  | .vns => c.code.map fun code => .u64 code.vns.raw.toUInt64
  | .seq => some (.u64 c.seq)

def entries (c : Concern) : List (ConcernKey × List Call) :=
  cells ConcernKey.all fun k => (c.call k).map fun call => [call]

/-- The keys in order, refused before a byte is written when the condition needs a code that is not there. -/
def encode (c : Concern) : Encoder ConcernsError Unit :=
  if c.unnamed then throw (.conditionWithoutCode c.cond) else writeBody (UInt64.ofNat c.pairs) c.entries

def Value : ConcernKey → Type
  | .cid | .dev | .sig => Id
  | .cmp => UInt16
  | .elem => ElementAt
  | .cond => Condition
  | .sev => Severity
  | .state => ConcernState
  | .age | .raw => UInt32
  | .since | .seq => UInt64
  | .vns => VendorNamespace

def readCondition : Read ConcernsError Condition := do
  let raw ← ask u16
  pure ⟨raw⟩

def readNamespace : Read ConcernsError VendorNamespace := do
  let raw ← ask u16
  pure ⟨raw⟩

def table : Table ConcernsError ConcernKey where
  Value := Value
  read
    | .cid => checkedRead (ask u16) newId
    | .dev => checkedRead (ask u16) newId
    | .cmp => ask u16
    | .sig => checkedRead (ask u16) newId
    | .elem => checkedRead (ask u8) newElement
    | .cond => readCondition
    | .sev => checkedRead (ask u8) severity
    | .state => checkedRead (ask u8) concernState
    | .age => ask u32
    | .since => UInt64.ofNat <$> ask u64
    | .raw => ask u32
    | .vns => readNamespace
    | .seq => UInt64.ofNat <$> ask u64
  twice key := .duplicate (UInt8.ofNat key.number)

def partOf (cmp : Option UInt16) (dev : Option Id) : Except ConcernsError Part := do
  let cmp ← slotRequired (.missingRow .cmp) cmp
  let dev ← slotRequired (.missingRow .dev) dev
  if cmp = 0 then .ok (.device dev)
  else do
    let component ← newId cmp
    .ok (.component dev component)

def subjectOf (part : Part) : Option Id → Option ElementAt → Except ConcernsError Subject
  | some sig, some place => .ok (.element part sig place)
  | some sig, none => .ok (.signal part sig)
  | none, none => .ok (.part part)
  | none, some _ => .error .elementWithoutSignal

def codeOf : Option UInt32 → Option VendorNamespace → Except ConcernsError (Option VendorCode)
  | some code, some vns => .ok (some ⟨code, vns⟩)
  | none, none => .ok none
  | some _, none => .error .codeWithoutNamespace
  | none, some _ => .error .namespaceWithoutCode

def ofSlots (s : table.Slots) : Except ConcernsError Concern := do
  let part ← partOf (s .cmp) (s .dev)
  let subject ← subjectOf part (s .sig) (s .elem)
  let code ← codeOf (s .raw) (s .vns)
  let cond : Condition ← slotRequired (.missingRow .cond) (s .cond)
  if code.isNone && cond.needsVendorCode then .error (.conditionWithoutCode cond)
  else do
    let cid ← slotRequired (.missingRow .cid) (s .cid)
    let sev ← slotRequired (.missingRow .sev) (s .sev)
    let state ← slotRequired (.missingRow .state) (s .state)
    let age ← slotRequired (.missingRow .age) (s .age)
    let seq ← slotRequired (.missingRow .seq) (s .seq)
    .ok ⟨cid, subject, cond, sev, state, age, s .since, code, seq⟩

def decode : Bytes → Except ConcernsError Concern := table.decode ofSlots

end Concern

end Km43.Concerns
