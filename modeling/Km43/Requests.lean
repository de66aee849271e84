import Km43.Cbor.Complete
import Km43.Changes.Entry
import Km43.Config.MessagesTrip
import Km43.Link.BodiesTrip
import Km43.Link.FrameLaws
import Km43.Log.Subscribe
import Km43.Sealed.Signed
import Km43.Wifi.Access

namespace Km43.Requests

open Library Cbor CborReader CborWriter Sealed Link
open Changes (ChangeError)

inductive ReadInventoryKey
  | rev
  | what
  | start
  | dev
  deriving DecidableEq

namespace ReadInventoryKey

def all : List ReadInventoryKey := [rev, what, start, dev]

theorem keyList : KeyList all := ⟨by decide, fun k => by cases k <;> decide, by decide⟩

instance : Listed ReadInventoryKey := ⟨all, keyList⟩

end ReadInventoryKey

inductive ReadInventoryError
  | missing (key : ReadInventoryKey)
  | duplicate (key : ReadInventoryKey)
  | cbor (why : CborError)
  deriving DecidableEq

instance : FromCbor ReadInventoryError := ⟨.cbor⟩

/-- The body of `ReadInventory 0x0D`: any kind, allocated or not, and with no device every device's parameters. -/
structure ReadInventory where
  rev : UInt32
  what : UInt8
  start : UInt16
  dev : Option UInt16
  deriving DecidableEq

namespace ReadInventory

def Value : ReadInventoryKey → Type
  | .rev => UInt32
  | .what => UInt8
  | .start | .dev => UInt16

def codec : ∀ k, Codec ReadInventoryError (Value k)
  | .rev => .u32
  | .what => .u8
  | .start | .dev => .u16

def table : Table ReadInventoryError ReadInventoryKey := .ofCodecs codec .duplicate

def entries (asked : ReadInventory) : List (ReadInventoryKey × List Call) :=
  [(.rev, [.u64 asked.rev.toUInt64]), (.what, [.u64 asked.what.toUInt64]), (.start, [.u64 asked.start.toUInt64])] ++
    (asked.dev.map fun dev => (.dev, [.u64 dev.toUInt64])).toList

def encode (asked : ReadInventory) : ℕ → Except ReadInventoryError Bytes :=
  encodeBody (writeBody (if asked.dev.isSome then 4 else 3) asked.entries)

def complete (s : table.Slots) : Except ReadInventoryError ReadInventory := do
  let rev ← slotRequired (.missing .rev) (s .rev)
  let what ← slotRequired (.missing .what) (s .what)
  let start ← slotRequired (.missing .start) (s .start)
  .ok ⟨rev, what, start, s .dev⟩

def decode : Bytes → Except ReadInventoryError ReadInventory := table.decode complete

def slots (asked : ReadInventory) : ∀ k, Option (Value k)
  | .rev => some asked.rev
  | .what => some asked.what
  | .start => some asked.start
  | .dev => asked.dev

theorem complete_ok (s : table.Slots) (asked : ReadInventory) : complete s = .ok asked ↔ s = asked.slots ∧ True := by
  simp only [complete, bind_ok, slotRequired_ok, and_true]
  constructor
  · rintro ⟨rev, h₁, what, h₂, start, h₃, ⟨⟩⟩
    funext k
    cases k with
    | rev => exact h₁
    | what => exact h₂
    | start => exact h₃
    | dev => rfl
  · rintro rfl
    exact ⟨_, rfl, _, rfl, _, rfl, rfl⟩

def width : ReadInventoryKey → ℕ
  | .rev => 6
  | .what => 3
  | .start | .dev => 4

theorem laws : PlainLaws codec slots (fun _ => True) (1 + (ReadInventoryKey.all.map width).sum) encode decode := by
  refine plainBody (fun asked => ?_) (fun asked => ?_) (fun asked k v _ => ?_) complete_ok (fun asked k v _ => ?_)
  · obtain ⟨rev, what, start, _ | dev⟩ := asked <;> rfl
  · obtain ⟨rev, what, start, _ | dev⟩ := asked <;> rfl
  · cases k <;> trivial
  · cases k with
    | rev => exact Nat.add_le_add_left (ofNat_length_u32 v) 1
    | what => exact Nat.add_le_add_left (ofNat_length_u8 v) 1
    | start | dev => exact Nat.add_le_add_left (ofNat_length_u16 v) 1

end ReadInventory

inductive GetConfigKey
  | sectionId
  deriving DecidableEq

namespace GetConfigKey

def all : List GetConfigKey := [sectionId]

theorem keyList : KeyList all := ⟨by decide, fun k => by cases k; decide, by decide⟩

instance : Listed GetConfigKey := ⟨all, keyList⟩

end GetConfigKey

structure GetConfigRequest where
  sectionId : Config.ConfigSection
  deriving DecidableEq

namespace GetConfigRequest

def Value : GetConfigKey → Type
  | .sectionId => Config.ConfigSection

def codec : ∀ k, Codec Config.ConfigMessageError (Value k)
  | .sectionId => (Codec.allocated .unknownSection : Codec Config.ConfigMessageError Config.ConfigSection)

def table : Table Config.ConfigMessageError GetConfigKey := .ofCodecs codec fun _ => .duplicate .sectionId

def entries (asked : GetConfigRequest) : List (GetConfigKey × List Call) :=
  [(.sectionId, [.u64 asked.sectionId.number.toUInt64])]

def encode (asked : GetConfigRequest) : ℕ → Except Config.ConfigMessageError Bytes :=
  encodeBody (writeBody 1 asked.entries)

def complete (s : table.Slots) : Except Config.ConfigMessageError GetConfigRequest := do
  let sectionId ← slotRequired (.missing .sectionId) (s .sectionId)
  .ok ⟨sectionId⟩

def decode : Bytes → Except Config.ConfigMessageError GetConfigRequest := table.decode complete

def slots (asked : GetConfigRequest) : ∀ k, Option (Value k)
  | .sectionId => some asked.sectionId

theorem complete_ok (s : table.Slots) (asked : GetConfigRequest) :
    complete s = .ok asked ↔ s = asked.slots ∧ True := by
  simp only [complete, bind_ok, slotRequired_ok, and_true]
  constructor
  · rintro ⟨sectionId, h, ⟨⟩⟩
    funext k
    cases k
    exact h
  · rintro rfl
    exact ⟨_, rfl, rfl⟩

def maxGetConfigBytes : ℕ := 5

theorem laws : PlainLaws codec slots (fun _ => True) maxGetConfigBytes encode decode := by
  have hwidth : ∀ (asked : GetConfigRequest) k a, asked.slots k = some a → 1 + ((codec k).spell a).spelling.length ≤
      (fun _ => 4 : GetConfigKey → ℕ) k := by
    intro asked k v _
    cases k
    exact Nat.add_le_add_left (ofNat_length_u16 v.number) 1
  refine plainBody (fun _ => rfl) (fun _ => rfl) (fun asked k v _ => ?_) complete_ok hwidth
  cases k
  exact Codec.allocated_may Config.ConfigMessageError.unknownSection (show Config.ConfigSection from v)

end GetConfigRequest

inductive TopologyChangeReason
  | boot
  | configWrite
  | subDeviceAdopted
  | subDeviceRemoved
  | deviceReplaced
  deriving DecidableEq

namespace TopologyChangeReason

def byte : TopologyChangeReason → UInt8
  | boot => 1
  | configWrite => 2
  | subDeviceAdopted => 3
  | subDeviceRemoved => 4
  | deviceReplaced => 5

def all : List TopologyChangeReason := [boot, configWrite, subDeviceAdopted, subDeviceRemoved, deviceReplaced]

theorem found (a : TopologyChangeReason) : (all.find? fun b => b.byte == a.byte) = some a := by cases a <;> rfl

instance : Numbered TopologyChangeReason := ⟨all, byte, found⟩

end TopologyChangeReason

inductive TopologyKey
  | rev
  | reason
  | added
  | removed
  deriving DecidableEq

namespace TopologyKey

def all : List TopologyKey := [rev, reason, added, removed]

theorem keyList : KeyList all := ⟨by decide, fun k => by cases k <;> decide, by decide⟩

instance : Listed TopologyKey := ⟨all, keyList⟩

end TopologyKey

structure TopologyChanged where
  rev : UInt32
  reason : TopologyChangeReason
  added : UInt16
  removed : UInt16
  deriving DecidableEq

namespace TopologyChanged

def Value : TopologyKey → Type
  | .rev => UInt32
  | .reason => TopologyChangeReason
  | .added | .removed => UInt16

def codec : ∀ k, Codec ChangeError (Value k)
  | .rev => .u32
  | .reason => (Codec.closed .unknownReason : Codec ChangeError TopologyChangeReason)
  | .added | .removed => .u16

def table : Table ChangeError TopologyKey := .ofCodecs codec fun k => .duplicate (UInt8.ofNat (BodyKey.number k))

def entries (change : TopologyChanged) : List (TopologyKey × List Call) :=
  [(.rev, [.u64 change.rev.toUInt64]), (.reason, [.u64 change.reason.byte.toUInt64]),
    (.added, [.u64 change.added.toUInt64]), (.removed, [.u64 change.removed.toUInt64])]

def encode (change : TopologyChanged) : ℕ → Except ChangeError Bytes := encodeBody (writeBody 4 change.entries)

def complete (s : table.Slots) : Except ChangeError TopologyChanged := do
  let rev ← slotRequired (.missingBody 1) (s .rev)
  let reason ← slotRequired (.missingBody 2) (s .reason)
  let added ← slotRequired (.missingBody 3) (s .added)
  let removed ← slotRequired (.missingBody 4) (s .removed)
  .ok ⟨rev, reason, added, removed⟩

def decode : Bytes → Except ChangeError TopologyChanged := table.decode complete

def slots (change : TopologyChanged) : ∀ k, Option (Value k)
  | .rev => some change.rev
  | .reason => some change.reason
  | .added => some change.added
  | .removed => some change.removed

theorem complete_ok (s : table.Slots) (change : TopologyChanged) :
    complete s = .ok change ↔ s = change.slots ∧ True := by
  simp only [complete, bind_ok, slotRequired_ok, and_true]
  constructor
  · rintro ⟨rev, h₁, reason, h₂, added, h₃, removed, h₄, ⟨⟩⟩
    funext k
    cases k <;> assumption
  · rintro rfl
    exact ⟨_, rfl, _, rfl, _, rfl, _, rfl, rfl⟩

def width : TopologyKey → ℕ
  | .rev => 6
  | .reason => 3
  | .added | .removed => 4

theorem laws : PlainLaws codec slots (fun _ => True) (1 + (TopologyKey.all.map width).sum) encode decode := by
  refine plainBody (fun _ => rfl) (fun _ => rfl) (fun change k v _ => ?_) complete_ok (fun change k v _ => ?_)
  · cases k with
    | rev | added | removed => trivial
    | reason => exact Codec.closed_may ChangeError.unknownReason (show TopologyChangeReason from v)
  · cases k with
    | rev => exact Nat.add_le_add_left (ofNat_length_u32 v) 1
    | reason => exact Nat.add_le_add_left (ofNat_length_u8 v.byte) 1
    | added | removed => exact Nat.add_le_add_left (ofNat_length_u16 v) 1

end TopologyChanged

inductive Time
  | accepted
  | rejected
  | unauthorised
  | needsButton
  deriving DecidableEq

namespace Time

def byte : Time → UInt8
  | accepted => 1
  | rejected => 2
  | unauthorised => 3
  | needsButton => 4

def all : List Time := [accepted, rejected, unauthorised, needsButton]

theorem found (a : Time) : (all.find? fun b => b.byte == a.byte) = some a := by cases a <;> rfl

instance : Numbered Time := ⟨all, byte, found⟩

end Time

inductive TimeKey
  | at'
  deriving DecidableEq

namespace TimeKey

def all : List TimeKey := [at']

theorem keyList : KeyList all := ⟨by decide, fun k => by cases k; decide, by decide⟩

instance : Listed TimeKey := ⟨all, keyList⟩

end TimeKey

inductive TimeAckKey
  | outcome
  | at'
  deriving DecidableEq

namespace TimeAckKey

def all : List TimeAckKey := [outcome, at']

theorem keyList : KeyList all := ⟨by decide, fun k => by cases k <;> decide, by decide⟩

instance : Listed TimeAckKey := ⟨all, keyList⟩

end TimeAckKey

inductive TimeBodyKey
  | operation (key : TimeKey)
  | ack (key : TimeAckKey)
  deriving DecidableEq

inductive TimeError
  | missing (key : TimeBodyKey)
  | duplicate (key : TimeBodyKey)
  | unknownOutcome (number : UInt8)
  | acceptedWithoutClock
  | cbor (why : CborError)
  deriving DecidableEq

instance : FromCbor TimeError := ⟨.cbor⟩

structure TimeOperation where
  at' : UInt64
  deriving DecidableEq

namespace TimeOperation

def Value : TimeKey → Type
  | .at' => UInt64

def codec : ∀ k, Codec TimeError (Value k)
  | .at' => .word

def table : Table TimeError TimeKey := .ofCodecs codec fun k => .duplicate (.operation k)

def entries (op : TimeOperation) : List (TimeKey × List Call) := [(.at', [.u64 op.at'])]

def encode (op : TimeOperation) : ℕ → Except TimeError Bytes := encodeBody (writeBody 1 op.entries)

def complete (s : table.Slots) : Except TimeError TimeOperation := do
  let at' ← slotRequired (.missing (.operation .at')) (s .at')
  .ok ⟨at'⟩

def decode : Bytes → Except TimeError TimeOperation := table.decode complete

def slots (op : TimeOperation) : ∀ k, Option (Value k)
  | .at' => some op.at'

theorem complete_ok (s : table.Slots) (op : TimeOperation) : complete s = .ok op ↔ s = op.slots ∧ True := by
  simp only [complete, bind_ok, slotRequired_ok, and_true]
  constructor
  · rintro ⟨at', h, ⟨⟩⟩
    funext k
    cases k
    exact h
  · rintro rfl
    exact ⟨_, rfl, rfl⟩

def maxTimeOperationBytes : ℕ := 11

theorem laws : PlainLaws codec slots (fun _ => True) maxTimeOperationBytes encode decode := by
  have hwidth : ∀ (op : TimeOperation) k a, op.slots k = some a → 1 + ((codec k).spell a).spelling.length ≤
      (fun _ => 10 : TimeKey → ℕ) k := by
    intro op k v _
    cases k
    exact Nat.add_le_add_left (headBytes_le .unsigned).1 1
  refine plainBody (fun _ => rfl) (fun _ => rfl) (fun op k v _ => ?_) complete_ok hwidth
  cases k
  trivial

end TimeOperation

structure TimeAck where
  outcome : Time
  at' : Option UInt64
  clocked : ¬(outcome = .accepted ∧ at' = none)

namespace TimeAck

def new (outcome : Time) (at' : Option UInt64) : Except TimeError TimeAck :=
  if h : outcome = .accepted ∧ at' = none then .error .acceptedWithoutClock else .ok ⟨outcome, at', h⟩

theorem new_ok {outcome : Time} {at' : Option UInt64} {ack : TimeAck} :
    new outcome at' = .ok ack ↔ outcome = ack.outcome ∧ at' = ack.at' := by
  obtain ⟨outcome', clock', hclocked⟩ := ack
  unfold new
  constructor
  · intro h
    split_ifs at h
    cases h
    exact ⟨rfl, rfl⟩
  · rintro ⟨rfl, rfl⟩
    exact dif_neg hclocked

def Value : TimeAckKey → Type
  | .outcome => Time
  | .at' => UInt64

def codec : ∀ k, Codec TimeError (Value k)
  | .outcome => (Codec.closed .unknownOutcome : Codec TimeError Time)
  | .at' => .word

def table : Table TimeError TimeAckKey := .ofCodecs codec fun k => .duplicate (.ack k)

def entries (ack : TimeAck) : List (TimeAckKey × List Call) :=
  (.outcome, [.u64 ack.outcome.byte.toUInt64]) :: (ack.at'.map fun at' => (.at', [.u64 at'])).toList

def encode (ack : TimeAck) : ℕ → Except TimeError Bytes :=
  encodeBody (writeBody (if ack.at'.isSome then 2 else 1) ack.entries)

def complete (s : table.Slots) : Except TimeError TimeAck := do
  let outcome ← slotRequired (.missing (.ack .outcome)) (s .outcome)
  new outcome (s .at')

def decode : Bytes → Except TimeError TimeAck := table.decode complete

def slots (ack : TimeAck) : ∀ k, Option (Value k)
  | .outcome => some ack.outcome
  | .at' => ack.at'

theorem complete_ok (s : table.Slots) (ack : TimeAck) : complete s = .ok ack ↔ s = ack.slots ∧ True := by
  simp only [complete, bind_ok, slotRequired_ok, and_true]
  constructor
  · rintro ⟨outcome, h, hnew⟩
    obtain ⟨rfl, hclock⟩ := new_ok.mp hnew
    funext k
    cases k with
    | outcome => exact h
    | at' => exact hclock
  · rintro rfl
    exact ⟨_, rfl, new_ok.mpr ⟨rfl, rfl⟩⟩

/-- The bytes of a key and its value, at the most, where the outcome's number is a small one. -/
def width : TimeAckKey → ℕ
  | .outcome => 2
  | .at' => 10

def maxTimeAckBytes : ℕ := 13

theorem laws : PlainLaws codec slots (fun _ => True) maxTimeAckBytes encode decode := by
  have hwidth : ∀ (ack : TimeAck) k a, ack.slots k = some a → 1 + ((codec k).spell a).spelling.length ≤ width k := by
    intro ack k v _
    cases k with
    | outcome =>
      change 1 + (Item.ofNat (Time.byte v).toUInt64.toNat).spelling.length ≤ 2
      cases v <;> decide
    | at' => exact Nat.add_le_add_left (headBytes_le .unsigned).1 1
  refine plainBody (fun ack => ?_) (fun ack => ?_) (fun ack k v _ => ?_) complete_ok hwidth
  · obtain ⟨outcome, _ | clock, hclocked⟩ := ack <;> rfl
  · obtain ⟨outcome, _ | clock, hclocked⟩ := ack <;> rfl
  · cases k with
    | outcome => exact Codec.closed_may TimeError.unknownOutcome (show Time from v)
    | at' => trivial

end TimeAck

inductive ScanRequestKey
  | refresh
  deriving DecidableEq

namespace ScanRequestKey

def all : List ScanRequestKey := [refresh]

theorem keyList : KeyList all := ⟨by decide, fun k => by cases k; decide, by decide⟩

instance : Listed ScanRequestKey := ⟨all, keyList⟩

end ScanRequestKey

structure ScanRequest where
  refresh : Bool
  deriving DecidableEq

namespace ScanRequest

def Value : ScanRequestKey → Type
  | .refresh => Bool

def codec : ∀ k, Codec Wifi.WifiError (Value k)
  | .refresh => .bool

def table : Table Wifi.WifiError ScanRequestKey := .ofCodecs codec fun _ => .duplicate .refresh

def entries (asked : ScanRequest) : List (ScanRequestKey × List Call) := [(.refresh, [.bool asked.refresh])]

def encode (asked : ScanRequest) : ℕ → Except Wifi.WifiError Bytes := encodeBody (writeBody 1 asked.entries)

def complete (s : table.Slots) : Except Wifi.WifiError ScanRequest := do
  let refresh ← slotRequired (.missing .refresh) (s .refresh)
  .ok ⟨refresh⟩

def decode : Bytes → Except Wifi.WifiError ScanRequest := table.decode complete

def slots (asked : ScanRequest) : ∀ k, Option (Value k)
  | .refresh => some asked.refresh

theorem complete_ok (s : table.Slots) (asked : ScanRequest) : complete s = .ok asked ↔ s = asked.slots ∧ True := by
  simp only [complete, bind_ok, slotRequired_ok, and_true]
  constructor
  · rintro ⟨refresh, h, ⟨⟩⟩
    funext k
    cases k
    exact h
  · rintro rfl
    exact ⟨_, rfl, rfl⟩

def width : ScanRequestKey → ℕ
  | .refresh => 2

theorem laws : PlainLaws codec slots (fun _ => True) (1 + (ScanRequestKey.all.map width).sum) encode decode := by
  refine plainBody (fun _ => rfl) (fun _ => rfl) (fun asked k v _ => ?_) complete_ok (fun asked k v _ => ?_)
  · cases k
    trivial
  · cases k
    exact Nat.le_refl 2

end ScanRequest

def wearsOne : MessageType → Bool
  | .goodbye | .goodbyeResponse | .wifiStatus | .clients => true
  | _ => false

inductive EmptyBodyError
  | notAnEmptyInnerBody (kind : MessageType)
  | tooLargeToWrite
  | cbor (why : CborError)
  deriving DecidableEq

instance : FromCbor EmptyBodyError := ⟨.cbor⟩

structure EmptyBody where
  deriving DecidableEq

namespace EmptyBody

def codec (k : NoKey) : Codec EmptyBodyError Unit := nomatch k

def table : Table EmptyBodyError NoKey := .ofCodecs codec nofun

def entries : List (NoKey × List Call) := []

def encode (kind : MessageType) (_ : EmptyBody) (dst : ℕ) : Except EmptyBodyError Bytes :=
  if wearsOne kind then
    (encodeBody (writeBody 0 entries) dst).mapError fun _ : EmptyBodyError => .tooLargeToWrite
  else .error (.notAnEmptyInnerBody kind)

def decode (kind : MessageType) (payload : Bytes) : Except EmptyBodyError EmptyBody :=
  if wearsOne kind then table.decode (fun _ => .ok ⟨⟩) payload else .error (.notAnEmptyInnerBody kind)

def slots (_ : EmptyBody) (k : NoKey) : Option Unit := nomatch k

theorem complete_ok (s : table.Slots) (body : EmptyBody) :
    (.ok ⟨⟩ : Except EmptyBodyError EmptyBody) = .ok body ↔ s = body.slots ∧ True := by
  refine iff_of_true rfl ⟨?_, trivial⟩
  funext k
  cases k

theorem laws (kind : MessageType) :
    PlainLaws codec slots (fun _ => wearsOne kind) 1 (encode kind) (decode kind) := by
  have hplain : PlainLaws codec slots (fun _ => True) 1 (fun _ => encodeBody (writeBody 0 entries))
      (table.decode fun _ => .ok ⟨⟩) :=
    plainBody (fun _ => rfl) (fun _ => rfl) (fun _ k _ _ => nomatch k) complete_ok
      (fun _ k _ _ => nomatch k : ∀ _ (k : NoKey) _ _, _ ≤ (fun _ => 0 : NoKey → ℕ) k)
  constructor
  · intro body dst hkind hdst
    obtain ⟨out, hencode, hdecode⟩ := hplain.trip body dst trivial hdst
    refine ⟨out, ?_, ?_⟩
    · rw [encode, if_pos hkind, hencode]
      rfl
    · rwa [decode, if_pos hkind]
  · intro payload body
    unfold decode
    split_ifs with hkind
    · rw [hplain.exact, true_and, and_iff_right hkind]
    · simp [hkind]

end EmptyBody

structure NonZeroU64 where
  get : UInt64
  nonzero : get ≠ 0

inductive WindowKey
  | pairingRevision
  | remainingMs
  deriving DecidableEq

namespace WindowKey

def all : List WindowKey := [pairingRevision, remainingMs]

theorem keyList : KeyList all := ⟨by decide, fun k => by cases k <;> decide, by decide⟩

instance : Listed WindowKey := ⟨all, keyList⟩

def field : WindowKey → LinkField
  | pairingRevision => .pairingRevision
  | remainingMs => .remainingMs

end WindowKey

namespace NonZeroU64

def new (raw : UInt64) : Except LinkError NonZeroU64 :=
  if h : raw = 0 then .error .zeroPairingRevision else .ok ⟨raw, h⟩

theorem new_get (revision : NonZeroU64) : new revision.get = .ok revision := dif_neg revision.nonzero

theorem get_new (raw : UInt64) (revision : NonZeroU64) (h : new raw = .ok revision) : revision.get = raw := by
  unfold new at h
  split_ifs at h
  cases h
  rfl

end NonZeroU64

def revisionCodec : Codec LinkError NonZeroU64 := Codec.word.checked NonZeroU64.new NonZeroU64.get NonZeroU64.get_new

theorem revision_may (revision : NonZeroU64) : revisionCodec.may revision := ⟨trivial, revision.new_get⟩

def maxPairingWindowMs : UInt32 := 120000

structure PairingWindowNotice where
  revision : NonZeroU64
  remainingMs : UInt32
  short : remainingMs ≤ maxPairingWindowMs

namespace PairingWindowNotice

def new (revision : NonZeroU64) (remainingMs : UInt32) : Except LinkError PairingWindowNotice :=
  if h : remainingMs ≤ maxPairingWindowMs then .ok ⟨revision, remainingMs, h⟩
  else .error (.pairingWindowTooLong remainingMs)

theorem new_ok {revision : NonZeroU64} {remainingMs : UInt32} {notice : PairingWindowNotice} :
    new revision remainingMs = .ok notice ↔ revision = notice.revision ∧ remainingMs = notice.remainingMs := by
  obtain ⟨revision', remaining', hshort⟩ := notice
  unfold new
  constructor
  · intro h
    split_ifs at h
    cases h
    exact ⟨rfl, rfl⟩
  · rintro ⟨rfl, rfl⟩
    exact dif_pos hshort

def Value : WindowKey → Type
  | .pairingRevision => NonZeroU64
  | .remainingMs => UInt32

def codec : ∀ k, Codec LinkError (Value k)
  | .pairingRevision => revisionCodec
  | .remainingMs => .u32

def table : Table LinkError WindowKey := .ofCodecs codec fun k => .duplicate k.field

def entries (notice : PairingWindowNotice) : List (WindowKey × List Call) :=
  [(.pairingRevision, [.u64 notice.revision.get]), (.remainingMs, [.u64 notice.remainingMs.toUInt64])]

def write (notice : PairingWindowNotice) (header : LinkHeader) (dst : ℕ) : Except LinkError Bytes :=
  encodeBody (linkBody header 2 notice.entries) dst

def ofSlots (s : table.Slots) : Except LinkError PairingWindowNotice := do
  let revision ← required (s .pairingRevision) .pairingRevision
  let remainingMs ← required (s .remainingMs) .remainingMs
  new revision remainingMs

def decode (envelope : LinkEnvelope) : Except LinkError PairingWindowNotice := do
  let s ← bodySlots table envelope
  ofSlots s

def slots (notice : PairingWindowNotice) : ∀ k, Option (Value k)
  | .pairingRevision => some notice.revision
  | .remainingMs => some notice.remainingMs

theorem ofSlots_ok (s : table.Slots) (notice : PairingWindowNotice) :
    ofSlots s = .ok notice ↔ s = notice.slots ∧ True := by
  simp only [ofSlots, bind_ok, required_ok, and_true]
  constructor
  · rintro ⟨revision, h₁, remaining, h₂, hnew⟩
    obtain ⟨rfl, rfl⟩ := new_ok.mp hnew
    funext k
    cases k with
    | pairingRevision => exact h₁
    | remainingMs => exact h₂
  · rintro rfl
    exact ⟨_, rfl, _, rfl, new_ok.mpr ⟨rfl, rfl⟩⟩

theorem maySend (notice : PairingWindowNotice) : MaySend codec notice.slots := by
  intro k a _
  cases k with
  | pairingRevision => exact revision_may a
  | remainingMs => trivial

theorem laws : LinkLaws (fun _ => True) (fun _ => True) (fun _ => True) Eq write decode table.Known [1, 2] := by
  apply codecLaws (fun _ => rfl) (fun v header dst out => (and_iff_right trivial).symm) (fun _ => rfl)
    (fun v _ => v.maySend) ofSlots_ok (fun _ _ => trivial) (fun _ _ _ _ => trivial) [.pairingRevision, .remainingMs]
  intro v k _
  cases k with
  | pairingRevision => rfl
  | remainingMs => rfl

end PairingWindowNotice

structure PairingWindowAck where
  revision : NonZeroU64

namespace PairingWindowAck

def codec (_ : OneKey) : Codec LinkError NonZeroU64 := revisionCodec

def table : Table LinkError OneKey := .ofCodecs codec fun _ => .duplicate .pairingRevision

def entries (ack : PairingWindowAck) : List (OneKey × List Call) := [(.only, [.u64 ack.revision.get])]

def write (ack : PairingWindowAck) (header : LinkHeader) (dst : ℕ) : Except LinkError Bytes :=
  encodeBody (linkBody header 1 ack.entries) dst

def ofSlots (s : table.Slots) : Except LinkError PairingWindowAck := do
  let revision ← required (s .only) .pairingRevision
  .ok ⟨revision⟩

def decode (envelope : LinkEnvelope) : Except LinkError PairingWindowAck := do
  let s ← bodySlots table envelope
  ofSlots s

def slots (ack : PairingWindowAck) : OneKey → Option NonZeroU64 := fun _ => some ack.revision

theorem ofSlots_ok (s : table.Slots) (ack : PairingWindowAck) : ofSlots s = .ok ack ↔ s = ack.slots ∧ True := by
  simp only [ofSlots, bind_ok, required_ok, and_true]
  constructor
  · rintro ⟨revision, h, ⟨⟩⟩
    funext k
    cases k
    exact h
  · rintro rfl
    exact ⟨_, rfl, rfl⟩

theorem laws : LinkLaws (fun _ => True) (fun _ => True) (fun _ => True) Eq write decode table.Known [1] := by
  apply codecLaws (fun _ => rfl) (fun v header dst out => (and_iff_right trivial).symm) (fun _ => rfl)
    (fun v _ k a _ => revision_may a) ofSlots_ok (fun _ _ => trivial) (fun _ _ _ _ => trivial) [.only]
  intro v k _
  cases k
  rfl

end PairingWindowAck

/-- Every request, acknowledgement and notice of these is read out of exactly the bytes in which it stands, and read
again as it was written; and so are a pairing window's report and its acknowledgement, whatever frame they come in. -/
theorem requests_lawful :
    PlainLaws Log.Subscribe.codec Log.Subscribe.slots (fun asked => asked.replay ≠ .from 0) 11 Log.Subscribe.encode
      Log.Subscribe.decode ∧
    PlainLaws Log.SubscribeAck.codec Log.SubscribeAck.slots (fun _ => True) 33 Log.SubscribeAck.encode
      Log.SubscribeAck.decode ∧
    PlainLaws Log.ReadLog.codec Log.ReadLog.slots (fun _ => True) 15 Log.ReadLog.encode Log.ReadLog.decode ∧
    PlainLaws ReadInventory.codec ReadInventory.slots (fun _ => True) 18 ReadInventory.encode ReadInventory.decode ∧
    PlainLaws GetConfigRequest.codec GetConfigRequest.slots (fun _ => True) GetConfigRequest.maxGetConfigBytes
      GetConfigRequest.encode GetConfigRequest.decode ∧
    PlainLaws TopologyChanged.codec TopologyChanged.slots (fun _ => True) 18 TopologyChanged.encode
      TopologyChanged.decode ∧
    PlainLaws TimeOperation.codec TimeOperation.slots (fun _ => True) TimeOperation.maxTimeOperationBytes
      TimeOperation.encode TimeOperation.decode ∧
    PlainLaws TimeAck.codec TimeAck.slots (fun _ => True) TimeAck.maxTimeAckBytes TimeAck.encode TimeAck.decode ∧
    PlainLaws ScanRequest.codec ScanRequest.slots (fun _ => True) 3 ScanRequest.encode ScanRequest.decode ∧
    (∀ kind, PlainLaws EmptyBody.codec EmptyBody.slots (fun _ => wearsOne kind) 1 (EmptyBody.encode kind)
      (EmptyBody.decode kind)) ∧
    LinkLaws (fun _ => True) (fun _ => True) (fun _ => True) Eq PairingWindowNotice.write PairingWindowNotice.decode
      PairingWindowNotice.table.Known [1, 2] ∧
    LinkLaws (fun _ => True) (fun _ => True) (fun _ => True) Eq PairingWindowAck.write PairingWindowAck.decode
      PairingWindowAck.table.Known [1] :=
  ⟨Log.Subscribe.laws, Log.SubscribeAck.laws, Log.ReadLog.laws, ReadInventory.laws, GetConfigRequest.laws,
    TopologyChanged.laws, TimeOperation.laws, TimeAck.laws, ScanRequest.laws, EmptyBody.laws,
    PairingWindowNotice.laws, PairingWindowAck.laws⟩

end Km43.Requests
