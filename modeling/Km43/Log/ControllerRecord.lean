import Km43.Pairing.Answer

namespace Km43.Log

open Library Identity Cbor CborReader CborWriter Link Handshake

abbrev EventKind := UInt16

namespace EventKind

def timeSet : EventKind := 0x0604
def recordFailedCrc : EventKind := 0x0702
def commsLinkLost : EventKind := 0x0801
def commsPowerCycled : EventKind := 0x0802
def commsUnrecoverable : EventKind := 0x0803
def sessionsShedForBackpressure : EventKind := 0x0804
def commsBootNoise : EventKind := 0x0805
def commsHeldDown : EventKind := 0x0807

end EventKind

inductive TimeSource
  | client
  | ntpViaComms
  deriving DecidableEq

namespace TimeSource

def all : List TimeSource := [client, ntpViaComms]

def byte : TimeSource → UInt8
  | client => 1
  | ntpViaComms => 2

theorem found (s : TimeSource) : (all.find? fun t => t.byte == s.byte) = some s := by cases s <;> decide

instance : Numbered TimeSource := ⟨all, byte, found⟩

end TimeSource

inductive HeldDownReason
  | noDeviceId
  | revisionsSpent
  deriving DecidableEq

namespace HeldDownReason

def all : List HeldDownReason := [noDeviceId, revisionsSpent]

def byte : HeldDownReason → UInt8
  | noDeviceId => 0
  | revisionsSpent => 1

theorem found (r : HeldDownReason) : (all.find? fun q => q.byte == r.byte) = some r := by cases r <;> decide

instance : Numbered HeldDownReason := ⟨all, byte, found⟩

end HeldDownReason

inductive ControllerRecordError
  | unknownKind (kind : EventKind)
  | missingKey (key : UInt8)
  | duplicateKey (key : UInt8)
  | unknownSource (value : UInt8)
  | unknownReason (value : UInt8)
  | zeroCount
  | cbor (why : CborError)
  deriving DecidableEq

instance : FromCbor ControllerRecordError := ⟨.cbor⟩

inductive ControllerRecord
  | timeSet (old : Option UInt64) (new : UInt64) (source : TimeSource)
  | recordFailedCrc (count : NonZeroU32)
  | commsLinkLost
  | commsPowerCycled (count : NonZeroU32)
  | commsUnrecoverable (railOn : Bool)
  | sessionsShed (count : NonZeroU32)
  | commsBootNoise (count : UInt32)
  | commsHeldDown (reason : HeldDownReason)
  deriving DecidableEq

def controllerRecordMaxBytes : ℕ := 23

structure RecordSlots where
  old : Option UInt64
  new : Option UInt64
  source : Option TimeSource
  count : Option UInt32
  railOn : Option Bool
  reason : Option HeldDownReason

def nonzero (count : Option UInt32) : Except ControllerRecordError NonZeroU32 := do
  let count ← slotRequired (.missingKey 1) count
  match NonZeroU32.new count with
  | some count => .ok count
  | none => .error .zeroCount

namespace RecordSlots

def empty : RecordSlots := ⟨none, none, none, none, none, none⟩

def step (kind : EventKind) (n : ℤ) (s : RecordSlots) : Read ControllerRecordError RecordSlots :=
  if kind = .timeSet ∧ n = 1 then
    slotField (UInt64.ofNat <$> ask u64) (.duplicateKey 1) s.old fun slot => { s with old := slot }
  else if kind = .timeSet ∧ n = 2 then
    slotField (UInt64.ofNat <$> ask u64) (.duplicateKey 2) s.new fun slot => { s with new := slot }
  else if kind = .timeSet ∧ n = 3 then
    slotField (checkedRead (ask u8) (Numbered.known .unknownSource)) (.duplicateKey 3) s.source
      fun slot => { s with source := slot }
  else if kind = .commsUnrecoverable ∧ n = 1 then
    slotField (ask CborReader.bool) (.duplicateKey 1) s.railOn fun slot => { s with railOn := slot }
  else if kind = .commsHeldDown ∧ n = 1 then
    slotField (checkedRead (ask u8) (Numbered.known .unknownReason)) (.duplicateKey 1) s.reason
      fun slot => { s with reason := slot }
  else if (kind = .recordFailedCrc ∨ kind = .commsPowerCycled ∨ kind = .sessionsShedForBackpressure ∨
      kind = .commsBootNoise) ∧ n = 1 then
    slotField (ask u32) (.duplicateKey 1) s.count fun slot => { s with count := slot }
  else passOver s

def read (kind : EventKind) : Read ControllerRecordError RecordSlots := do
  let pairs ← ask map
  pairLoop (step kind) pairs empty

def record (kind : EventKind) (s : RecordSlots) : Except ControllerRecordError ControllerRecord :=
  if kind = .timeSet then do
    let new ← slotRequired (.missingKey 2) s.new
    let source ← slotRequired (.missingKey 3) s.source
    .ok (.timeSet s.old new source)
  else if kind = .commsLinkLost then .ok .commsLinkLost
  else if kind = .commsUnrecoverable then do
    let railOn ← slotRequired (.missingKey 1) s.railOn
    .ok (.commsUnrecoverable railOn)
  else if kind = .recordFailedCrc then do
    let count ← nonzero s.count
    .ok (.recordFailedCrc count)
  else if kind = .commsPowerCycled then do
    let count ← nonzero s.count
    .ok (.commsPowerCycled count)
  else if kind = .sessionsShedForBackpressure then do
    let count ← nonzero s.count
    .ok (.sessionsShed count)
  else if kind = .commsBootNoise then do
    let count ← slotRequired (.missingKey 1) s.count
    .ok (.commsBootNoise count)
  else if kind = .commsHeldDown then do
    let reason ← slotRequired (.missingKey 1) s.reason
    .ok (.commsHeldDown reason)
  else .error (.unknownKind kind)

theorem step_unknown {kind : EventKind} {n : ℤ} (h : n ≠ 1) (hkind : kind ≠ .timeSet ∨ n ≠ 2 ∧ n ≠ 3)
    (s : RecordSlots) : step kind n s = passOver s := by
  rcases hkind with hkind | ⟨h₂, h₃⟩
  · simp only [step, h, hkind, and_false, false_and, if_false]
  · simp only [step, h, h₂, h₃, and_false, if_false]

end RecordSlots

namespace ControllerRecord

def kind : ControllerRecord → EventKind
  | timeSet .. => .timeSet
  | recordFailedCrc _ => .recordFailedCrc
  | commsLinkLost => .commsLinkLost
  | commsPowerCycled _ => .commsPowerCycled
  | commsUnrecoverable _ => .commsUnrecoverable
  | sessionsShed _ => .sessionsShedForBackpressure
  | commsBootNoise _ => .commsBootNoise
  | commsHeldDown _ => .commsHeldDown

def encodeInto : ControllerRecord → Encoder ControllerRecordError Unit
  | timeSet old now source => do
    tell (CborWriter.map (if old.isSome then 3 else 2))
    Cbor.whenSome old fun old => do
      tell (CborWriter.key 1)
      tell (CborWriter.u64 old.toNat)
    tell (CborWriter.key 2)
    tell (CborWriter.u64 now.toNat)
    tell (CborWriter.key 3)
    tell (CborWriter.u64 source.byte.toNat)
  | commsLinkLost => tell (CborWriter.map 0)
  | recordFailedCrc count | commsPowerCycled count | sessionsShed count => do
    tell (CborWriter.map 1)
    tell (CborWriter.key 1)
    tell (CborWriter.u64 count.get.toNat)
  | commsUnrecoverable railOn => do
    tell (CborWriter.map 1)
    tell (CborWriter.key 1)
    tell (CborWriter.bool railOn)
  | commsBootNoise count => do
    tell (CborWriter.map 1)
    tell (CborWriter.key 1)
    tell (CborWriter.u64 count.toNat)
  | commsHeldDown reason => do
    tell (CborWriter.map 1)
    tell (CborWriter.key 1)
    tell (CborWriter.u64 reason.byte.toNat)

def encode (v : ControllerRecord) (dst : ℕ) : Except ControllerRecordError Bytes := encodeBody v.encodeInto dst

def decode (kind : EventKind) (payload : Bytes) : Except ControllerRecordError ControllerRecord := do
  let s ← decodeBody (RecordSlots.read kind) payload
  s.record kind

end ControllerRecord

def Body (payload : Bytes) (P : List (Key × Item) → Prop) : Prop :=
  ∃ w ps, (Item.map w ps).Legal maxDepth ∧ (Item.map w ps).spelling = payload ∧ Keyed ps ∧ P ps

theorem Body.congr {payload : Bytes} {P Q : List (Key × Item) → Prop} (h : ∀ ps, P ps ↔ Q ps) :
    Body payload P ↔ Body payload Q := by
  unfold Body
  simp only [h]

inductive TimeKey
  | old
  | new
  | source
  deriving DecidableEq

namespace TimeKey

def all : List TimeKey := [old, new, source]

theorem keyList : KeyList all := ⟨by decide, fun k => by cases k <;> decide, by decide⟩

instance : Listed TimeKey := ⟨all, keyList⟩

def Value : TimeKey → Type
  | old | new => UInt64
  | source => TimeSource

def codec : ∀ k, Codec ControllerRecordError (Value k)
  | old => .word
  | new => .word
  | source => (Codec.closed .unknownSource : Codec ControllerRecordError TimeSource)

def table : Table ControllerRecordError TimeKey := .ofCodecs codec fun k => .duplicateKey (UInt8.ofNat (Listed.number k))

def slots (old : Option UInt64) (now : UInt64) (source : TimeSource) : ∀ k, Option (Value k)
  | .old => old
  | .new => some now
  | .source => some source

def width : TimeKey → ℕ
  | old | new => 10
  | source => 2

def fill (s : table.Slots) : RecordSlots := ⟨s .old, s .new, s .source, none, none, none⟩

theorem records : table.Records fill (RecordSlots.step .timeSet) := by
  constructor
  · intro k s
    cases k <;> rfl
  · intro n s hn
    have hne : ∀ k : TimeKey, n ≠ Listed.number k := fun k h => hn ⟨k, h⟩
    exact RecordSlots.step_unknown (hne .old) (.inr ⟨hne .new, hne .source⟩) _

end TimeKey

namespace NoKey

def codec (_ : NoKey) : Codec ControllerRecordError UInt32 := .u32

def table : Table ControllerRecordError NoKey := .ofCodecs codec fun _ => .duplicateKey 0

def fill (_ : table.Slots) : RecordSlots := .empty

theorem records {kind : EventKind} (h : ∀ n s, RecordSlots.step kind n s = passOver s) :
    table.Records fill (RecordSlots.step kind) := by
  constructor
  · intro k
    cases k
  · intro n s _
    exact h n _

end NoKey

namespace ControllerRecord

variable {α : Type}

def oneTable (c : Codec ControllerRecordError α) : Table ControllerRecordError OneKey :=
  .ofCodecs (fun _ => c) fun _ => .duplicateKey 1

def Fills (c : Codec ControllerRecordError α) (fill : Option α → RecordSlots) (kind : EventKind) : Prop :=
  (oneTable c).Records (fun s => fill (s .only)) (RecordSlots.step kind)

theorem fills {c : Codec ControllerRecordError α} {fill : Option α → RecordSlots} {kind : EventKind}
    (hkind : kind ≠ .timeSet) (hone : ∀ slot, RecordSlots.step kind 1 (fill slot) =
      slotField c.read (.duplicateKey 1) slot fill) : Fills c fill kind := by
  constructor
  · intro k s
    cases k
    have hfill : (fun slot => fill (Function.update s OneKey.only slot .only)) = fill := by
      funext slot
      rw [Function.update_self]
    exact (hone (s .only)).trans (congrArg _ hfill.symm)
  · intro n s hn
    exact RecordSlots.step_unknown (fun h => hn ⟨.only, h⟩) (.inl hkind) _

def railSlot (slot : Option Bool) : RecordSlots := { RecordSlots.empty with railOn := slot }

def reasonSlot (slot : Option HeldDownReason) : RecordSlots := { RecordSlots.empty with reason := slot }

def countSlot (slot : Option UInt32) : RecordSlots := { RecordSlots.empty with count := slot }

theorem rail_fills : Fills .bool railSlot .commsUnrecoverable := fills (by decide) fun _ => rfl

theorem reason_fills : Fills (.closed .unknownReason) reasonSlot .commsHeldDown := fills (by decide) fun _ => rfl

theorem crc_fills : Fills .u32 countSlot .recordFailedCrc := fills (by decide) fun _ => rfl

theorem power_fills : Fills .u32 countSlot .commsPowerCycled := fills (by decide) fun _ => rfl

theorem shed_fills : Fills .u32 countSlot .sessionsShedForBackpressure := fills (by decide) fun _ => rfl

theorem noise_fills : Fills .u32 countSlot .commsBootNoise := fills (by decide) fun _ => rfl

def Shown : ControllerRecord → List (Key × Item) → Prop
  | timeSet old now source, ps => Shows ps 1 u64Of old ∧ Holds ps 2 u64Of now ∧
      Holds ps 3 (fun i => (u8Of i).bind Numbered.tryFrom) source
  | commsLinkLost, _ => True
  | recordFailedCrc count, ps | commsPowerCycled count, ps | sessionsShed count, ps => Holds ps 1 nonZeroItem count
  | commsUnrecoverable railOn, ps => Holds ps 1 Item.bool? railOn
  | commsBootNoise count, ps => Holds ps 1 u32Of count
  | commsHeldDown reason, ps => Holds ps 1 (fun i => (u8Of i).bind Numbered.tryFrom) reason

section

variable {κ : Type} [DecidableEq κ] [BodyKey κ] {t : Table ControllerRecordError κ} {into : t.Slots → RecordSlots}
  {kind : EventKind} {payload : Bytes}

theorem decode_table (h : t.Records into (RecordSlots.step kind)) (hempty : RecordSlots.empty = into t.none) :
    decode kind payload = t.decode (fun s => (into s).record kind) payload := by
  unfold decode RecordSlots.read
  rw [h.body hempty payload, Table.decode]
  cases decodeBody t.slots payload <;> rfl

end

variable {payload : Bytes} {v : ControllerRecord}

theorem one_decode {c : Codec ControllerRecordError α} {fill : Option α → RecordSlots} {kind : EventKind} {a : α}
    (h : Fills c fill kind) (hempty : RecordSlots.empty = fill none)
    (hrecord : ∀ slot, (fill slot).record kind = .ok v ↔ slot = some a) :
    decode kind payload = .ok v ↔ Body payload fun ps => Holds ps 1 c.item a := by
  rw [decode_table h hempty]
  have hjudge : ∀ s : (oneTable c).Slots, (fill (s .only)).record kind = .ok v ↔ s = fun _ => some a := by
    intro s
    refine (hrecord (s .only)).trans ?_
    constructor
    · intro hs
      funext k
      cases k
      exact hs
    · rintro rfl
      rfl
  refine ((codecs_decode (fun _ : OneKey => c) fun _ => .duplicateKey 1).value hjudge).trans ?_
  refine Table.stands_iff fun w ps _ => ?_
  constructor
  · intro hslots
    exact (Table.slotOf_holds rfl).mp (hslots .only)
  · intro hholds k
    cases k
    exact (Table.slotOf_holds rfl).mpr hholds

theorem closed_decode [Numbered α] {why : UInt8 → ControllerRecordError} {fill : Option α → RecordSlots}
    {kind : EventKind} {a : α} (h : Fills (.closed why) fill kind) (hempty : RecordSlots.empty = fill none)
    (hrecord : ∀ slot, (fill slot).record kind = .ok v ↔ slot = some a) :
    decode kind payload = .ok v ↔ Body payload fun ps => Holds ps 1 (fun i => (u8Of i).bind Numbered.tryFrom) a := by
  refine (one_decode h hempty hrecord).trans (Body.congr fun ps => holds_congr fun i => ?_)
  change checkedItem u8Of (Numbered.known why) i = some a ↔ _
  rw [numbered_item]

theorem nonzero_ok {slot : Option UInt32} {count : NonZeroU32} : nonzero slot = .ok count ↔ slot = some count.get := by
  rw [nonzero, bind_ok, ← nonZero_bind, Option.bind_eq_some_iff]
  apply exists_congr
  intro raw
  rw [slotRequired_ok]
  apply and_congr_right
  intro _
  cases NonZeroU32.new raw with
  | none => simp
  | some value => simp

theorem time_decode {old : Option UInt64} {now : UInt64} {source : TimeSource} :
    decode .timeSet payload = .ok (.timeSet old now source) ↔ Body payload (Shown (.timeSet old now source)) := by
  rw [decode_table TimeKey.records rfl]
  have hjudge : ∀ s : TimeKey.table.Slots, (TimeKey.fill s).record .timeSet = .ok (.timeSet old now source) ↔
      s = TimeKey.slots old now source := by
    intro s
    constructor
    · intro h
      obtain ⟨now', hnow, h⟩ := bind_ok.mp h
      obtain ⟨source', hsource, h⟩ := bind_ok.mp h
      cases h
      funext k
      cases k with
      | old => rfl
      | new => exact slotRequired_ok.mp hnow
      | source => exact slotRequired_ok.mp hsource
    · rintro rfl
      rfl
  refine ((codecs_decode TimeKey.codec _).value hjudge).trans ?_
  refine Table.stands_iff fun w ps _ => ?_
  have hclosed : Holds ps 3 (TimeKey.codec .source).item source ↔
      Holds ps 3 (fun i => (u8Of i).bind Numbered.tryFrom) source := by
    apply holds_congr
    intro i
    change checkedItem u8Of (Numbered.known _) i = some source ↔ _
    rw [numbered_item]
  constructor
  · intro h
    exact ⟨Table.slotOf_shows.mp (h .old), (Table.slotOf_holds rfl).mp (h .new),
      hclosed.mp ((Table.slotOf_holds rfl).mp (h .source))⟩
  · rintro ⟨hold, hnow, hsource⟩ k
    cases k with
    | old => exact Table.slotOf_shows.mpr hold
    | new => exact (Table.slotOf_holds rfl).mpr hnow
    | source => exact (Table.slotOf_holds rfl).mpr (hclosed.mpr hsource)

theorem lost_records : NoKey.table.Records NoKey.fill (RecordSlots.step .commsLinkLost) := by
  apply NoKey.records
  intro n s
  have hkinds : EventKind.commsLinkLost ≠ .timeSet ∧ EventKind.commsLinkLost ≠ .commsUnrecoverable ∧
      EventKind.commsLinkLost ≠ .commsHeldDown ∧ EventKind.commsLinkLost ≠ .recordFailedCrc ∧
      EventKind.commsLinkLost ≠ .commsPowerCycled ∧ EventKind.commsLinkLost ≠ .sessionsShedForBackpressure ∧
      EventKind.commsLinkLost ≠ .commsBootNoise := by decide
  obtain ⟨h₁, h₂, h₃, h₄, h₅, h₆, h₇⟩ := hkinds
  simp only [RecordSlots.step, h₁, h₂, h₃, h₄, h₅, h₆, h₇, false_and, or_self, if_false]

theorem lost_decode : decode .commsLinkLost payload = .ok .commsLinkLost ↔ Body payload (Shown .commsLinkLost) := by
  rw [decode_table lost_records rfl]
  have hjudge : ∀ s : NoKey.table.Slots, (NoKey.fill s).record .commsLinkLost = .ok .commsLinkLost ↔
      s = fun _ => none := by
    intro s
    refine iff_of_true rfl ?_
    funext k
    cases k
  refine ((codecs_decode NoKey.codec fun _ => .duplicateKey 0).value hjudge).trans ?_
  refine Table.stands_iff fun w ps _ => iff_of_true ?_ trivial
  intro k
  cases k

theorem record_kind {kind : EventKind} {s : RecordSlots} (h : s.record kind = .ok v) : v.kind = kind := by
  unfold RecordSlots.record at h
  split_ifs at h with h₁ h₂ h₃ h₄ h₅ h₆ h₇ h₈
  · obtain ⟨now, -, h⟩ := bind_ok.mp h
    obtain ⟨source, -, ⟨⟩⟩ := bind_ok.mp h
    exact h₁.symm
  · cases h
    exact h₂.symm
  · obtain ⟨railOn, -, ⟨⟩⟩ := bind_ok.mp h
    exact h₃.symm
  · obtain ⟨count, -, ⟨⟩⟩ := bind_ok.mp h
    exact h₄.symm
  · obtain ⟨count, -, ⟨⟩⟩ := bind_ok.mp h
    exact h₅.symm
  · obtain ⟨count, -, ⟨⟩⟩ := bind_ok.mp h
    exact h₆.symm
  · obtain ⟨count, -, ⟨⟩⟩ := bind_ok.mp h
    exact h₇.symm
  · obtain ⟨reason, -, ⟨⟩⟩ := bind_ok.mp h
    exact h₈.symm

theorem only_ok {β : Type} {x : Except ControllerRecordError β} {f : β → ControllerRecord} (hf : Function.Injective f)
    {b : β} : (do
      let found ← x
      Except.ok (f found)) = .ok (f b) ↔ x = .ok b := by
  rw [bind_ok]
  constructor
  · rintro ⟨found, hx, h⟩
    rw [hx, hf (Except.ok.inj h)]
  · intro hx
    exact ⟨b, hx, rfl⟩

theorem counted_decode {kind : EventKind} {f : NonZeroU32 → ControllerRecord} {count : NonZeroU32}
    (h : Fills .u32 countSlot kind) (hf : Function.Injective f)
    (hrecord : ∀ slot, (countSlot slot).record kind = (do
      let count ← nonzero slot
      .ok (f count))) :
    decode kind payload = .ok (f count) ↔ Body payload fun ps => Holds ps 1 nonZeroItem count := by
  have hslot : ∀ slot, (countSlot slot).record kind = .ok (f count) ↔ slot = some count.get := by
    intro slot
    rw [hrecord, only_ok hf, nonzero_ok]
  exact (one_decode h rfl hslot).trans (Body.congr fun ps => nonZero_holds)

theorem own_decode : decode v.kind payload = .ok v ↔ Body payload v.Shown := by
  cases v with
  | timeSet old now source => exact time_decode
  | recordFailedCrc count => exact counted_decode crc_fills (fun _ _ => recordFailedCrc.inj) fun _ => rfl
  | commsLinkLost => exact lost_decode
  | commsPowerCycled count => exact counted_decode power_fills (fun _ _ => commsPowerCycled.inj) fun _ => rfl
  | commsUnrecoverable railOn =>
    exact one_decode rail_fills rfl fun slot => (only_ok fun _ _ => commsUnrecoverable.inj).trans slotRequired_ok
  | sessionsShed count => exact counted_decode shed_fills (fun _ _ => sessionsShed.inj) fun _ => rfl
  | commsBootNoise count =>
    exact one_decode noise_fills rfl fun slot => (only_ok fun _ _ => commsBootNoise.inj).trans slotRequired_ok
  | commsHeldDown reason =>
    exact closed_decode reason_fills rfl fun slot => (only_ok fun _ _ => commsHeldDown.inj).trans slotRequired_ok

theorem decode_shown {kind : EventKind} : decode kind payload = .ok v ↔ v.kind = kind ∧ Body payload v.Shown := by
  constructor
  · intro h
    obtain ⟨s, hs, hrecord⟩ := bind_ok.mp h
    obtain rfl := record_kind hrecord
    exact ⟨rfl, own_decode.mp h⟩
  · rintro ⟨rfl, h⟩
    exact own_decode.mpr h

section

variable {κ : Type} [DecidableEq κ] [Listed κ] {Value : κ → Type} {codec : ∀ k, Codec ControllerRecordError (Value k)}
  {twice : κ → ControllerRecordError} {s : ∀ k, Option (Value k)} {m : Encoder ControllerRecordError Unit} {count : UInt64}
  {kind : EventKind} {width : κ → ℕ}

theorem cells_trip {into : (Table.ofCodecs codec twice).Slots → RecordSlots}
    (h : (Table.ofCodecs codec twice).Records into (RecordSlots.step kind))
    (hempty : RecordSlots.empty = into (Table.ofCodecs codec twice).none) (hrecord : (into s).record kind = .ok v)
    (htells : Tells m (.map count :: entryCalls (cellCalls codec s))) (hmay : MaySend codec s)
    (hcount : (cellCalls codec s).length = count.toNat)
    (hwidth : ∀ k a, s k = some a → 1 + ((codec k).spell a).spelling.length ≤ width k)
    (hfit : 1 + ((Listed.all (κ := κ)).map width).sum ≤ controllerRecordMaxBytes) :
    ∃ out, encodeBody m controllerRecordMaxBytes = .ok out ∧ decode kind out = .ok v := by
  refine ⟨_, (encode_cells htells hmay hcount).mpr ⟨rfl, (cellItems_length hwidth).trans hfit⟩, ?_⟩
  rw [decode_table h hempty, Table.decode, cellItems_decode hmay]
  exact hrecord

end

theorem one_trip {c : Codec ControllerRecordError α} {fill : Option α → RecordSlots} {kind : EventKind} {a : α}
    {m : Encoder ControllerRecordError Unit} {call : Call} (h : Fills c fill kind) (hempty : RecordSlots.empty = fill none)
    (hrecord : (fill (some a)).record kind = .ok v) (htells : Tells m [.map 1, .key 1, call]) (hcall : c.calls a = [call])
    (hmay : c.may a) (hlen : (c.spell a).spelling.length ≤ 5) :
    ∃ out, encodeBody m controllerRecordMaxBytes = .ok out ∧ decode kind out = .ok v := by
  have hcalls : Call.map 1 :: entryCalls (cellCalls (fun _ : OneKey => c) fun _ => some a) = [.map 1, .key 1, call] := by
    change [Call.map 1, Call.key 1] ++ c.calls a ++ [] = _
    rw [hcall]
    rfl
  rw [← hcalls] at htells
  have hwidth : ∀ (k : OneKey) b, some a = some b → 1 + (c.spell b).spelling.length ≤ (fun _ : OneKey => 6) k := by
    rintro k b hb
    obtain rfl := Option.some.inj hb
    exact Nat.add_le_add_left hlen 1
  refine cells_trip h hempty hrecord htells ?_ rfl hwidth (by decide)
  rintro k b hb
  obtain rfl := Option.some.inj hb
  exact hmay

theorem one_tells {m : Encoder ControllerRecordError Unit} (call : Call) (h : m = do
    tell (CborWriter.map 1)
    tell (CborWriter.key 1)
    tell call.write) : Tells m [.map 1, .key 1, call] := by
  subst h
  exact .cons (c := .map 1) <| .cons (c := .key 1) <| .call call

theorem time_trip (old : Option UInt64) (now : UInt64) (source : TimeSource) :
    ∃ out, encode (.timeSet old now source) controllerRecordMaxBytes = .ok out ∧
      decode .timeSet out = .ok (.timeSet old now source) := by
  have hlast : Tells (do
      tell (CborWriter.key 2)
      tell (CborWriter.u64 now.toNat)
      tell (CborWriter.key 3)
      tell (CborWriter.u64 source.byte.toNat) : Encoder ControllerRecordError Unit)
      [.key 2, .u64 now, .key 3, .u64 source.byte.toUInt64] :=
    .cons (c := .key 2) <| .cons (c := .u64 now) <| .cons (c := .key 3) <| .call (.u64 source.byte.toUInt64)
  have htells : Tells (encodeInto (.timeSet old now source)) (.map (if old.isSome then 3 else 2) ::
      entryCalls (cellCalls TimeKey.codec (TimeKey.slots old now source))) := by
    cases old with
    | none => exact .cons (c := .map 2) hlast
    | some old =>
      have hold : Tells (do
          tell (CborWriter.key 1)
          tell (CborWriter.u64 old.toNat) : Encoder ControllerRecordError Unit) [.key 1, .u64 old] :=
        .cons (c := .key 1) <| .call (.u64 old)
      exact .cons (c := .map 3) (hold.append hlast)
  have hmay : MaySend TimeKey.codec (TimeKey.slots old now source) := by
    intro k a _
    cases k with
    | old | new => trivial
    | source => exact Codec.closed_may ControllerRecordError.unknownSource (show TimeSource from a)
  have hcount : (cellCalls TimeKey.codec (TimeKey.slots old now source)).length =
      (if old.isSome then 3 else 2 : UInt64).toNat := by cases old <;> rfl
  have hwidth : ∀ k a, TimeKey.slots old now source k = some a →
      1 + ((TimeKey.codec k).spell a).spelling.length ≤ TimeKey.width k := by
    intro k a ha
    cases k with
    | old | new => exact Nat.add_le_add_left (ofNat_length_u64 a) 1
    | source =>
      obtain rfl := Option.some.inj ha
      have hsmall : source.byte.toNat < 24 := by cases source <;> decide
      exact Nat.add_le_add_left (ofNat_length_inline hsmall) 1
  exact cells_trip TimeKey.records rfl rfl htells hmay hcount hwidth (by decide)

theorem counted_trip {kind : EventKind} (count : UInt32) (h : Fills .u32 countSlot kind)
    (hrecord : (countSlot (some count)).record kind = .ok v)
    (hencode : v.encodeInto = do
      tell (CborWriter.map 1)
      tell (CborWriter.key 1)
      tell (CborWriter.u64 count.toNat)) :
    ∃ out, v.encode controllerRecordMaxBytes = .ok out ∧ decode kind out = .ok v :=
  one_trip h rfl hrecord (one_tells (.u64 count.toUInt64) hencode) rfl trivial (ofNat_length_u32 count)

theorem nonzero_trip {kind : EventKind} {f : NonZeroU32 → ControllerRecord} (count : NonZeroU32)
    (h : Fills .u32 countSlot kind)
    (hrecord : ∀ slot, (countSlot slot).record kind = (do
      let count ← nonzero slot
      .ok (f count)))
    (hencode : (f count).encodeInto = do
      tell (CborWriter.map 1)
      tell (CborWriter.key 1)
      tell (CborWriter.u64 count.get.toNat)) :
    ∃ out, (f count).encode controllerRecordMaxBytes = .ok out ∧ decode kind out = .ok (f count) := by
  apply counted_trip count.get h _ hencode
  rw [hrecord]
  exact bind_ok.mpr ⟨count, nonzero_ok.mpr rfl, rfl⟩

theorem lost_trip : ∃ out, encode .commsLinkLost controllerRecordMaxBytes = .ok out ∧
    decode .commsLinkLost out = .ok .commsLinkLost := by
  have hmay : MaySend NoKey.codec fun _ => none := by
    intro k
    cases k
  have hwidth : ∀ (k : NoKey) (a : UInt32), none = some a →
      1 + ((NoKey.codec k).spell a).spelling.length ≤ (fun _ : NoKey => 0) k := by
    intro k
    cases k
  exact cells_trip lost_records rfl rfl (.call (.map 0)) hmay rfl hwidth (by decide)

theorem encode_trip (v : ControllerRecord) :
    ∃ out, v.encode controllerRecordMaxBytes = .ok out ∧ decode v.kind out = .ok v := by
  cases v with
  | timeSet old now source => exact time_trip old now source
  | recordFailedCrc count => exact nonzero_trip count crc_fills (fun _ => rfl) rfl
  | commsLinkLost => exact lost_trip
  | commsPowerCycled count => exact nonzero_trip count power_fills (fun _ => rfl) rfl
  | commsUnrecoverable railOn =>
    exact one_trip rail_fills rfl rfl (one_tells (.bool railOn) rfl) rfl trivial (by cases railOn <;> decide)
  | sessionsShed count => exact nonzero_trip count shed_fills (fun _ => rfl) rfl
  | commsBootNoise count => exact counted_trip count noise_fills rfl rfl
  | commsHeldDown reason =>
    have hlen : (Item.ofNat reason.byte.toNat).spelling.length ≤ 5 := by cases reason <;> decide
    exact one_trip reason_fills rfl (by cases reason <;> rfl) (one_tells (.u64 reason.byte.toUInt64) rfl) rfl
      (Codec.closed_may _ reason) hlen

def Knows (kind : EventKind) (n : ℤ) : Prop := (n = 1 ∧ kind ≠ .commsLinkLost) ∨ ((n = 2 ∨ n = 3) ∧ kind = .timeSet)

theorem kind_lost (h : v.kind = .commsLinkLost) : v = .commsLinkLost := by
  cases v with
  | commsLinkLost => rfl
  | timeSet | recordFailedCrc | commsPowerCycled | commsUnrecoverable | sessionsShed | commsBootNoise | commsHeldDown =>
    simp only [kind] at h
    exact absurd h (by decide)

theorem shown_order {ps qs : List (Key × Item)} (h : ∀ n, Knows v.kind n → valueAt qs n = valueAt ps n) :
    v.Shown qs ↔ v.Shown ps := by
  have hfirst : v ≠ .commsLinkLost → valueAt qs 1 = valueAt ps 1 := fun hv => h 1 (.inl ⟨rfl, mt kind_lost hv⟩)
  cases v with
  | commsLinkLost => exact Iff.rfl
  | timeSet old now source =>
    have hsecond := h 2 (.inr ⟨.inl rfl, rfl⟩)
    have hthird := h 3 (.inr ⟨.inr rfl, rfl⟩)
    cases old <;> simp only [Shown, Shows, Holds, hfirst (by simp), hsecond, hthird]
  | recordFailedCrc | commsPowerCycled | commsUnrecoverable | sessionsShed | commsBootNoise | commsHeldDown =>
    simp only [Shown, Holds, hfirst (by simp)]

theorem decode_map {kind : EventKind} {w : Width} {ps : List (Key × Item)} (hlegal : (Item.map w ps).Legal maxDepth) :
    decode kind (Item.map w ps).spelling = .ok v ↔ v.kind = kind ∧ Keyed ps ∧ v.Shown ps := by
  rw [decode_shown]
  apply and_congr_right
  intro _
  constructor
  · rintro ⟨w', qs, hi, hspell, hshown⟩
    obtain ⟨rfl, rfl⟩ := Item.map.inj (Item.spelling_inj hi hlegal hspell)
    exact hshown
  · intro hshown
    exact ⟨w, ps, hlegal, rfl, hshown⟩

theorem decode_order {kind : EventKind} {w w' : Width} {ps qs extra : List (Key × Item)} (hqs : qs.Perm (ps ++ extra))
    (hextra : Unread (Knows kind) extra) (hlegal : (Item.map w ps).Legal maxDepth)
    (hlegal' : (Item.map w' qs).Legal maxDepth) :
    decode kind (Item.map w ps).spelling = .ok v ↔ decode kind (Item.map w' qs).spelling = .ok v := by
  rw [decode_map hlegal, decode_map hlegal', keyed_known hqs hextra]
  apply and_congr_right
  rintro rfl
  rw [shown_order fun n hn => valueAt_known hqs hlegal'.2.1 hextra hn]

theorem decode_unowned {kind : EventKind} (h : ∀ v : ControllerRecord, v.kind ≠ kind) (payload : Bytes) :
    ∃ why, decode kind payload = .error why := by
  cases hdecode : decode kind payload with
  | error why => exact ⟨why, rfl⟩
  | ok v => exact absurd (decode_shown.mp hdecode).1 (h v)

end ControllerRecord

open Pairing in
/-- Every answer and every record is read back as it was, and exactly the bodies that say one are read. -/
theorem answers_and_records :
    (∀ a : EnrolAnswer, ∃ out, a.encode maxEnrolAnswer = .ok out ∧ EnrolAnswer.decode out = .ok a) ∧
    (∀ v : ControllerRecord, ∃ out, v.encode controllerRecordMaxBytes = .ok out ∧
      ControllerRecord.decode v.kind out = .ok v) ∧
    (∀ payload a, EnrolAnswer.decode payload = .ok a ↔ Body payload a.Shown) ∧
    (∀ payload, (∃ a, EnrolAnswer.decode payload = .ok a) ↔ Body payload EnrolAnswer.Answers) ∧
    (∀ kind payload v, ControllerRecord.decode kind payload = .ok v ↔ v.kind = kind ∧ Body payload v.Shown) ∧
    (∀ kind, (∀ v : ControllerRecord, v.kind ≠ kind) → ∀ payload, ∃ why, ControllerRecord.decode kind payload = .error why) ∧
    ∀ (w w' : Width) (ps qs extra : List (Key × Item)), qs.Perm (ps ++ extra) →
      (Item.map w ps).Legal maxDepth → (Item.map w' qs).Legal maxDepth →
        (Unread EnrolAnswer.table.Known extra → ∀ a,
          EnrolAnswer.decode (Item.map w ps).spelling = .ok a ↔ EnrolAnswer.decode (Item.map w' qs).spelling = .ok a) ∧
        ∀ kind, Unread (ControllerRecord.Knows kind) extra → ∀ v,
          ControllerRecord.decode kind (Item.map w ps).spelling = .ok v ↔
            ControllerRecord.decode kind (Item.map w' qs).spelling = .ok v := by
  refine ⟨EnrolAnswer.encode_trip, ControllerRecord.encode_trip, fun payload a => EnrolAnswer.decode_shown, ?_,
    fun kind payload v => ControllerRecord.decode_shown, fun kind h payload => ControllerRecord.decode_unowned h payload,
    fun w w' ps qs extra hqs hlegal hlegal' => ⟨fun hextra a => EnrolAnswer.decode_order hqs hextra hlegal hlegal',
      fun kind hextra v => ControllerRecord.decode_order hqs hextra hlegal hlegal'⟩⟩
  intro payload
  constructor
  · rintro ⟨a, h⟩
    obtain ⟨w, ps, hlegal, hspell, hkeyed, hshown⟩ := EnrolAnswer.decode_shown.mp h
    exact ⟨w, ps, hlegal, hspell, hkeyed, EnrolAnswer.answers_iff.mp ⟨a, hshown⟩⟩
  · rintro ⟨w, ps, hlegal, hspell, hkeyed, hanswers⟩
    obtain ⟨a, hshown⟩ := EnrolAnswer.answers_iff.mpr hanswers
    exact ⟨a, EnrolAnswer.decode_shown.mpr ⟨w, ps, hlegal, hspell, hkeyed, hshown⟩⟩

end Km43.Log
