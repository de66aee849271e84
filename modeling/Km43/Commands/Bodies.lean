import Km43.Cbor.Carried
import Km43.Config.MessagesTrip

namespace Km43.Commands

open Library Library.StepParser Cbor CborReader CborWriter

inductive CommandKind
  | startGenerator
  | stopGenerator
  | runExerciseCycleNow
  | setOutput
  | acknowledgeConcern
  | clearOverride
  deriving DecidableEq

namespace CommandKind

def number : CommandKind → UInt16
  | startGenerator => 0x101
  | stopGenerator => 0x102
  | runExerciseCycleNow => 0x103
  | setOutput => 0x201
  | acknowledgeConcern => 0x203
  | clearOverride => 0x301

def all : List CommandKind :=
  [startGenerator, stopGenerator, runExerciseCycleNow, setOutput, acknowledgeConcern, clearOverride]

theorem found (a : CommandKind) : (all.find? fun b => b.number == a.number) = some a := by cases a <;> rfl

instance : Allocated CommandKind := ⟨all, number, found⟩

end CommandKind

inductive Command
  | accepted
  | rejected
  | duplicate
  | inhibited
  | unauthorised
  | shadowed
  | staleTopology
  | wrongTarget
  deriving DecidableEq

namespace Command

def byte : Command → UInt8
  | accepted => 1
  | rejected => 2
  | duplicate => 3
  | inhibited => 4
  | unauthorised => 5
  | shadowed => 6
  | staleTopology => 7
  | wrongTarget => 8

def all : List Command :=
  [accepted, rejected, duplicate, inhibited, unauthorised, shadowed, staleTopology, wrongTarget]

theorem found (a : Command) : (all.find? fun b => b.byte == a.byte) = some a := by cases a <;> rfl

instance : Numbered Command := ⟨all, byte, found⟩

end Command

inductive CommandKey
  | cmdId
  | kind
  | args
  deriving DecidableEq

namespace CommandKey

def of (number : ℤ) : Option CommandKey :=
  if number = 1 then some cmdId else if number = 2 then some kind else if number = 3 then some args else none

def number : CommandKey → ℕ
  | cmdId => 1
  | kind => 2
  | args => 3

theorem of_iff (n : ℤ) (k : CommandKey) : of n = some k ↔ n = k.number := by
  constructor
  · intro h
    unfold of at h
    split_ifs at h <;> cases h <;> assumption
  · rintro rfl
    cases k <;> rfl

theorem small (k : CommandKey) : k.number < 256 := by cases k <;> decide

instance : BodyKey CommandKey := ⟨of, number, of_iff, small⟩

theorem all_iff {P : CommandKey → Prop} : (∀ k, P k) ↔ P cmdId ∧ P kind ∧ P args := by
  constructor
  · intro h
    exact ⟨h _, h _, h _⟩
  · rintro ⟨h₁, h₂, h₃⟩ k
    cases k <;> assumption

end CommandKey

inductive CommandAckKey
  | cmdId
  | outcome
  | detail
  deriving DecidableEq

namespace CommandAckKey

def of (number : ℤ) : Option CommandAckKey :=
  if number = 1 then some cmdId else if number = 2 then some outcome else if number = 3 then some detail else none

def number : CommandAckKey → ℕ
  | cmdId => 1
  | outcome => 2
  | detail => 3

theorem of_iff (n : ℤ) (k : CommandAckKey) : of n = some k ↔ n = k.number := by
  constructor
  · intro h
    unfold of at h
    split_ifs at h <;> cases h <;> assumption
  · rintro rfl
    cases k <;> rfl

theorem small (k : CommandAckKey) : k.number < 256 := by cases k <;> decide

instance : BodyKey CommandAckKey := ⟨of, number, of_iff, small⟩

theorem all_iff {P : CommandAckKey → Prop} : (∀ k, P k) ↔ P cmdId ∧ P outcome ∧ P detail := by
  constructor
  · intro h
    exact ⟨h _, h _, h _⟩
  · rintro ⟨h₁, h₂, h₃⟩ k
    cases k <;> assumption

end CommandAckKey

inductive CommandBodyKey
  | operation (key : CommandKey)
  | ack (key : CommandAckKey)
  deriving DecidableEq

inductive CommandError
  | missing (key : CommandBodyKey)
  | duplicate (key : CommandBodyKey)
  | unknownKind (number : UInt16)
  | unknownOutcome (number : UInt8)
  | argsNotAMap
  | cbor (why : CborError)
  deriving DecidableEq

instance : FromCbor CommandError := ⟨.cbor⟩

def aMap : Bytes → Except CommandError Unit := probeMap .argsNotAMap

def knownKind : UInt16 → Except CommandError CommandKind := Allocated.known .unknownKind

def knownOutcome : UInt8 → Except CommandError Command := Numbered.known .unknownOutcome

structure CommandOperation where
  cmdId : UInt32
  kind : CommandKind
  args : Bytes
  deriving DecidableEq

namespace CommandOperation

def Value : CommandKey → Type
  | .cmdId => UInt32
  | .kind => CommandKind
  | .args => Bytes

def table : Table CommandError CommandKey where
  Value := Value
  read
    | .cmdId => ask u32
    | .kind => checkedRead (ask u16) knownKind
    | .args => checkedRead (ask raw) (keptMap .argsNotAMap)
  twice key := .duplicate (.operation key)

def ofSlots (s : table.Slots) : Except CommandError CommandOperation := do
  let cmdId ← slotRequired (.missing (.operation .cmdId)) (s .cmdId)
  let kind ← slotRequired (.missing (.operation .kind)) (s .kind)
  let args ← slotRequired (.missing (.operation .args)) (s .args)
  .ok ⟨cmdId, kind, args⟩

def decode : Bytes → Except CommandError CommandOperation := table.decode ofSlots

def heads (op : CommandOperation) : List (CommandKey × List Call) :=
  [(.cmdId, [.u64 op.cmdId.toUInt64]), (.kind, [.u64 op.kind.number.toUInt64])]

def encode (op : CommandOperation) (dst : ℕ) : Except CommandError Bytes := do
  aMap op.args
  encodeBody (writeBody 3 (op.heads ++ [(.args, [.raw op.args])])) dst

end CommandOperation

structure CommandAck where
  cmdId : UInt32
  outcome : Command
  detail : Str

namespace CommandAck

def Value : CommandAckKey → Type
  | .cmdId => UInt32
  | .outcome => Command
  | .detail => Str

def table : Table CommandError CommandAckKey where
  Value := Value
  read
    | .cmdId => ask u32
    | .outcome => checkedRead (ask u8) knownOutcome
    | .detail => textValue
  twice key := .duplicate (.ack key)

def ofSlots (s : table.Slots) : Except CommandError CommandAck := do
  let cmdId ← slotRequired (.missing (.ack .cmdId)) (s .cmdId)
  let outcome ← slotRequired (.missing (.ack .outcome)) (s .outcome)
  let detail ← slotRequired (.missing (.ack .detail)) (s .detail)
  .ok ⟨cmdId, outcome, detail⟩

def decode : Bytes → Except CommandError CommandAck := table.decode ofSlots

def entries (ack : CommandAck) : List (CommandAckKey × List Call) :=
  [(.cmdId, [.u64 ack.cmdId.toUInt64]), (.outcome, [.u64 ack.outcome.byte.toUInt64]), (.detail, [.text ack.detail])]

def encode (ack : CommandAck) (dst : ℕ) : Except CommandError Bytes := encodeBody (writeBody 3 ack.entries) dst

end CommandAck

def kindOf : Item → Option CommandKind := Allocated.itemOf

def outcomeOf (i : Item) : Option Command := (u8Of i).bind Numbered.tryFrom

def kindItem (i : Item) : Option CommandKind := checkedItem u16Of knownKind i

def outcomeItem : Item → Option Command := checkedItem u8Of knownOutcome

theorem kindItem_eq : kindItem = kindOf := by
  funext i
  exact Allocated.checked_itemOf _ i

theorem outcomeItem_eq : outcomeItem = outcomeOf := by
  funext i
  exact numbered_item _ i

theorem kind_back (k : CommandKind) : kindItem (.ofNat k.number.toNat) = some k := by
  rw [kindItem_eq, kindOf, Allocated.itemOf, u16Of_ofNat, Option.bind_some]
  exact k.found

namespace CommandOperation

def item : ∀ k, Item → Option (table.Value k)
  | .cmdId => u32Of
  | .kind => kindItem
  | .args => keptItem CommandError.argsNotAMap

theorem cmdId_reads : Reads (fun _ : CommandError => True) 7 (ask u32) u32Of := .u32 fun _ => trivial

theorem kind_reads : Reads (fun _ : CommandError => True) 7 (checkedRead (ask u16) knownKind) kindItem :=
  checkedRead_reads (.u16 fun _ => trivial) _

theorem args_takes (i : Item) : item .args i = (keptMap CommandError.argsNotAMap i.spelling).toOption := rfl

def arms : ∀ k, table.Arm 7 item k
  | .cmdId => .typed cmdId_reads
  | .kind => .typed kind_reads
  | .args => .kept (keptMap .argsNotAMap) rfl args_takes

def slots (op : CommandOperation) : table.Slots
  | .cmdId => some op.cmdId
  | .kind => some op.kind
  | .args => some op.args

theorem ofSlots_ok {op : CommandOperation} (s : table.Slots) : ofSlots s = .ok op ↔ s = op.slots := by
  simp only [ofSlots, bind_ok, slotRequired_ok]
  constructor
  · rintro ⟨cmdId, h₁, kind, h₂, args, h₃, ⟨⟩⟩
    funext k
    cases k <;> assumption
  · rintro rfl
    exact ⟨_, rfl, _, rfl, _, rfl, rfl⟩

def Orders (op : CommandOperation) (payload : Bytes) : Prop :=
  ∃ w ps, (Item.map w ps).Legal maxDepth ∧ (Item.map w ps).spelling = payload ∧ Keyed ps ∧
    Holds ps 1 u32Of op.cmdId ∧ Holds ps 2 kindOf op.kind ∧ Holds ps 3 Item.mapBytes? op.args

theorem decode_exact (payload : Bytes) (op : CommandOperation) : decode payload = .ok op ↔ op.Orders payload := by
  rw [decode, (Table.arms_decode arms).value ofSlots_ok]
  apply Table.stands_iff
  intro w ps hlegal
  rw [CommandKey.all_iff, Table.slotOf_holds rfl, Table.slotOf_holds rfl, Table.slotOf_holds rfl,
    ← holds_legal hlegal fun i hi => keptItem_legal _ hi, ← kindItem_eq]
  rfl

def items (op : CommandOperation) : List (CommandKey × Item) :=
  [(.cmdId, .ofNat op.cmdId.toNat), (.kind, .ofNat op.kind.number.toNat)]

theorem items_rising (op : CommandOperation) (i : Item) : Rising (op.items ++ [(.args, i)]) := by
  simp [Rising, items, BodyKey.number, CommandKey.number]

theorem heads_spelled (op : CommandOperation) : Spelled 7 op.heads op.items :=
  .cons ⟨rfl, writes_one rfl⟩ <| .cons ⟨rfl, writes_one rfl⟩ .nil

theorem encode_ok {op : CommandOperation} {dst : ℕ} {out : Bytes} : op.encode dst = .ok out ↔
    ∃ i : Item, i.Legal 7 ∧ i.mapBytes? = some op.args ∧ out = (bodyItem (op.items ++ [(.args, i)])).spelling ∧
      (bodyItem (op.items ++ [(.args, i)])).spelling.length ≤ dst :=
  encode_keptMap op.heads_spelled op.items_rising rfl

theorem decode_encode {op : CommandOperation} {dst : ℕ} {out : Bytes} (h : op.encode dst = .ok out) :
    decode out = .ok op := by
  obtain ⟨i, hi, hargs, rfl, -⟩ := encode_ok.mp h
  refine bind_ok.mpr ⟨op.slots, (Table.arms_decode arms).entries (op.items_rising i) ?_ ?_ ?_, (ofSlots_ok _).mpr rfl⟩
  · simp only [items, List.forall_mem_append, List.forall_mem_cons]
    have hid := op.cmdId.toNat_lt
    have hkind := op.kind.number.toNat_lt
    exact ⟨⟨Item.ofNat_legal (by omega), Item.ofNat_legal (by omega), by simp⟩, hi, by simp⟩
  · simp only [items, List.forall_mem_append, List.forall_mem_cons]
    rw [← keptItem_legal _ hi] at hargs
    exact ⟨⟨⟨u32Of_ofNat _, rfl⟩, ⟨kind_back _, rfl⟩, by simp⟩, ⟨hargs, rfl⟩, by simp⟩
  · intro k hk
    cases k <;> simp [items] at hk

end CommandOperation

namespace CommandAck

def item : ∀ k, Item → Option (table.Value k)
  | .cmdId => u32Of
  | .outcome => outcomeItem
  | .detail => Item.str?

theorem reads (k : CommandAckKey) : Reads (fun _ => True) 7 (table.read k) (item k) := by
  cases k with
  | cmdId => exact .u32 fun _ => trivial
  | outcome => exact checkedRead_reads (.u8 fun _ => trivial) _
  | detail => exact textValue_reads fun _ => trivial

def slots (ack : CommandAck) : table.Slots
  | .cmdId => some ack.cmdId
  | .outcome => some ack.outcome
  | .detail => some ack.detail

theorem ofSlots_ok {ack : CommandAck} (s : table.Slots) : ofSlots s = .ok ack ↔ s = ack.slots := by
  simp only [ofSlots, bind_ok, slotRequired_ok]
  constructor
  · rintro ⟨cmdId, h₁, outcome, h₂, detail, h₃, ⟨⟩⟩
    funext k
    cases k <;> assumption
  · rintro rfl
    exact ⟨_, rfl, _, rfl, _, rfl, rfl⟩

def Reports (ack : CommandAck) (payload : Bytes) : Prop :=
  ∃ w ps, (Item.map w ps).Legal maxDepth ∧ (Item.map w ps).spelling = payload ∧ Keyed ps ∧
    Holds ps 1 u32Of ack.cmdId ∧ Holds ps 2 outcomeOf ack.outcome ∧ Holds ps 3 Item.str? ack.detail

theorem decode_exact (payload : Bytes) (ack : CommandAck) : decode payload = .ok ack ↔ ack.Reports payload := by
  rw [decode, (Table.decodes reads).value ofSlots_ok]
  apply Table.stands_iff
  intro w ps _
  rw [CommandAckKey.all_iff, Table.slotOf_holds rfl, Table.slotOf_holds rfl, Table.slotOf_holds rfl, ← outcomeItem_eq]
  rfl

end CommandAck

open Config (ConfigSection ConfigAnswer SetConfigOperation SetConfigAck)

/-- An answer is carried whole exactly where its body is one item that leaves a level for the map around it;
what encodes of the operations is decoded back; and each decoder takes the maps with its keys in them. -/
theorem carried_whole (sectionId : ConfigSection) (version : UInt32) (body : Option Bytes) (payload : Bytes) :
    (∀ answer, ConfigAnswer.new sectionId version body = .ok answer →
      (answer.Whole ↔ ∀ raw, body = some raw → Nests (maxDepth - 1) raw)) ∧
    (∀ (op : SetConfigOperation) dst out, op.encode dst = .ok out → SetConfigOperation.decode out = .ok op) ∧
    (∀ (op : CommandOperation) dst out, op.encode dst = .ok out → CommandOperation.decode out = .ok op) ∧
    ((∃ a, ConfigAnswer.decode payload = .ok a ∧ a.sectionId = sectionId ∧ a.version = version ∧ a.body = body) ↔
      ConfigAnswer.Answers payload sectionId version body) ∧
    (∀ op, SetConfigOperation.decode payload = .ok op ↔ op.Orders payload) ∧
    (∀ ack, SetConfigAck.decode payload = .ok ack ↔ ack.Reports payload) ∧
    (∀ op, CommandOperation.decode payload = .ok op ↔ op.Orders payload) ∧
    (∀ ack, CommandAck.decode payload = .ok ack ↔ ack.Reports payload) := by
  refine ⟨?_, fun _ _ _ => SetConfigOperation.decode_encode, fun _ _ _ => CommandOperation.decode_encode,
    ConfigAnswer.decode_exact _ _ _ _, SetConfigOperation.decode_exact _, SetConfigAck.decode_exact _,
    CommandOperation.decode_exact _, CommandAck.decode_exact _⟩
  intro answer h
  obtain ⟨-, -, rfl⟩ := ConfigAnswer.new_ok.mp h
  exact answer.whole_iff

def nestedBody : Bytes := (List.replicate 6 [0xA1, 0x00]).flatten ++ [0xA0]

def trailingBody : Bytes := [0xA0, 0x00]

theorem checked_nested : Config.checkAnswer 1 (some nestedBody) = .ok () := by decide

theorem checked_trailing : Config.checkAnswer 1 (some trailingBody) = .ok () := by decide

theorem nested_nests : Nests (maxDepth - 1) nestedBody := by
  have hread : (itemStep (maxDepth - 1) nestedBody).map Prod.snd = some [] := by decide
  obtain ⟨⟨i, rest⟩, hstep, hrest⟩ := Option.map_eq_some_iff.mp hread
  obtain ⟨hlegal, hspell⟩ := (itemStep_exact _ _ _ _).mp hstep
  obtain rfl : rest = [] := hrest
  exact ⟨i, hlegal, by rw [hspell, List.append_nil]⟩

theorem nested_whole : (ConfigAnswer.mk .network 1 (some nestedBody) checked_nested).Whole := by
  refine ((carried_whole .network 1 (some nestedBody) []).1 _ (ConfigAnswer.new_ok.mpr ⟨rfl, rfl, rfl⟩)).mpr ?_
  rintro raw ⟨⟩
  exact nested_nests

theorem trailing_refused :
    ¬∀ (sectionId : ConfigSection) (version : UInt32) (body : Option Bytes) (answer : ConfigAnswer),
      ConfigAnswer.new sectionId version body = .ok answer → answer.Whole := by
  intro hwhole
  have hnew : ConfigAnswer.new .network 1 (some trailingBody) = .ok ⟨.network, 1, some trailingBody, checked_trailing⟩ :=
    ConfigAnswer.new_ok.mpr ⟨rfl, rfl, rfl⟩
  obtain ⟨i, hi, hspell⟩ := (ConfigAnswer.whole_iff _).mp (hwhole _ _ _ _ hnew) _ rfl
  have hread := (itemStep_exact (maxDepth - 1)).read hi []
  have hleft : (itemStep (maxDepth - 1) trailingBody).map Prod.snd = some [0x00] := by decide
  rw [List.append_nil, hspell] at hread
  rw [hread] at hleft
  cases hleft

end Km43.Commands
