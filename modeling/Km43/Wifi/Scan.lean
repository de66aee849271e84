import Km43.Link.LinkUp
import Km43.Wifi.Access

namespace Km43.Wifi

open Library Cbor CborReader

inductive Rows
  | built (rows : List AccessPoint)
  | read (item : Bytes) (count : ℕ)

structure ScanList where
  rows : Rows
  unlisted : UInt16

structure AccessPoints where
  built : List AccessPoint
  read : CborReader
  left : ℕ
  header : Except CborError Unit

namespace AccessPoints

def next (it : AccessPoints) : Option (Except WifiError (AccessPoint × AccessPoints)) :=
  match it.built with
  | row :: rest => some (.ok (row, { it with built := rest }))
  | [] =>
    if it.left = 0 then none
    else
      match it.header with
      | .error why => some (.error (.cbor why))
      | .ok () =>
        match AccessPoint.decodeFrom it.read with
        | .error why => some (.error why)
        | .ok (row, read) => some (.ok (row, { it with read := read, left := it.left - 1 }))

def walk : ℕ → AccessPoints → List (Except WifiError AccessPoint)
  | 0, _ => []
  | n + 1, it =>
    match it.next with
    | none => []
    | some (.error why) => [.error why]
    | some (.ok (row, it)) => .ok row :: walk n it

end AccessPoints

namespace ScanList

def len (list : ScanList) : ℕ :=
  match list.rows with
  | .built rows => rows.length
  | .read _ count => count

def iter (list : ScanList) : AccessPoints :=
  match list.rows with
  | .built rows => ⟨rows, .new [], 0, .ok ()⟩
  | .read item count =>
    match CborReader.array (.new item) with
    | .ok (_, read) => ⟨[], read, count, .ok ()⟩
    | .error why => ⟨[], .new item, count, .error why⟩

def items (list : ScanList) : List (Except WifiError AccessPoint) := list.iter.walk list.len

/-- The rows from one on, those before it having these names and the last of them this strength. -/
def checkFrom : List Str → Int8 → List (Except WifiError AccessPoint) → Except WifiError Unit
  | _, _, [] => .ok ()
  | seen, weakerThan, next :: rest => do
    let row ← next
    row.check
    if weakerThan < row.rssi then .error .outOfOrder
    else if maxScanAps < seen.length then .error (.tooManyAccessPoints seen.length)
    else if row.ssid ∈ seen then .error .ssidRepeated
    else if maxScanAps ≤ seen.length then .error (.tooManyAccessPoints seen.length)
    else checkFrom (seen ++ [row.ssid]) row.rssi rest

def check (list : ScanList) : Except WifiError Unit :=
  if maxScanAps < list.len then .error (.tooManyAccessPoints list.len)
  else checkFrom [] 127 list.items

def new (rows : List AccessPoint) (unlisted : UInt16) : Except WifiError ScanList := do
  let list : ScanList := ⟨.built rows, unlisted⟩
  list.check
  .ok list

def encodeRows (list : ScanList) : Encoder WifiError Unit :=
  match list.rows with
  | .built rows => do
    tell (CborWriter.array rows.length)
    rows.forM AccessPoint.encodeInto
  | .read item _ => tell (CborWriter.raw item)

def read (item : Bytes) (unlisted : UInt16) : Except WifiError ScanList := do
  let (count, _) ← (CborReader.array (.new item)).mapError WifiError.cbor
  if maxScanAps < count then .error (.tooManyAccessPoints count)
  else
    let list : ScanList := ⟨.read item count, unlisted⟩
    list.check
    .ok list

/-- Two lists are equal by their rows and counts, whichever side of the wire each was built on. -/
def same (a b : ScanList) : Bool :=
  decide (a.unlisted = b.unlisted) && decide (a.len = b.len) &&
    (a.items.zip b.items).all fun p => match p with
      | (.ok x, .ok y) => decide (x = y)
      | (.error x, .error y) => decide (x = y)
      | _ => false

end ScanList

open CborWriter Link

inductive ScanState
  | none
  | running
  | complete
  | failed
  deriving DecidableEq

namespace ScanState

def byte : ScanState → UInt8
  | none => 1
  | running => 2
  | complete => 3
  | failed => 4

def tryFrom (v : UInt8) : Option ScanState :=
  if v = 1 then some none else if v = 2 then some running else if v = 3 then some complete
  else if v = 4 then some failed else Option.none

@[simp] theorem tryFrom_byte (s : ScanState) : tryFrom s.byte = some s := by
  cases s <;> rfl

end ScanState

inductive ScanRefusal
  | tooSoon
  | radioOff
  | linkDown
  | unauthorised
  deriving DecidableEq

namespace ScanRefusal

def byte : ScanRefusal → UInt8
  | tooSoon => 1
  | radioOff => 2
  | linkDown => 3
  | unauthorised => 4

def tryFrom (v : UInt8) : Option ScanRefusal :=
  if v = 1 then some tooSoon else if v = 2 then some radioOff else if v = 3 then some linkDown
  else if v = 4 then some unauthorised else none

@[simp] theorem tryFrom_byte (r : ScanRefusal) : tryFrom r.byte = some r := by
  cases r <;> rfl

end ScanRefusal

inductive ScanOutcome
  | complete
  | failed
  deriving DecidableEq

namespace ScanOutcome

def byte : ScanOutcome → UInt8
  | complete => 1
  | failed => 2

def tryFrom (v : UInt8) : Option ScanOutcome :=
  if v = 1 then some complete else if v = 2 then some failed else none

@[simp] theorem tryFrom_byte (o : ScanOutcome) : tryFrom o.byte = some o := by
  cases o <;> rfl

end ScanOutcome

structure HeldList where
  ageMs : UInt32
  list : ScanList

structure ScanAnswer where
  scan : ScanState
  refused : Option ScanRefusal
  held : Option HeldList

def held (age : Option UInt32) (rows : Option Bytes) (unlisted : Option UInt16) : Except WifiError (Option HeldList) :=
  match age, rows, unlisted with
  | none, none, none => .ok none
  | some age, some rows, some unlisted => do
    let list ← ScanList.read rows unlisted
    .ok (some ⟨age, list⟩)
  | _, _, _ => .error .listIncomplete

structure AnswerSlots where
  scan : Option ScanState
  refused : Option ScanRefusal
  age : Option UInt32
  rows : Option Bytes
  unlisted : Option UInt16

namespace ScanAnswer

def new (scan : ScanState) (refused : Option ScanRefusal) (held : Option HeldList) : Except WifiError ScanAnswer :=
  if scan = .running ∧ refused.isSome then .error .refusedWhileRunning
  else if (scan = .complete ∧ held.isNone) ∨ (scan = .none ∧ held.isSome) then .error .scanStateDisagrees
  else .ok ⟨scan, refused, held⟩

def keys (answer : ScanAnswer) : ℕ := 1 + answer.refused.isSome.toNat + 3 * answer.held.isSome.toNat

def encodeHeld (held : HeldList) : Encoder WifiError Unit := do
  tell (CborWriter.key 3)
  tell (CborWriter.u64 held.ageMs.toNat)
  tell (CborWriter.key 4)
  held.list.encodeRows
  tell (CborWriter.key 5)
  tell (CborWriter.u64 held.list.unlisted.toNat)

def encodeInto (answer : ScanAnswer) : Encoder WifiError Unit := do
  tell (CborWriter.map answer.keys)
  tell (CborWriter.key 1)
  tell (CborWriter.u64 answer.scan.byte.toNat)
  whenSome answer.refused fun refused => do
    tell (CborWriter.key 2)
    tell (CborWriter.u64 refused.byte.toNat)
  whenSome answer.held encodeHeld

def encode (answer : ScanAnswer) (dst : ℕ) : Except WifiError Bytes := encodeBody answer.encodeInto dst

end ScanAnswer

namespace AnswerSlots

def empty : AnswerSlots := ⟨none, none, none, none, none⟩

def step : ℤ → AnswerSlots → Read WifiError AnswerSlots
  | 1, s => slotField (readClosed .scan ScanState.tryFrom) (.duplicate .scan) s.scan fun slot => { s with scan := slot }
  | 2, s => slotField (readClosed .refused ScanRefusal.tryFrom) (.duplicate .refused) s.refused
      fun slot => { s with refused := slot }
  | 3, s => slotField (ask u32) (.duplicate .ageMs) s.age fun slot => { s with age := slot }
  | 4, s => slotField (ask raw) (.duplicate .aps) s.rows fun slot => { s with rows := slot }
  | 5, s => slotField (ask u16) (.duplicate .unlisted) s.unlisted fun slot => { s with unlisted := slot }
  | _, s => passOver s

def read : Read WifiError AnswerSlots := do
  let pairs ← ask map
  pairLoop step pairs empty

def answer (s : AnswerSlots) : Except WifiError ScanAnswer := do
  let held ← held s.age s.rows s.unlisted
  let scan ← slotRequired (.missing .scan) s.scan
  ScanAnswer.new scan s.refused held

end AnswerSlots

def ScanAnswer.decode (payload : Bytes) : Except WifiError ScanAnswer := do
  let slots ← decodeBody AnswerSlots.read payload
  slots.answer

abbrev ScanNumber := { scan : UInt32 // scan ≠ 0 }

def scanNumber (raw : UInt32) : Except WifiError ScanNumber :=
  if h : raw ≠ 0 then .ok ⟨raw, h⟩ else .error .zeroScan

structure ScanResult where
  scan : ScanNumber
  list : Option ScanList

def ScanResult.outcome (result : ScanResult) : ScanOutcome :=
  if result.list.isSome then .complete else .failed

structure ResultSlots where
  scan : Option ScanNumber
  outcome : Option ScanOutcome
  rows : Option Bytes
  unlisted : Option UInt16

namespace ResultSlots

def empty : ResultSlots := ⟨none, none, none, none⟩

def readScan : Read LinkError ScanNumber := do
  let raw ← ask u32
  (scanNumber raw).mapError LinkError.ofWifi

def readOutcome : Read LinkError ScanOutcome := do
  let raw ← ask u8
  (closed .outcome ScanOutcome.tryFrom raw).mapError LinkError.ofWifi

def step : ℤ → ResultSlots → Read LinkError ResultSlots
  | 1, s => slotField readScan (.wifi (.duplicate .scan)) s.scan fun slot => { s with scan := slot }
  | 2, s => slotField readOutcome (.wifi (.duplicate .outcome)) s.outcome fun slot => { s with outcome := slot }
  | 3, s => slotField (ask raw) (.wifi (.duplicate .aps)) s.rows fun slot => { s with rows := slot }
  | 4, s => slotField (ask u16) (.wifi (.duplicate .unlisted)) s.unlisted fun slot => { s with unlisted := slot }
  | _, s => passOver s

def list (s : ResultSlots) (outcome : ScanOutcome) : Except WifiError (Option ScanList) :=
  match outcome, s.rows, s.unlisted with
  | .complete, some rows, some unlisted => do
    let list ← ScanList.read rows unlisted
    .ok (some list)
  | .failed, none, none => .ok none
  | _, _, _ => .error .listIncomplete

def result (s : ResultSlots) : Except WifiError ScanResult := do
  let scan ← slotRequired (.missing .scan) s.scan
  let outcome ← slotRequired (.missing .outcome) s.outcome
  let list ← s.list outcome
  .ok ⟨scan, list⟩

end ResultSlots

def ScanResult.decode (envelope : LinkEnvelope) : Except LinkError ScanResult := do
  let (slots, body) ← pairLoop ResultSlots.step envelope.keys .empty envelope.body
  body.finish.mapError .cbor
  slots.result.mapError .ofWifi

end Km43.Wifi
