import Km43.Cbor.Carried
import Km43.Link.LinkUpLaws
import Km43.Wifi.Relay
import Km43.Link.Bodies
import Km43.Wifi.Scan

namespace Km43.Wifi

open Library Cbor CborReader Link

theorem scanNumber_only (raw : UInt32) (scan : ScanNumber) (h : (scanNumber raw).mapError LinkError.ofWifi = .ok scan) :
    scan.val = raw := by
  have hscan := mapError_ok.mp h
  unfold scanNumber at hscan
  split_ifs at hscan
  rw [← Except.ok.inj hscan]

theorem scanNumber_val (scan : ScanNumber) : scanNumber scan.val = .ok scan := dif_pos scan.property

def scanOnly : OneBody ScanNumber where
  codec := Codec.u32.checked (fun raw => (scanNumber raw).mapError LinkError.ofWifi) Subtype.val scanNumber_only
  twice := .wifi (.duplicate .scan)
  missing := .wifi (.missing .scan)

structure ScanOrder where
  scan : ScanNumber

namespace ScanOrder

def write (v : ScanOrder) (header : LinkHeader) (dst : ℕ) : Except LinkError Bytes :=
  scanOnly.write v.scan header dst

def decode (envelope : LinkEnvelope) : Except LinkError ScanOrder := do
  let scan ← scanOnly.decode envelope
  .ok ⟨scan⟩

end ScanOrder

structure ScanResultAck where
  scan : ScanNumber

namespace ScanResultAck

def write (v : ScanResultAck) (header : LinkHeader) (dst : ℕ) : Except LinkError Bytes :=
  scanOnly.write v.scan header dst

def decode (envelope : LinkEnvelope) : Except LinkError ScanResultAck := do
  let scan ← scanOnly.decode envelope
  .ok ⟨scan⟩

end ScanResultAck

inductive ScanStarted
  | started
  | refusedBusy
  | refusedRadioOff
  deriving DecidableEq

namespace ScanStarted

def byte : ScanStarted → UInt8
  | started => 1
  | refusedBusy => 2
  | refusedRadioOff => 3

def all : List ScanStarted := [started, refusedBusy, refusedRadioOff]

theorem found (a : ScanStarted) : (all.find? fun b => b.byte == a.byte) = some a := by cases a <;> rfl

instance : Numbered ScanStarted := ⟨all, byte, found⟩

end ScanStarted

structure ScanOrderVerdict where
  outcome : ScanStarted
  deriving DecidableEq

namespace ScanOrderVerdict

def body : OneBody ScanStarted where
  codec := .closed fun raw => .wifi (.unallocated .outcome raw)
  twice := .wifi (.duplicate .outcome)
  missing := .wifi (.missing .outcome)

def write (v : ScanOrderVerdict) (header : LinkHeader) (dst : ℕ) : Except LinkError Bytes :=
  body.write v.outcome header dst

def decode (envelope : LinkEnvelope) : Except LinkError ScanOrderVerdict := do
  let outcome ← body.decode envelope
  .ok ⟨outcome⟩

end ScanOrderVerdict

namespace ScanResult

def encodeList (list : ScanList) : Encoder LinkError Unit := do
  tell (CborWriter.key 3)
  mapErr LinkError.ofWifi list.encodeRows
  tell (CborWriter.key 4)
  tell (CborWriter.u64 list.unlisted.toNat)

def encodeInto (result : ScanResult) (header : LinkHeader) : Encoder LinkError Unit := do
  mapErr (fun _ => .cbor .destinationTooSmall) (header.write (if result.list.isSome then 4 else 2))
  tell (CborWriter.key 1)
  tell (CborWriter.u64 result.scan.val.toNat)
  tell (CborWriter.key 2)
  tell (CborWriter.u64 result.outcome.byte.toNat)
  whenSome result.list encodeList

def write (result : ScanResult) (header : LinkHeader) (dst : ℕ) : Except LinkError Bytes :=
  encodeBody (result.encodeInto header) dst

end ScanResult

open CborWriter

theorem scanOnly_laws : LinkLaws (fun _ => True) (fun _ => True) (fun _ => True) Eq scanOnly.write scanOnly.decode
    scanOnly.table.Known [1] := by
  apply OneBody.laws
  intro scan
  exact ⟨trivial, mapError_ok.mpr (scanNumber_val scan)⟩

theorem ScanOrder.laws : LinkLaws (fun _ => True) (fun _ => True) (fun _ => True) Eq write decode scanOnly.table.Known
    [1] := by
  apply scanOnly_laws.under
  intro e v
  exact held_ok (fun _ => rfl) (fun _ => rfl)

theorem ScanResultAck.laws : LinkLaws (fun _ => True) (fun _ => True) (fun _ => True) Eq write decode
    scanOnly.table.Known [1] := by
  apply scanOnly_laws.under
  intro e v
  exact held_ok (fun _ => rfl) (fun _ => rfl)

theorem ScanOrderVerdict.laws : LinkLaws (fun _ => True) (fun _ => True) (fun _ => True) Eq write decode body.table.Known
    [1] := by
  have hlaws := @OneBody.laws ScanStarted body (every ScanStarted _)
  apply hlaws.under
  intro e v
  exact held_ok (fun _ => rfl) (fun _ => rfl)

inductive ScanResultKey
  | scan
  | outcome
  | aps
  | unlisted
  deriving DecidableEq

namespace ScanResultKey

def all : List ScanResultKey := [scan, outcome, aps, unlisted]

theorem keyList : KeyList all := ⟨by decide, fun k => by cases k <;> decide, by decide⟩

instance : Listed ScanResultKey := ⟨all, keyList⟩

def field : ScanResultKey → WifiField
  | scan => .scan
  | outcome => .outcome
  | aps => .aps
  | unlisted => .unlisted

end ScanResultKey

namespace ScanResult

def Value : ScanResultKey → Type
  | .scan => ScanNumber
  | .outcome => ScanOutcome
  | .aps => Bytes
  | .unlisted => UInt16

def arm : ∀ k, Read LinkError (Value k)
  | .scan => ResultSlots.readScan
  | .outcome => ResultSlots.readOutcome
  | .aps => ask raw
  | .unlisted => ask u16

def table : Table LinkError ScanResultKey := ⟨Value, arm, fun k => .wifi (.duplicate k.field)⟩

def ofTable (s : table.Slots) : ResultSlots := ⟨s .scan, s .outcome, s .aps, s .unlisted⟩

theorem known (k : ScanResultKey) (s : table.Slots) : ResultSlots.step (BodyKey.number k) (ofTable s) =
    slotField (table.read k) (table.twice k) (s k) fun slot => ofTable (Function.update s k slot) := by
  cases k with
  | scan => rfl
  | outcome => rfl
  | aps => rfl
  | unlisted => rfl

theorem unknown (n : ℤ) (s : table.Slots) (h : ¬table.Known n) :
    ResultSlots.step n (ofTable s) = passOver (ofTable s) := by
  unfold ResultSlots.step
  split
  · exact absurd ⟨.scan, rfl⟩ h
  · exact absurd ⟨.outcome, rfl⟩ h
  · exact absurd ⟨.aps, rfl⟩ h
  · exact absurd ⟨.unlisted, rfl⟩ h
  · rfl

theorem records : table.Records ofTable ResultSlots.step := ⟨known, unknown⟩

def judge (s : table.Slots) : Except LinkError ScanResult := (ofTable s).result.mapError .ofWifi

theorem decode_slots (e : LinkEnvelope) : decode e = bodySlots table e >>= judge :=
  records_slots records (fun s => s.result.mapError .ofWifi) e

def item : ∀ k, Item → Option (table.Value k)
  | .scan => ResultSlots.scanOf
  | .outcome => closedOf ScanOutcome.tryFrom
  | .aps => fun i => some i.spelling
  | .unlisted => u16Of

theorem scan_reads : Reads (fun _ : LinkError => True) 6 ResultSlots.readScan ResultSlots.scanOf :=
  ResultSlots.readScan_reads

theorem outcome_reads : Reads (fun _ : LinkError => True) 6 ResultSlots.readOutcome (closedOf ScanOutcome.tryFrom) :=
  ResultSlots.readOutcome_reads

theorem aps_takes (i : Item) : item .aps i = (.ok i.spelling : Except LinkError Bytes).toOption := rfl

theorem unlisted_reads : Reads (fun _ : LinkError => True) 6 (ask u16) u16Of := .u16 fun _ => trivial

def arms : ∀ k, table.Arm 6 item k
  | .scan => .typed scan_reads
  | .outcome => .typed outcome_reads
  | .aps => .kept .ok raw_checked aps_takes
  | .unlisted => .typed unlisted_reads

/-- A list that goes out inside a link frame, and is read there as it was. -/
def Linkable (list : ScanList) : Prop :=
  ∃ i list', Spells 6 list i ∧ ScanList.read i.spelling list.unlisted = .ok list' ∧ list.Equal list'

def Equal (v v' : ScanResult) : Prop := v.scan = v'.scan ∧ Option.Rel ScanList.Equal v.list v'.list

theorem linkable_built {rows : List AccessPoint} (h : ScanList.Sound rows) (unlisted : UInt16) :
    Linkable ⟨.built rows, unlisted⟩ := by
  obtain ⟨list', hread, -, hequal⟩ := built_equal h unlisted
  have hspells : Spells (4 + 2) ⟨.built rows, unlisted⟩ (rowsItem rows) := built_spells h unlisted
  exact ⟨_, list', hspells, hread, hequal⟩

theorem linkable_read {i : Item} (hi : i.Legal 6) {unlisted : UInt16} {list : ScanList}
    (h : ScanList.read i.spelling unlisted = .ok list) : Linkable list := by
  obtain ⟨-, hequal⟩ := read_equal h
  obtain ⟨count, r, -, -, rfl, -⟩ := ScanList.read_ok.mp h
  exact ⟨i, _, read_spells hi count unlisted, h, hequal⟩

section

variable {v : ScanResult}

def entries (v : ScanResult) : Option (ScanList × List Call) → List (ScanResultKey × List Call)
  | none => [(.scan, [.u64 v.scan.val.toUInt64]), (.outcome, [.u64 v.outcome.byte.toUInt64])]
  | some (list, rows) => [(.scan, [.u64 v.scan.val.toUInt64]), (.outcome, [.u64 v.outcome.byte.toUInt64]), (.aps, rows),
      (.unlisted, [.u64 list.unlisted.toUInt64])]

def items (v : ScanResult) : Option (ScanList × Item) → List (ScanResultKey × Item)
  | none => [(.scan, .ofNat v.scan.val.toNat), (.outcome, .ofNat v.outcome.byte.toNat)]
  | some (list, rows) => [(.scan, .ofNat v.scan.val.toNat), (.outcome, .ofNat v.outcome.byte.toNat), (.aps, rows),
      (.unlisted, .ofNat list.unlisted.toNat)]

theorem head_tells (header : LinkHeader) (keys : UInt64) : Tells
    (mapErr (fun _ => LinkError.cbor .destinationTooSmall) (header.write keys.toNat))
    (scalarCalls header.kind.byte header.session header.reqId keys) := by
  intro w w'
  rw [mapErr_ok, LinkHeader.write, ← writeScalars_calls]

theorem failed_tells (hlist : v.list = none) (header : LinkHeader) : Tells (v.encodeInto header)
    (scalarCalls header.kind.byte header.session header.reqId 2 ++ entryCalls (entries v none)) := by
  unfold encodeInto
  rw [hlist]
  apply (head_tells header 2).append
  exact .cons (c := .key 1) <| .cons (c := .u64 v.scan.val.toUInt64) <| .cons (c := .key 2) <|
    .cons (c := .u64 v.outcome.byte.toUInt64) .none

theorem complete_tells {list : ScanList} (hlist : v.list = some list) {rows : List Call}
    (hrows : Tells list.encodeRows rows) (header : LinkHeader) : Tells (v.encodeInto header)
    (scalarCalls header.kind.byte header.session header.reqId 4 ++ entryCalls (entries v (some (list, rows)))) := by
  unfold encodeInto
  rw [hlist]
  apply (head_tells header 4).append
  have hlast : Tells (encodeList list) (.key 3 :: (rows ++ [.key 4, .u64 list.unlisted.toUInt64])) :=
    .cons (c := .key 3) <| hrows.refused.append <| .cons (c := .key 4) <| .call (.u64 list.unlisted.toUInt64)
  exact .cons (c := .key 1) <| .cons (c := .u64 v.scan.val.toUInt64) <| .cons (c := .key 2) <|
    .cons (c := .u64 v.outcome.byte.toUInt64) hlast

theorem failed_spelled (v : ScanResult) : Spelled 6 (entries v none) (items v none) :=
  .cons ⟨rfl, writes_one rfl⟩ (.cons ⟨rfl, writes_one rfl⟩ .nil)

theorem failed_rising (v : ScanResult) : Rising (items v none) := by
  simp [Rising, items]
  decide

theorem complete_rising (v : ScanResult) (list : ScanList) (i : Item) : Rising (items v (some (list, i))) := by
  simp [Rising, items]
  decide

theorem write_failed (hlist : v.list = none) (header : LinkHeader) (dst : ℕ) (out : Bytes) :
    v.write header dst = .ok out ↔ out = (written header.head (items v none)).item.spelling ∧
      (written header.head (items v none)).item.spelling.length ≤ dst := by
  unfold write
  rw [encodeBody_tells (failed_tells hlist header) (linkBody_tells header 2 _)]
  exact linkBody_ok (failed_spelled v) (failed_rising v) rfl

theorem write_complete {list : ScanList} (hlist : v.list = some list) {i : Item} (h : Spells 6 list i)
    (header : LinkHeader) (dst : ℕ) (out : Bytes) :
    v.write header dst = .ok out ↔ out = (written header.head (items v (some (list, i)))).item.spelling ∧
      (written header.head (items v (some (list, i)))).item.spelling.length ≤ dst := by
  obtain ⟨rows, htells, hwrites⟩ := h.writes
  have hspelled : Spelled 6 (entries v (some (list, rows))) (items v (some (list, i))) :=
    .cons ⟨rfl, writes_one rfl⟩ (.cons ⟨rfl, writes_one rfl⟩ (.cons ⟨rfl, hwrites⟩ (.cons ⟨rfl, writes_one rfl⟩ .nil)))
  unfold write
  rw [encodeBody_tells (complete_tells hlist htells header) (linkBody_tells header 4 _)]
  exact linkBody_ok hspelled (complete_rising v list i) rfl

def slots (v : ScanResult) (list : Option (Bytes × UInt16)) : ∀ k, Option (Value k)
  | .scan => some v.scan
  | .outcome => some v.outcome
  | .aps => list.map Prod.fst
  | .unlisted => list.map Prod.snd

theorem scan_item (scan : ScanNumber) : ResultSlots.scanOf (.ofNat scan.val.toNat) = some scan := by
  rw [ResultSlots.scanOf, u32Of_ofNat, Option.bind_some, scanNumber_val]
  rfl

theorem outcome_item (outcome : ScanOutcome) : closedOf ScanOutcome.tryFrom (.ofNat outcome.byte.toNat) = some outcome := by
  rw [closedOf_byte, ScanOutcome.tryFrom_byte]

theorem number_legal {n : ℕ} (h : n < 2 ^ 32) : (Item.ofNat n).Legal 6 := Item.ofNat_legal (by omega)

theorem outcome_complete {list : ScanList} (hlist : v.list = some list) : v.outcome = .complete := by
  unfold outcome
  rw [hlist]
  rfl

theorem failed_carries (hlist : v.list = none) : table.Carries 6 item judge (items v none) v := by
  have hscan := v.scan.val.toNat_lt
  have houtcome := v.outcome.byte.toNat_lt
  refine ⟨failed_rising v, ?_, slots v none, ?_, ?_, ?_⟩
  · simp only [items, List.forall_mem_cons]
    exact ⟨number_legal (by omega), number_legal (by omega), by simp⟩
  · simp only [items, List.forall_mem_cons]
    exact ⟨⟨scan_item v.scan, rfl⟩, ⟨outcome_item v.outcome, rfl⟩, by simp⟩
  · intro k hk
    cases k with
    | scan => simp [items] at hk
    | outcome => simp [items] at hk
    | aps => rfl
    | unlisted => rfl
  · obtain ⟨scan, list⟩ := v
    obtain rfl := hlist
    rfl

theorem complete_carries {list list' : ScanList} (hlist : v.list = some list) {i : Item} (hi : i.Legal 6)
    (hread : ScanList.read i.spelling list.unlisted = .ok list') :
    table.Carries 6 item judge (items v (some (list, i))) ⟨v.scan, some list'⟩ := by
  have hscan := v.scan.val.toNat_lt
  have houtcome := v.outcome.byte.toNat_lt
  have hunlisted := list.unlisted.toNat_lt
  refine ⟨complete_rising v list i, ?_, slots v (some (i.spelling, list.unlisted)), ?_, ?_, ?_⟩
  · simp only [items, List.forall_mem_cons]
    exact ⟨number_legal (by omega), number_legal (by omega), hi, number_legal (by omega), by simp⟩
  · simp only [items, List.forall_mem_cons]
    exact ⟨⟨scan_item v.scan, rfl⟩, ⟨outcome_item v.outcome, rfl⟩, ⟨rfl, rfl⟩, ⟨u16Of_ofNat list.unlisted, rfl⟩, by simp⟩
  · intro k hk
    cases k <;> simp [items] at hk
  · have hfound : ResultSlots.list (ofTable (slots v (some (i.spelling, list.unlisted)))) .complete = .ok (some list') := by
      change (ScanList.read i.spelling list.unlisted >>= fun list => .ok (some list)) = _
      rw [hread]
      rfl
    have hresult : (ofTable (slots v (some (i.spelling, list.unlisted)))).result = .ok ⟨v.scan, some list'⟩ :=
      bind_ok.mpr ⟨v.scan, rfl, bind_ok.mpr ⟨.complete, congrArg Except.ok (outcome_complete hlist),
        bind_ok.mpr ⟨some list', hfound, rfl⟩⟩⟩
    exact mapError_ok.mpr hresult

theorem scalars_wrote {opcode : UInt8} {session : Sealed.SessionId} {reqId : UInt32} {keys : UInt64} {calls : List Call} {dst : ℕ}
    {w' : CborWriter} (h : writeAll (scalarCalls opcode session reqId keys ++ calls) (.new dst) = .ok ((), w')) :
    ∃ w, w.stack.length = 1 ∧ writeAll (.map keys :: calls) w = .ok ((), w') := by
  obtain ⟨⟨⟩, w₁, h₁, h⟩ := bind_run_ok.mp h
  obtain ⟨⟨⟩, w₂, h₂, h⟩ := bind_run_ok.mp h
  obtain ⟨⟨⟩, w₃, h₃, h⟩ := bind_run_ok.mp h
  obtain ⟨⟨⟩, w₄, h₄, h⟩ := bind_run_ok.mp h
  refine ⟨w₄, ?_, h⟩
  obtain ⟨-, -, -, rfl⟩ := box_wrote h₁
  have hsecond : w₂.stack = _ := (u64_counted h₂).2.2.stack.trans (stack_counted _)
  have hthird : w₃.stack = _ := (u64_counted h₃).2.2.stack.trans (stack_counted _)
  have hfourth : w₄.stack = _ := (u64_counted h₄).2.2.stack.trans (stack_counted _)
  rw [hfourth, hthird, hsecond, stack_inside]
  rfl

theorem written_rows {count : ℕ} {rows : Bytes} {unlisted : UInt16} (hlist : v.list = some ⟨.read rows count, unlisted⟩)
    {header : LinkHeader} {dst : ℕ} {out : Bytes} (h : v.write header dst = .ok out) :
    ∃ i : Item, i.Legal 6 ∧ i.spelling = rows := by
  have htells : Tells (v.encodeInto header) (scalarCalls header.kind.byte header.session header.reqId 4 ++
      entryCalls (entries v (some (⟨.read rows count, unlisted⟩, [.raw rows])))) :=
    complete_tells hlist (.call (.raw rows)) header
  obtain ⟨w, w', len, hw, -⟩ := (encodeBody_ok htells).mp h
  obtain ⟨w₁, hstack, hrest⟩ := scalars_wrote hw
  have hcalls : entryCalls (entries v (some (⟨.read rows count, unlisted⟩, [.raw rows]))) =
      entryCalls (entries v none) ++ .key 3 :: .raw rows :: [.key 4, .u64 unlisted.toUInt64] := rfl
  rw [hcalls] at hrest
  exact spliced_in (m := 1) (failed_spelled v).pairs rfl (failed_rising v).ascends (by rw [hstack]; rfl) hrest

theorem made_linkable (hmade : ∀ list, v.list = some list → Accepted list) {header : LinkHeader} {dst : ℕ} {out : Bytes}
    (h : v.write header dst = .ok out) (list : ScanList) (hlist : v.list = some list) : Linkable list := by
  rcases (hmade list hlist).source with ⟨rows, unlisted, hsound, rfl⟩ | ⟨i, -, hread⟩
  · exact linkable_built hsound unlisted
  · obtain ⟨count, r, -, -, heq, -⟩ := ScanList.read_ok.mp hread
    rw [heq] at hlist
    obtain ⟨j, hj, hspell⟩ := written_rows hlist h
    rw [← hspell] at hread
    exact linkable_read hj hread

theorem accepts {ps : List (Key × Item)} {s : table.Slots} (hlegal : LegalPairs 6 ps)
    (hslots : ∀ k, Table.SlotOf item ps s k) (h : judge s = .ok v) (list : ScanList) (hlist : v.list = some list) :
    Linkable list := by
  obtain ⟨scan, -, h⟩ := bind_ok.mp (mapError_ok.mp h)
  obtain ⟨outcome, -, h⟩ := bind_ok.mp h
  obtain ⟨found, hfound, h⟩ := bind_ok.mp h
  cases h
  obtain ⟨-, -, -, hread⟩ := ResultSlots.list_some hfound
  obtain ⟨rows, hrows, hread⟩ := hread list hlist
  have hslot := hslots .aps
  have hpresent : HasKey ps (BodyKey.number ScanResultKey.aps) := hslot.has.mpr (by
    change (ofTable s).rows.isSome
    rw [hrows]
    rfl)
  cases hvalue : valueAt ps (BodyKey.number ScanResultKey.aps) with
  | none =>
    have hempty := (Table.slotOf_absent hvalue).mp hslot
    cases hempty.symm.trans hrows
  | some i =>
    have htaken := ((Table.slotOf_present hvalue).mp hslot).1
    obtain ⟨key, -, hmem⟩ := valueAt_mem hvalue
    obtain rfl : i.spelling = rows := Option.some.inj (htaken.trans hrows)
    exact linkable_read (hlegal _ hmem).2 hread

end

theorem laws : LinkLaws (fun v => ∀ list, v.list = some list → Accepted list)
    (fun v => ∀ list, v.list = some list → Linkable list) (fun _ => True) Equal write decode table.Known [1, 2] := by
  have hneeds : ∀ s v, judge s = .ok v → ∀ k ∈ [ScanResultKey.scan, .outcome], (s k).isSome := by
    intro s v h k hk
    obtain ⟨scan, hscan, h⟩ := bind_ok.mp (mapError_ok.mp h)
    obtain ⟨outcome, houtcome, -⟩ := bind_ok.mp h
    cases k with
    | scan => exact Option.isSome_iff_exists.mpr ⟨scan, slotRequired_ok.mp hscan⟩
    | outcome => exact Option.isSome_iff_exists.mpr ⟨outcome, slotRequired_ok.mp houtcome⟩
    | aps => simp at hk
    | unlisted => simp at hk
  apply linkLaws arms decode_slots (fun v header dst out hmade h => made_linkable hmade h) ?_
    (fun ps s v hlegal hslots h _ => accepts hlegal hslots h) hneeds
  · intro v hv
    cases hlist : v.list with
    | none =>
      refine ⟨items v none, v, ⟨rfl, ?_⟩, failed_carries hlist, write_failed hlist⟩
      rw [hlist]
      exact .none
    | some list =>
      obtain ⟨i, list', hspells, hread, hequal⟩ := hv list hlist
      refine ⟨items v (some (list, i)), ⟨v.scan, some list'⟩, ⟨rfl, ?_⟩, complete_carries hlist hspells.legal hread,
        write_complete hlist hspells⟩
      rw [hlist]
      exact .some hequal

end ScanResult

def SidesSay (up : LinkUp) : Prop :=
  (up.role = .controller ∧ up.netVersion = none ∧ up.netOrigin = none ∧ up.deviceId.isSome) ∨
    (up.role = .comms ∧ up.deviceId = none ∧
      (up.netOrigin.isSome → ∃ version, up.netVersion = some version ∧ version ≠ 0))

theorem LinkUp.sides_say : (∀ up header dst out, LinkUp.write up header dst = .ok out → SidesSay up) ∧
    ∀ bytes head up, Receives LinkUp.decode bytes head up → SidesSay up := by
  constructor
  · intro up header dst out h
    exact up.sidesAgree_iff.mp (LinkUp.checks_ok.mp (LinkUp.laws.sends up header dst out trivial h)).2.2.2
  · rintro bytes head up ⟨e, -, -, h⟩
    exact up.sidesAgree_iff.mp (LinkUp.decode_sides h)

/-- Every body of the link is one format over two processors: what one of them sends, the other reads as it was. -/
theorem link_bodies_agree :
    LinkLaws (fun _ => True) (fun up : LinkUp => up.checks = .ok ()) (fun up => Firmware.conforms up.fw.raw) Eq
      LinkUp.write LinkUp.decode LinkUp.table.Known [1, 2, 3, 4, 5, 6] ∧
    (∀ up header dst out, LinkUp.write up header dst = .ok out → SidesSay up) ∧
    (∀ bytes head up, Receives LinkUp.decode bytes head up → SidesSay up) ∧
    LinkLaws (fun _ => True) (fun _ => True) (fun _ => True) Eq Heartbeat.write Heartbeat.decode Heartbeat.table.Known
      [1, 2] ∧
    LinkLaws (fun _ => True) (fun v => v.conn ≠ 0 ∧ v.peer.raw.length ≤ maxString) (fun _ => True) Eq ClientUp.write
      ClientUp.decode ClientUp.table.Known [1, 2, 3] ∧
    LinkLaws (fun _ => True) (fun v => v.conn ≠ 0) (fun _ => True) Eq ClientDown.write ClientDown.decode
      ClientDown.table.Known [1, 2] ∧
    LinkLaws (fun _ => True) (fun _ => True) (fun _ => True) Eq CloseConnections.write CloseConnections.decode
      CloseConnections.table.Known [1, 2] ∧
    LinkLaws (fun _ => True) (fun _ => True) (fun _ => True) Eq CloseReport.write CloseReport.decode
      CloseReport.table.Known [1, 2] ∧
    LinkLaws (fun _ => True) (fun v => v.source = ntp ∧ bounded .server v.server.raw = .ok ()) (fun _ => True) Eq
      ClockOffer.write ClockOffer.decode ClockOffer.table.Known [1, 2, 3, 4] ∧
    LinkLaws (fun _ => True) (fun _ => True) (fun _ => True) Eq NetVerdict.write NetVerdict.decode
      NetVerdict.table.Known [1, 2] ∧
    LinkLaws (fun _ => True) (fun v => Releasable v.version) (fun v => Firmware.conforms v.version.raw) Eq
      ReleaseRequest.write ReleaseRequest.decode ReleaseRequest.table.Known [1, 2, 3, 4] ∧
    LinkLaws (fun _ => True) (fun v => Releasable v.version) (fun v => Firmware.conforms v.version.raw) Eq
      ReleaseVerdict.write ReleaseVerdict.decode ReleaseVerdict.table.Known [1, 2, 3] ∧
    LinkLaws (fun _ => True) (fun _ => True) (fun _ => True) Eq ClientUpAck.write ClientUpAck.decode
      (outcomeOnly ClientConnected).table.Known [1] ∧
    LinkLaws (fun _ => True) (fun _ => True) (fun _ => True) Eq ClientDownAck.write ClientDownAck.decode
      (outcomeOnly ClientDisconnected).table.Known [1] ∧
    LinkLaws (fun _ => True) (fun _ => True) (fun _ => True) Eq TimeVerdict.write TimeVerdict.decode
      (outcomeOnly TimeOffer).table.Known [1] ∧
    LinkLaws (fun _ => True) (fun _ => True) (fun _ => True) Eq DownloadRequest.write DownloadRequest.decode
      DownloadRequest.body.table.Known [1] ∧
    LinkLaws (fun _ => True) (fun _ => True) (fun _ => True) Eq DownloadVerdict.write DownloadVerdict.decode
      (outcomeOnly EnterDownload).table.Known [1] ∧
    LinkLaws (fun _ => True) (fun _ => True) (fun _ => True) Eq ScanOrder.write ScanOrder.decode
      scanOnly.table.Known [1] ∧
    LinkLaws (fun _ => True) (fun _ => True) (fun _ => True) Eq ScanOrderVerdict.write ScanOrderVerdict.decode
      ScanOrderVerdict.body.table.Known [1] ∧
    LinkLaws (fun v : ScanResult => ∀ list, v.list = some list → Accepted list)
      (fun v => ∀ list, v.list = some list → ScanResult.Linkable list) (fun _ => True) ScanResult.Equal ScanResult.write
      ScanResult.decode ScanResult.table.Known [1, 2] ∧
    LinkLaws (fun _ => True) (fun _ => True) (fun _ => True) Eq ScanResultAck.write ScanResultAck.decode
      scanOnly.table.Known [1] :=
  ⟨LinkUp.laws, LinkUp.sides_say.1, LinkUp.sides_say.2, Heartbeat.laws, ClientUp.laws, ClientDown.laws,
    CloseConnections.laws, CloseReport.laws, ClockOffer.laws, NetVerdict.laws, ReleaseRequest.laws, ReleaseVerdict.laws,
    ClientUpAck.laws, ClientDownAck.laws, TimeVerdict.laws, DownloadRequest.laws, DownloadVerdict.laws, ScanOrder.laws,
    ScanOrderVerdict.laws, ScanResult.laws, ScanResultAck.laws⟩

end Km43.Wifi
