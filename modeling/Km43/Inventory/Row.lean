import Km43.Inventory.Kinds
import Km43.Library.Fallible

namespace Km43.Inventory

open Library Cbor

structure ElementLabels where
  base : UInt16
  elements : UInt8

def ElementLabels.unlabelled : UInt16 := 1
def ElementLabels.shortest : UInt8 := 2

def When.vendorRange : UInt16 := 0xF000
def When.series : UInt16 := 2
def When.enum : UInt16 := 3
def When.flags : UInt16 := 4

def MetricKind.dcEnergy : UInt16 := 0x0106
def MetricKind.dcCharge : UInt16 := 0x0107

structure RowValues where
  kind : RowKind
  values : List Value

namespace RowValues

def value (row : RowValues) (key : UInt8) : Option Value := do
  let place ← row.kind.fields.findIdx? fun field => field.key = key
  row.values[place]?

def number (row : RowValues) (key : UInt8) : Option UInt16 :=
  match row.value key with
  | some (.u8 v) => some v.toUInt16
  | some (.u16 v) => some v
  | _ => none

def get (row : RowValues) (key : UInt8) : Option Value :=
  match row.value key with
  | some held => if held.isAbsent then none else some held
  | none => none

def holds (row : RowValues) : When → Bool
  | .kindIsAVendorsOwn => (row.number kindKey).any fun k => k ≥ When.vendorRange
  | .shapeIsASeries => row.number shapeKey = some When.series
  | .valueComesFromASpace => (row.number vtypeKey).any fun v => v = When.enum ∨ v = When.flags

def member (number : UInt16) : Option UInt8 :=
  if number.toNat < 256 then some number.toUInt8 else none

def labels (row : RowValues) : Option ElementLabels :=
  if row.kind ≠ .signal ∨ row.number shapeKey ≠ some When.series then none
  else do
    let n ← row.number nKey
    let elements ← member n
    some ⟨(row.number ebaseKey).getD ElementLabels.unlabelled, elements⟩

def lengthHolds (row : RowValues) : Except InventoryError Unit :=
  if row.values.length ≠ row.kind.fields.length then
    .error (.rowShape row.kind row.kind.fields.length row.values.length)
  else .ok ()

def zeroHolds (row : RowValues) : Except InventoryError Unit :=
  match row.kind, row.values with
  | .component, .u16 0 :: _ => .error (.reservedZero .component 1)
  | .signal, .u16 0 :: _ => .error (.reservedZero .signal 1)
  | _, _ => .ok ()

def fieldHolds (kind : RowKind) (field : Field) (value : Value) : Except InventoryError Unit :=
  if value.isAbsent then
    if field.optional then .ok () else .error (.missingRequired kind field.key)
  else if value.fits field.ty then .ok ()
  else .error (.wrongType kind field.key)

def fieldsHold (row : RowValues) : Except InventoryError Unit :=
  (row.kind.fields.zip row.values).forM fun p => fieldHolds row.kind p.1 p.2

def membersHold (row : RowValues) : Except InventoryError Unit :=
  row.kind.closed.forM fun p =>
    match row.value p.1 with
    | some (.u8 value) => if p.2.holds value then .ok () else .error (.notAMember row.kind p.1 p.2 value)
    | _ => .ok ()

def conditionsHold (row : RowValues) : Except InventoryError Unit :=
  row.kind.conditional.forM fun p =>
    let wanted := row.holds p.2
    let there := (row.get p.1).isSome
    if wanted ∧ ¬there then .error (.missingConditional row.kind p.1 p.2)
    else if ¬wanted ∧ there then .error (.unexpectedConditional row.kind p.1 p.2)
    else .ok ()

def everyElementCanBeNamed (row : RowValues) : Except InventoryError Unit :=
  match row.labels with
  | none => .ok ()
  | some labels =>
    if labels.elements < ElementLabels.shortest then .error (.seriesTooShort labels.elements)
    else if labels.elements.toNat > maxSeriesLen then .error (.seriesTooLong labels.elements)
    else if labels.base.toNat + (labels.elements.toNat - 1) ≥ 2 ^ 16 then
      .error (.labelPastRange labels.base labels.elements)
    else .ok ()

def oneWay : Option Vtype → Option Devices.Direction → Bool
  | some .counter, some .positiveIsIn | some .counter, some .positiveIsOut => true
  | _, _ => false

def aDcCounterCountsOneWay (row : RowValues) : Except InventoryError Unit :=
  match row.kind, row.number kindKey with
  | .signal, some metric | .param, some metric =>
    let counter := ((row.number vtypeKey).bind member).bind Vtype.tryFrom
    let dir := ((row.number dirKey).bind member).bind Devices.Direction.tryFrom
    if metric ≠ MetricKind.dcEnergy ∧ metric ≠ MetricKind.dcCharge then .ok ()
    else if oneWay counter dir then .ok ()
    else .error (.counterNotOneWay row.kind metric)
  | _, _ => .ok ()

def check (row : RowValues) : Except InventoryError Unit := do
  row.lengthHolds
  row.zeroHolds
  row.fieldsHold
  row.membersHold
  row.conditionsHold
  row.everyElementCanBeNamed
  row.aDcCounterCountsOneWay

end RowValues

structure Row extends RowValues where
  legal : toRowValues.check = .ok ()

namespace Row

def new (kind : RowKind) (values : List Value) : Except InventoryError Row :=
  match h : RowValues.check ⟨kind, values⟩ with
  | .ok () => .ok ⟨⟨kind, values⟩, h⟩
  | .error why => .error why

theorem ext {a b : Row} (h : a.toRowValues = b.toRowValues) : a = b := by
  cases a
  cases b
  cases h
  rfl

theorem new_ok {kind : RowKind} {values : List Value} {row : Row} :
    new kind values = .ok row ↔ row.toRowValues = ⟨kind, values⟩ := by
  unfold new
  split
  · rename_i h
    constructor
    · rintro ⟨⟩
      rfl
    · intro he
      rw [Except.ok.injEq]
      exact ext he.symm
  · rename_i why h
    constructor
    · intro he
      cases he
    · intro he
      rw [← he, row.legal] at h
      cases h

theorem length (row : Row) : row.values.length = row.kind.fields.length := by
  obtain ⟨hlength, -⟩ := seq_ok.mp row.legal
  unfold RowValues.lengthHolds at hlength
  split_ifs at hlength with h
  simpa using h

theorem fieldHolds (row : Row) : ∀ p ∈ row.kind.fields.zip row.values,
    RowValues.fieldHolds row.kind p.1 p.2 = .ok () := by
  obtain ⟨-, h⟩ := seq_ok.mp row.legal
  obtain ⟨-, h⟩ := seq_ok.mp h
  exact (forM_ok _ _).mp (seq_ok.mp h).1

end Row

end Km43.Inventory
