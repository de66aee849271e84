import Km43.Cbor.Typed
import Km43.Limits

namespace Km43.Readings

open Cbor

structure Id where
  raw : UInt16
  nonzero : raw ≠ 0

inductive Validity
  | ok
  | stale
  | initialising
  | unsupported
  | sensorFault
  | outOfRange
  | absent
  | unnamedState
  | reset
  deriving DecidableEq

namespace Validity

def byte : Validity → UInt8
  | ok => 1
  | stale => 2
  | initialising => 3
  | unsupported => 4
  | sensorFault => 5
  | outOfRange => 6
  | absent => 7
  | unnamedState => 8
  | reset => 9

def tryFrom (v : UInt8) : Option Validity :=
  if v = 1 then some ok else if v = 2 then some stale else if v = 3 then some initialising
  else if v = 4 then some unsupported else if v = 5 then some sensorFault else if v = 6 then some outOfRange
  else if v = 7 then some absent else if v = 8 then some unnamedState else if v = 9 then some reset
  else none

end Validity

inductive Provenance
  | none
  | measured
  | counted
  | derived
  | estimated
  | reported
  | commanded
  deriving DecidableEq

namespace Provenance

def byte : Provenance → UInt8
  | none => 0
  | measured => 1
  | counted => 2
  | derived => 3
  | estimated => 4
  | reported => 5
  | commanded => 6

def tryFrom (v : UInt8) : Option Provenance :=
  if v = 0 then some none else if v = 1 then some measured else if v = 2 then some counted
  else if v = 3 then some derived else if v = 4 then some estimated else if v = 5 then some reported
  else if v = 6 then some commanded else Option.none

end Provenance

inductive QualityError
  | noValueToCarry (validity : Validity)
  | valueOmitted (validity : Validity)
  | carryingWithoutProvenance
  | staleWithoutAge
  | ageWithoutStaleness (validity : Validity)
  | disagree (validity : Validity) (provenance : Provenance)
  | unknownValidity (number : UInt8)
  | unknownProvenance (number : UInt8)
  | seriesLength (len : ℕ)
  | valueCount (want got : ℕ)
  deriving DecidableEq

def hasValue : Validity → Bool
  | .ok | .stale | .reset => true
  | .initialising | .unsupported | .sensorFault | .outOfRange | .absent | .unnamedState => false

def pack (validity : Validity) (provenance : Provenance) : UInt8 := validity.byte <<< 4 ||| provenance.byte

/-- A reading's two answers in one byte, both known and of one mind on whether there is a number. -/
structure SignalQuality where
  byte : UInt8
  agrees : ∃ validity provenance, byte = pack validity provenance ∧
    (hasValue validity = true ↔ provenance ≠ .none)

namespace SignalQuality

theorem packed (byte : UInt8) : ∀ validity ∈ Validity.tryFrom (byte >>> 4),
    ∀ provenance ∈ Provenance.tryFrom (byte &&& 0x0F), byte = pack validity provenance := by
  have hall : ∀ n : Fin 256, ∀ validity ∈ Validity.tryFrom (UInt8.ofNat n >>> 4),
      ∀ provenance ∈ Provenance.tryFrom (UInt8.ofNat n &&& 0x0F), UInt8.ofNat n = pack validity provenance := by
    decide +kernel
  have hbyte := hall ⟨byte.toNat, byte.toNat_lt⟩
  simp only [UInt8.ofNat_toNat] at hbyte
  exact hbyte

theorem of_one_mind {validity : Validity} {provenance : Provenance}
    (h : ¬hasValue validity = decide (provenance = .none)) : hasValue validity = true ↔ provenance ≠ .none := by
  by_cases hsource : provenance = .none
  · simp only [hsource, decide_true, Bool.not_eq_true] at h ⊢
    simp [h]
  · rw [decide_eq_false hsource, Bool.not_eq_false] at h
    exact iff_of_true h hsource

theorem has_source {validity : Validity} {provenance : Provenance} (hvalue : hasValue validity = true)
    (hsource : ¬provenance = .none) : ∃ v p, pack validity provenance = pack v p ∧ (hasValue v = true ↔ p ≠ .none) :=
  ⟨validity, provenance, rfl, iff_of_true hvalue hsource⟩

theorem has_none {validity : Validity} (hvalue : ¬hasValue validity = true) :
    ∃ v p, pack validity .none = pack v p ∧ (hasValue v = true ↔ p ≠ .none) :=
  ⟨validity, .none, rfl, iff_of_false hvalue fun h => h rfl⟩

theorem both_known {byte : UInt8} {validity : Validity} {provenance : Provenance}
    (hvalidity : Validity.tryFrom (byte >>> 4) = some validity)
    (hprovenance : Provenance.tryFrom (byte &&& 0x0F) = some provenance)
    (hagree : ¬hasValue validity = decide (provenance = .none)) :
    ∃ v p, byte = pack v p ∧ (hasValue v = true ↔ p ≠ .none) :=
  ⟨validity, provenance, packed byte validity hvalidity provenance hprovenance, of_one_mind hagree⟩

def carrying (validity : Validity) (provenance : Provenance) : Except QualityError SignalQuality :=
  if hvalue : hasValue validity = true then
    if hsource : provenance = .none then .error .carryingWithoutProvenance
    else .ok ⟨pack validity provenance, has_source hvalue hsource⟩
  else .error (.noValueToCarry validity)

def absent (validity : Validity) : Except QualityError SignalQuality :=
  if hvalue : hasValue validity = true then .error (.valueOmitted validity)
  else .ok ⟨pack validity .none, has_none hvalue⟩

def fromByte (raw : UInt8) : Except QualityError SignalQuality :=
  match hvalidity : Validity.tryFrom (raw >>> 4) with
  | none => .error (.unknownValidity (raw >>> 4))
  | some validity =>
    match hprovenance : Provenance.tryFrom (raw &&& 0x0F) with
    | none => .error (.unknownProvenance (raw &&& 0x0F))
    | some provenance =>
      if hagree : hasValue validity = decide (provenance = .none) then .error (.disagree validity provenance)
      else .ok ⟨raw, both_known hvalidity hprovenance hagree⟩

def validityOf (q : SignalQuality) : Validity :=
  if q.byte >>> 4 = 2 then .stale else if q.byte >>> 4 = 3 then .initialising
  else if q.byte >>> 4 = 4 then .unsupported else if q.byte >>> 4 = 5 then .sensorFault
  else if q.byte >>> 4 = 6 then .outOfRange else if q.byte >>> 4 = 7 then .absent
  else if q.byte >>> 4 = 8 then .unnamedState else if q.byte >>> 4 = 9 then .reset
  else .ok

def carriesValue (q : SignalQuality) : Bool := hasValue q.validityOf

def isStale (q : SignalQuality) : Bool := decide (q.validityOf = .stale)

theorem ext {a b : SignalQuality} (h : a.byte = b.byte) : a = b := by
  cases a
  cases b
  cases h
  rfl

theorem fromByte_byte (q : SignalQuality) : fromByte q.byte = .ok q := by
  have hhalves : ∀ validity provenance, Validity.tryFrom (pack validity provenance >>> 4) = some validity ∧
      Provenance.tryFrom (pack validity provenance &&& 0x0F) = some provenance := by
    intro validity provenance
    cases validity <;> cases provenance <;> exact ⟨rfl, rfl⟩
  obtain ⟨validity, provenance, hbyte, hagree⟩ := q.agrees
  obtain ⟨hvalidity, hprovenance⟩ := hhalves validity provenance
  rw [← hbyte] at hvalidity hprovenance
  unfold fromByte
  split
  · rename_i hnone
    rw [hvalidity] at hnone
    cases hnone
  · rename_i validity' hsome
    rw [hvalidity] at hsome
    cases hsome
    split
    · rename_i hnone
      rw [hprovenance] at hnone
      cases hnone
    · rename_i provenance' hsome
      rw [hprovenance] at hsome
      cases hsome
      rw [dif_neg]
      intro h
      by_cases hvalue : hasValue validity = true
      · simp [hvalue, hagree.mp hvalue] at h
      · have hnone : provenance = .none := by
          by_contra hne
          exact hvalue (hagree.mpr hne)
        simp [hvalue, hnone] at h

end SignalQuality

inductive ReadingsOutcome
  | ok
  | superseded
  | unknownSelector
  | outOfRange
  deriving DecidableEq

namespace ReadingsOutcome

def number : ReadingsOutcome → UInt8
  | ok => 1
  | superseded => 2
  | unknownSelector => 3
  | outOfRange => 4

def of (number : UInt8) : Option ReadingsOutcome :=
  if number = 1 then some ok else if number = 2 then some superseded else if number = 3 then some unknownSelector
  else if number = 4 then some outOfRange else none

@[simp] theorem of_number (outcome : ReadingsOutcome) : of outcome.number = some outcome := by
  cases outcome <;> rfl

end ReadingsOutcome

inductive ReadingsError
  | duplicate (key : UInt8)
  | zeroId
  | missingResponse (key : UInt8)
  | rowTooLong (len : ℕ)
  | answeredNothing (outcome : ReadingsOutcome)
  | unknownOutcome (number : UInt8)
  | quality (why : QualityError)
  | cbor (why : CborError)
  deriving DecidableEq

instance : FromCbor ReadingsError := ⟨.cbor⟩

def Id.new (value : UInt16) : Except ReadingsError Id :=
  if h : value = 0 then .error .zeroId else .ok ⟨value, h⟩

theorem Id.new_raw (id : Id) : Id.new id.raw = .ok id := dif_neg id.nonzero

theorem Id.ext {a b : Id} (h : a.raw = b.raw) : a = b := by
  cases a
  cases b
  cases h
  rfl

end Km43.Readings
