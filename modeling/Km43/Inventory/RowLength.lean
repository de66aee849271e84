import Km43.Inventory.Walk

namespace Km43.Inventory

open Library Cbor CborWriter

inductive ErrorCode
  | malformedFrame
  | payloadTooLarge
  deriving DecidableEq

def InventoryError.refusal : InventoryError → ErrorCode
  | rowTooLong _ => .payloadTooLarge
  | _ => .malformedFrame

theorem Value.write_only {kind : RowKind} {key : UInt8} {value : Value} (h : value.isAbsent = false) :
    WriterOnly (value.write kind key) := by
  cases value with
  | u8 | u16 | u32 | i8 | i32 | text | bytes => exact .tell _
  | u16List => exact .bind (.tell _) fun _ => .forM fun _ _ => .tell _
  | absent => cases h

namespace Row

variable {row : Row} {bytes : Bytes}

theorem encode_only (row : Row) : WriterOnly row.encode := by
  refine .bind (.tell _) fun _ => .forM fun p hp => .bind (.tell _) fun _ => Value.write_only ?_
  simpa using (List.mem_filter.mp hp).2

def EncodesTo (row : Row) (bytes : Bytes) : Prop := ∃ dst : UInt64, encodeBody row.encode dst.toNat = .ok bytes

theorem encodedLen_error {why : InventoryError} (h : row.encodedLen = .error why) :
    ∃ refused : CborError, why = .cbor refused := by
  cases hone : row.encoded with
  | ok one =>
    rw [encodedLen, hone] at h
    cases h
  | error refused =>
    rw [encodedLen, hone] at h
    cases h
    exact row.encode_only.body hone

theorem EncodesTo.within (h : row.EncodesTo bytes) (hlen : bytes.length ≤ maxRowBytes) :
    encodeBody row.encode maxRowBytes = .ok bytes := by
  obtain ⟨dst, hdst⟩ := h
  have hshort := encode_short dst.toNat_lt hdst
  obtain ⟨rfl, -⟩ := (encode_ok hshort).mp hdst
  exact (encode_ok hshort).mpr ⟨rfl, hlen⟩

end Row

namespace Page

/-- A row past the limit is refused as one, the page left as it was; a row within it is refused by neither call. -/
def JudgesLength (page : Page) (row : Row) (id : UInt16) : Prop :=
  ∀ bytes, row.EncodesTo bytes →
    (maxRowBytes < bytes.length → (∃ len, row.encodedLen = .error (.rowTooLong len)) ∧
      (row.kind = page.kind → ∃ len, page.push row id = (.error (.rowTooLong len), page))) ∧
    (bytes.length ≤ maxRowBytes → row.encodedLen = .ok bytes.length ∧
      (row.kind = page.kind → ∃ took, (page.push row id).1 = .ok took))

variable {page : Page} {row : Row} {id : UInt16}

/-- Only a row within the limit is judged by its length, since a longer one is the writer's to refuse. -/
theorem judgesLength_iff (page : Page) (row : Row) (id : UInt16) :
    page.JudgesLength row id ↔ ∀ bytes, row.EncodesTo bytes → bytes.length ≤ maxRowBytes := by
  constructor
  · intro h bytes hbytes
    by_contra hlong
    obtain ⟨len, hlen⟩ := ((h bytes hbytes).1 (Nat.lt_of_not_le hlong)).1
    obtain ⟨refused, hrefused⟩ := Row.encodedLen_error hlen
    cases hrefused
  · intro h bytes hbytes
    have hone := hbytes.within (h bytes hbytes)
    constructor
    · intro hlong
      exact absurd (h bytes hbytes) (Nat.not_le.mpr hlong)
    · intro _
      constructor
      · change List.length <$> encodeBody row.encode maxRowBytes = _
        rw [hone]
        rfl
      · intro hkind
        rw [push_same hkind]
        exact Packed.push_answers hone

/-- A device of three texts as long as texts may be is 214 bytes, and is refused as a destination's fault. -/
theorem long_refused : (∃ bytes, Catalogue.longRow.EncodesTo bytes ∧ bytes.length = 214) ∧
    Catalogue.longRow.encodedLen = .error (.cbor .destinationTooSmall) ∧
    ((new .device).push Catalogue.longRow 1).1 = .error (.cbor .destinationTooSmall) ∧
    (InventoryError.cbor .destinationTooSmall).refusal = .malformedFrame ∧
    ¬ (new .device).JudgesLength Catalogue.longRow 1 := by
  have hencodes : ∃ bytes, Catalogue.longRow.EncodesTo bytes ∧ bytes.length = 214 := by
    have hlen : (encodeBody Catalogue.longRow.encode (256 : UInt64).toNat).toOption.map List.length = some 214 := by
      decide +kernel
    cases hrun : encodeBody Catalogue.longRow.encode (256 : UInt64).toNat with
    | ok bytes =>
      rw [hrun] at hlen
      exact ⟨bytes, ⟨256, hrun⟩, Option.some.inj hlen⟩
    | error why =>
      rw [hrun] at hlen
      cases hlen
  refine ⟨hencodes, by decide +kernel, ?_, rfl, ?_⟩
  · rw [push_same rfl]
    decide +kernel
  · intro h
    obtain ⟨bytes, hbytes, hlen⟩ := hencodes
    have hle := (judgesLength_iff _ _ _).mp h bytes hbytes
    rw [hlen] at hle
    exact absurd hle (by decide)

end Page

end Km43.Inventory
