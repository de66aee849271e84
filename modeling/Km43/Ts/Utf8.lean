import Km43.Cbor.Reader

namespace Km43.Ts

open Cbor ByteArray.utf8DecodeChar?

/-- How many bytes a character of this lead byte is, and the range of the second of them. -/
def leadByte (lead : UInt8) : Option (ℕ × UInt8 × UInt8) :=
  if lead ≥ 0xC2 ∧ lead ≤ 0xDF then some (2, 0x80, 0xBF)
  else if lead ≥ 0xE0 ∧ lead ≤ 0xEF then
    some (3, if lead = 0xE0 then 0xA0 else 0x80, if lead = 0xED then 0x9F else 0xBF)
  else if lead ≥ 0xF0 ∧ lead ≤ 0xF4 then
    some (4, if lead = 0xF0 then 0x90 else 0x80, if lead = 0xF4 then 0x8F else 0xBF)
  else none

def continues : ℕ → UInt8 → UInt8 → Bytes → Bool
  | 0, _, _, _ => true
  | _ + 1, _, _, [] => false
  | more + 1, low, high, next :: rest =>
    if next < low ∨ next > high then false else continues more 0x80 0xBF rest

def isUtf8 : Bytes → Bool
  | [] => true
  | lead :: rest =>
    if lead < 0x80 then isUtf8 rest
    else
      match leadByte lead with
      | none => false
      | some (length, low, high) =>
        if continues (length - 1) low high rest then isUtf8 (rest.drop (length - 1)) else false
termination_by bytes => bytes.length
decreasing_by all_goals simp; try omega

theorem byte_cases {P : UInt8 → Prop} (h : ∀ n : Fin 256, P (UInt8.ofNat n)) (b : UInt8) : P b := by
  simpa using h ⟨b.toNat, b.toNat_lt⟩

theorem lead_bits (b : UInt8) :
    (b &&& 0x80 = 0 ↔ b.toNat < 0x80) ∧ (b &&& 0xE0 = 0xC0 ↔ 0xC0 ≤ b.toNat ∧ b.toNat < 0xE0) ∧
      (b &&& 0xF0 = 0xE0 ↔ 0xE0 ≤ b.toNat ∧ b.toNat < 0xF0) ∧
      (b &&& 0xF8 = 0xF0 ↔ 0xF0 ≤ b.toNat ∧ b.toNat < 0xF8) ∧
      (b &&& 0xC0 = 0x80 ↔ 0x80 ≤ b.toNat ∧ b.toNat ≤ 0xBF) := by
  revert b
  apply byte_cases
  decide +kernel

theorem low_bits (b : UInt8) : b.toNat &&& 0x1F = b.toNat % 32 ∧ b.toNat &&& 0x0F = b.toNat % 16 ∧
    b.toNat &&& 0x07 = b.toNat % 8 ∧ b.toNat &&& 0x3F = b.toNat % 64 :=
  ⟨Nat.and_two_pow_sub_one_eq_mod _ 5, Nat.and_two_pow_sub_one_eq_mod _ 4, Nat.and_two_pow_sub_one_eq_mod _ 3,
    Nat.and_two_pow_sub_one_eq_mod _ 6⟩

theorem or_low {a b : ℕ} (k : ℕ) (hb : b < 2 ^ k) : a * 2 ^ k ||| b = a * 2 ^ k + b := by
  rw [← Nat.shiftLeft_eq, Nat.shiftLeft_add_eq_or_of_lt hb]

theorem wrapped {n : ℕ} (h : n < 4294967296) : n % 4294967296 = n := Nat.mod_eq_of_lt h

theorem assembled₂ (w x : UInt8) : (assemble₂Unchecked w x).toNat = w.toNat % 32 * 64 + x.toNat % 64 := by
  have hx : x.toNat % 64 < 2 ^ 6 := Nat.mod_lt _ (by omega)
  simp only [assemble₂Unchecked, UInt32.toNat_or, UInt32.toNat_shiftLeft, UInt8.toNat_toUInt32, UInt8.toNat_and,
    UInt8.reduceToNat, UInt32.reduceToNat, low_bits, Nat.shiftLeft_eq, Nat.reduceMod, Nat.reducePow]
  rw [wrapped (by omega)]
  exact or_low 6 hx

theorem assembled₃ (w x y : UInt8) :
    (assemble₃Unchecked w x y).toNat = w.toNat % 16 * 4096 + x.toNat % 64 * 64 + y.toNat % 64 := by
  have hx : x.toNat % 64 < 2 ^ 6 := Nat.mod_lt _ (by omega)
  have hy : y.toNat % 64 < 2 ^ 6 := Nat.mod_lt _ (by omega)
  simp only [assemble₃Unchecked, UInt32.toNat_or, UInt32.toNat_shiftLeft, UInt8.toNat_toUInt32, UInt8.toNat_and,
    UInt8.reduceToNat, UInt32.reduceToNat, low_bits, Nat.shiftLeft_eq, Nat.reduceMod, Nat.reducePow, Nat.or_assoc]
  rw [wrapped (by omega), wrapped (by omega)]
  have hlow : x.toNat % 64 * 64 ||| y.toNat % 64 = x.toNat % 64 * 64 + y.toNat % 64 := or_low 6 hy
  have hall := or_low (a := w.toNat % 16) (b := x.toNat % 64 * 64 + y.toNat % 64) 12 (by omega)
  simp only [Nat.reducePow] at hall
  rw [hlow, hall, Nat.add_assoc]

theorem assembled₄ (w x y z : UInt8) : (assemble₄Unchecked w x y z).toNat =
    w.toNat % 8 * 262144 + x.toNat % 64 * 4096 + y.toNat % 64 * 64 + z.toNat % 64 := by
  have hx : x.toNat % 64 < 2 ^ 6 := Nat.mod_lt _ (by omega)
  have hy : y.toNat % 64 < 2 ^ 6 := Nat.mod_lt _ (by omega)
  have hz : z.toNat % 64 < 2 ^ 6 := Nat.mod_lt _ (by omega)
  simp only [assemble₄Unchecked, UInt32.toNat_or, UInt32.toNat_shiftLeft, UInt8.toNat_toUInt32, UInt8.toNat_and,
    UInt8.reduceToNat, UInt32.reduceToNat, low_bits, Nat.shiftLeft_eq, Nat.reduceMod, Nat.reducePow, Nat.or_assoc]
  rw [wrapped (by omega), wrapped (by omega), wrapped (by omega)]
  have hlow : y.toNat % 64 * 64 ||| z.toNat % 64 = y.toNat % 64 * 64 + z.toNat % 64 := or_low 6 hz
  have hmid := or_low (a := x.toNat % 64) (b := y.toNat % 64 * 64 + z.toNat % 64) 12 (by omega)
  have hall := or_low (a := w.toNat % 8) (b := x.toNat % 64 * 4096 + (y.toNat % 64 * 64 + z.toNat % 64)) 18 (by omega)
  simp only [Nat.reducePow] at hmid hall
  rw [hlow, hmid, hall]
  omega

theorem invalid_tail (b : UInt8) : isInvalidContinuationByte b = false ↔ 0x80 ≤ b.toNat ∧ b.toNat ≤ 0xBF := by
  rw [isInvalidContinuationByte, bne_eq_false_iff_eq, (lead_bits b).2.2.2.2]

theorem verified₂ {w : UInt8} (hw : 0xC0 ≤ w.toNat ∧ w.toNat < 0xE0) (x : UInt8) :
    verify₂ w x = true ↔ 0xC2 ≤ w.toNat ∧ 0x80 ≤ x.toNat ∧ x.toNat ≤ 0xBF := by
  have hr := assembled₂ w x
  have hx := invalid_tail x
  unfold verify₂
  cases hc : isInvalidContinuationByte x with
  | true =>
    rw [hc] at hx
    simp at hx ⊢
    omega
  | false =>
    rw [hc] at hx
    simp [UInt32.le_iff_toNat_le, hr] at hx ⊢
    omega

theorem verified₃ {w : UInt8} (hw : 0xE0 ≤ w.toNat ∧ w.toNat < 0xF0) (x y : UInt8) : verify₃ w x y = true ↔
    (if w.toNat = 0xE0 then 0xA0 else 0x80) ≤ x.toNat ∧ x.toNat ≤ (if w.toNat = 0xED then 0x9F else 0xBF) ∧
      0x80 ≤ y.toNat ∧ y.toNat ≤ 0xBF := by
  have hr := assembled₃ w x y
  have hx := invalid_tail x
  have hy := invalid_tail y
  unfold verify₃
  cases hcx : isInvalidContinuationByte x <;> cases hcy : isInvalidContinuationByte y
  all_goals
    rw [hcx] at hx
    rw [hcy] at hy
    simp [UInt32.le_iff_toNat_le, UInt32.lt_iff_toNat_lt, hr] at hx hy ⊢
    split_ifs <;> omega

theorem verified₄ {w : UInt8} (hw : 0xF0 ≤ w.toNat ∧ w.toNat < 0xF8) (x y z : UInt8) :
    verify₄ w x y z = true ↔ w.toNat ≤ 0xF4 ∧ (if w.toNat = 0xF0 then 0x90 else 0x80) ≤ x.toNat ∧
      x.toNat ≤ (if w.toNat = 0xF4 then 0x8F else 0xBF) ∧ (0x80 ≤ y.toNat ∧ y.toNat ≤ 0xBF) ∧
      0x80 ≤ z.toNat ∧ z.toNat ≤ 0xBF := by
  have hr := assembled₄ w x y z
  have hx := invalid_tail x
  have hy := invalid_tail y
  have hz := invalid_tail z
  unfold verify₄
  cases hcx : isInvalidContinuationByte x <;> cases hcy : isInvalidContinuationByte y <;>
    cases hcz : isInvalidContinuationByte z
  all_goals
    rw [hcx] at hx
    rw [hcy] at hy
    rw [hcz] at hz
    simp [UInt32.le_iff_toNat_le, hr] at hx hy hz ⊢
    split_ifs <;> omega

def charStep (lead : UInt8) (rest : Bytes) : Option ℕ :=
  if lead < 0x80 then some 1
  else
    match leadByte lead with
    | none => none
    | some (length, low, high) => if continues (length - 1) low high rest then some length else none

theorem isUtf8_cons (lead : UInt8) (rest : Bytes) : isUtf8 (lead :: rest) =
    (charStep lead rest).elim false fun length => isUtf8 (rest.drop (length - 1)) := by
  rw [isUtf8, charStep]
  split_ifs with hlead
  · rfl
  · cases leadByte lead with
    | none => rfl
    | some range =>
      obtain ⟨length, low, high⟩ := range
      dsimp only
      split_ifs <;> rfl

theorem continues_length {more : ℕ} {low high : UInt8} {rest : Bytes} (h : continues more low high rest = true) :
    more ≤ rest.length := by
  induction more generalizing low high rest with
  | zero => omega
  | succ more ih =>
    cases rest with
    | nil => cases h
    | cons next rest =>
      rw [continues] at h
      split_ifs at h
      exact Nat.succ_le_succ (ih h)

theorem charStep_fits {lead : UInt8} {rest : Bytes} {length : ℕ} (h : charStep lead rest = some length) :
    0 < length ∧ length ≤ rest.length + 1 := by
  unfold charStep leadByte at h
  split_ifs at h
  · cases h
    omega
  all_goals
    dsimp only at h
    split_ifs at h with hmore
    cases h
    have := continues_length hmore
    omega

theorem continues_iff (more : ℕ) (low high next : UInt8) (rest : Bytes) :
    continues (more + 1) low high (next :: rest) = true ↔
      (low.toNat ≤ next.toNat ∧ next.toNat ≤ high.toNat) ∧ continues more 0x80 0xBF rest = true := by
  rw [continues]
  simp only [UInt8.lt_iff_toNat_lt, gt_iff_lt]
  split_ifs with h
  · simp
    omega
  · simp
    omega
theorem leadByte_eq (lead : UInt8) : leadByte lead =
    if 0xC2 ≤ lead.toNat ∧ lead.toNat ≤ 0xDF then some (2, 0x80, 0xBF)
    else if 0xE0 ≤ lead.toNat ∧ lead.toNat ≤ 0xEF then
      some (3, if lead.toNat = 0xE0 then 0xA0 else 0x80, if lead.toNat = 0xED then 0x9F else 0xBF)
    else if 0xF0 ≤ lead.toNat ∧ lead.toNat ≤ 0xF4 then
      some (4, if lead.toNat = 0xF0 then 0x90 else 0x80, if lead.toNat = 0xF4 then 0x8F else 0xBF)
    else none := by
  simp only [leadByte, ge_iff_le, UInt8.le_iff_toNat_le, ← UInt8.toNat_inj, UInt8.reduceToNat]

theorem charStep_one {lead : UInt8} (h : lead.toNat < 0x80) (rest : Bytes) : charStep lead rest = some 1 :=
  if_pos (UInt8.lt_iff_toNat_lt.mpr h)

theorem charStep_many {lead : UInt8} (h : 0x80 ≤ lead.toNat) (rest : Bytes) : charStep lead rest =
    (leadByte lead).bind fun range =>
      if continues (range.1 - 1) range.2.1 range.2.2 rest then some range.1 else none := by
  rw [charStep, if_neg]
  · cases leadByte lead <;> rfl
  · rw [UInt8.lt_iff_toNat_lt]
    exact Nat.not_lt.mpr h

abbrev byteArray (raw : Bytes) : ByteArray := ByteArray.mk raw.toArray

theorem byte_at {pre rest : Bytes} {lead : UInt8} {k : ℕ}
    (h : pre.length + k < (byteArray (pre ++ lead :: rest)).size) :
    (byteArray (pre ++ lead :: rest))[pre.length + k] =
      (lead :: rest).get ⟨k, by simpa [ByteArray.size] using h⟩ := by
  change (pre ++ lead :: rest).toArray[pre.length + k] = _
  simp

theorem size_at (pre rest : Bytes) (lead : UInt8) :
    (byteArray (pre ++ lead :: rest)).size = pre.length + rest.length + 1 := by
  simp [ByteArray.size, Nat.add_assoc]

theorem parse_range {b : UInt8} {first : FirstByte} (h : parseFirstByte b = first) :
    (first = .done ∧ b.toNat < 0x80) ∨ (first = .oneMore ∧ 0xC0 ≤ b.toNat ∧ b.toNat < 0xE0) ∨
      (first = .twoMore ∧ 0xE0 ≤ b.toNat ∧ b.toNat < 0xF0) ∨
      (first = .threeMore ∧ 0xF0 ≤ b.toNat ∧ b.toNat < 0xF8) ∨
      (first = .invalid ∧ 0x80 ≤ b.toNat ∧ leadByte b = none) := by
  obtain ⟨hdone, hone, htwo, hthree, -⟩ := lead_bits b
  simp only [parseFirstByte, beq_iff_eq, hdone, hone, htwo, hthree] at h
  split_ifs at h with h₁ h₂ h₃ h₄
  · exact .inl ⟨h.symm, h₁⟩
  · exact .inr (.inl ⟨h.symm, h₂⟩)
  · exact .inr (.inr (.inl ⟨h.symm, h₃⟩))
  · exact .inr (.inr (.inr (.inl ⟨h.symm, h₄⟩)))
  · refine .inr (.inr (.inr (.inr ⟨h.symm, by omega, ?_⟩)))
    rw [leadByte_eq, if_neg (by omega), if_neg (by omega), if_neg (by omega)]

section

variable {lead : UInt8} (rest : Bytes)

theorem charStep_two (h : 0xC0 ≤ lead.toNat ∧ lead.toNat < 0xE0) : (charStep lead rest).isSome = true ↔
    0xC2 ≤ lead.toNat ∧ continues 1 0x80 0xBF rest = true := by
  rw [charStep_many (by omega), leadByte_eq]
  by_cases hlead : 0xC2 ≤ lead.toNat
  · rw [if_pos (by omega)]
    simp [hlead]
  · rw [if_neg (by omega), if_neg (by omega), if_neg (by omega)]
    simp [hlead]

theorem charStep_three (h : 0xE0 ≤ lead.toNat ∧ lead.toNat < 0xF0) : (charStep lead rest).isSome = true ↔
    continues 2 (if lead.toNat = 0xE0 then 0xA0 else 0x80) (if lead.toNat = 0xED then 0x9F else 0xBF) rest =
      true := by
  rw [charStep_many (by omega), leadByte_eq, if_neg (by omega), if_pos (by omega)]
  simp

theorem charStep_four (h : 0xF0 ≤ lead.toNat ∧ lead.toNat < 0xF8) : (charStep lead rest).isSome = true ↔
    lead.toNat ≤ 0xF4 ∧
      continues 3 (if lead.toNat = 0xF0 then 0x90 else 0x80) (if lead.toNat = 0xF4 then 0x8F else 0xBF) rest =
        true := by
  rw [charStep_many (by omega), leadByte_eq, if_neg (by omega), if_neg (by omega)]
  by_cases hlead : lead.toNat ≤ 0xF4
  · rw [if_pos (by omega)]
    simp [hlead]
  · rw [if_neg (by omega)]
    simp [hlead]

end

theorem validated (pre rest : Bytes) (lead : UInt8) :
    (byteArray (pre ++ lead :: rest)).validateUTF8At pre.length = (charStep lead rest).isSome := by
  have hsize := size_at pre rest lead
  have hfirst : pre.length < (byteArray (pre ++ lead :: rest)).size := by omega
  have hlead : (byteArray (pre ++ lead :: rest))[pre.length] = lead := byte_at (k := 0) hfirst
  have hshort : ∀ {more : ℕ} {low high : UInt8}, ¬pre.length + more < (byteArray (pre ++ lead :: rest)).size →
      ¬continues more low high rest = true := by
    intro more low high hless hmore
    have := continues_length hmore
    omega
  rw [Bool.eq_iff_iff, ByteArray.validateUTF8At, dif_pos hfirst]
  split
  all_goals
    rename_i h
    rw [hlead] at h
    rcases parse_range h with ⟨hfirst, hrange⟩ | ⟨hfirst, hrange⟩ | ⟨hfirst, hrange⟩ | ⟨hfirst, hrange⟩ |
      ⟨hfirst, hrange, hnone⟩
    all_goals try cases hfirst
  case h_1 =>
    rw [charStep_many hrange, hnone]
    simp
  case h_2 =>
    rw [charStep_one hrange]
    simp [verify₁]
  case h_3 =>
    rw [charStep_two rest hrange]
    by_cases hlen : pre.length + 1 < (byteArray (pre ++ lead :: rest)).size
    · rw [dif_pos hlen]
      obtain ⟨x, rest, rfl⟩ := List.exists_cons_of_length_pos (l := rest) (by omega)
      have hx : (byteArray (pre ++ lead :: x :: rest))[pre.length + 1] = x := byte_at hlen
      rw [hlead, hx, verified₂ hrange, continues_iff]
      simp [continues]
    · rw [dif_neg hlen]
      simp [hshort hlen]
  case h_4 =>
    rw [charStep_three rest hrange]
    by_cases hlen : pre.length + 2 < (byteArray (pre ++ lead :: rest)).size
    · rw [dif_pos hlen]
      obtain ⟨x, rest, rfl⟩ := List.exists_cons_of_length_pos (l := rest) (by omega)
      obtain ⟨y, rest, rfl⟩ := List.exists_cons_of_length_pos (l := rest) (by simp at hsize; omega)
      have hone : pre.length + 1 < (byteArray (pre ++ lead :: x :: y :: rest)).size := by omega
      have hx : (byteArray (pre ++ lead :: x :: y :: rest))[pre.length + 1] = x := byte_at hone
      have hy : (byteArray (pre ++ lead :: x :: y :: rest))[pre.length + 2] = y := byte_at hlen
      rw [hlead, hx, hy, verified₃ hrange, continues_iff, continues_iff]
      simp [continues, apply_ite UInt8.toNat, and_assoc]
    · rw [dif_neg hlen]
      simp [hshort hlen]
  case h_5 =>
    rw [charStep_four rest hrange]
    by_cases hlen : pre.length + 3 < (byteArray (pre ++ lead :: rest)).size
    · rw [dif_pos hlen]
      obtain ⟨x, rest, rfl⟩ := List.exists_cons_of_length_pos (l := rest) (by omega)
      obtain ⟨y, rest, rfl⟩ := List.exists_cons_of_length_pos (l := rest) (by simp at hsize; omega)
      obtain ⟨z, rest, rfl⟩ := List.exists_cons_of_length_pos (l := rest) (by simp at hsize; omega)
      have hone : pre.length + 1 < (byteArray (pre ++ lead :: x :: y :: z :: rest)).size := by omega
      have htwo : pre.length + 2 < (byteArray (pre ++ lead :: x :: y :: z :: rest)).size := by omega
      have hx : (byteArray (pre ++ lead :: x :: y :: z :: rest))[pre.length + 1] = x := byte_at hone
      have hy : (byteArray (pre ++ lead :: x :: y :: z :: rest))[pre.length + 2] = y := byte_at htwo
      have hz : (byteArray (pre ++ lead :: x :: y :: z :: rest))[pre.length + 3] = z := byte_at hlen
      rw [hlead, hx, hy, hz, verified₄ hrange, continues_iff, continues_iff, continues_iff]
      simp [continues, apply_ite UInt8.toNat, and_assoc]
    · rw [dif_neg hlen]
      simp [hshort hlen]

theorem leadByte_length {lead : UInt8} {range : ℕ × UInt8 × UInt8} (h : leadByte lead = some range) :
    range.1 = if 0xC0 ≤ lead.toNat ∧ lead.toNat < 0xE0 then 2
      else if 0xE0 ≤ lead.toNat ∧ lead.toNat < 0xF0 then 3 else 4 := by
  rw [leadByte_eq] at h
  by_cases htwo : 0xC2 ≤ lead.toNat ∧ lead.toNat ≤ 0xDF
  · rw [if_pos htwo] at h
    rw [if_pos (by omega), ← Option.some.inj h]
  · rw [if_neg htwo] at h
    by_cases hthree : 0xE0 ≤ lead.toNat ∧ lead.toNat ≤ 0xEF
    · rw [if_pos hthree] at h
      rw [if_neg (by omega), if_pos (by omega), ← Option.some.inj h]
    · rw [if_neg hthree] at h
      by_cases hfour : 0xF0 ≤ lead.toNat ∧ lead.toNat ≤ 0xF4
      · rw [if_pos hfour] at h
        rw [if_neg (by omega), if_neg (by omega), ← Option.some.inj h]
      · rw [if_neg hfour] at h
        cases h

theorem charStep_size {lead : UInt8} {rest : Bytes} {length : ℕ} (h : charStep lead rest = some length)
    (hfirst : lead.IsUTF8FirstByte) : lead.utf8ByteSize hfirst = length := by
  obtain ⟨hdone, hone, htwo, -, -⟩ := lead_bits lead
  simp only [UInt8.utf8ByteSize, hdone, hone, htwo]
  by_cases hlead : lead.toNat < 0x80
  · rw [charStep_one hlead] at h
    rw [if_pos hlead]
    exact Option.some.inj h
  · rw [charStep_many (by omega)] at h
    obtain ⟨range, hrange, h⟩ := Option.bind_eq_some_iff.mp h
    split_ifs at h
    rw [if_neg hlead, ← leadByte_length hrange]
    exact Option.some.inj h

theorem go_eq (n : ℕ) : ∀ (b : ByteArray) (pre rest : Bytes) (i : ℕ) (hi : i ≤ b.size),
    b = byteArray (pre ++ rest) → rest.length = n → i = pre.length →
      ByteArray.validateUTF8.go b i hi = isUtf8 rest := by
  induction n using Nat.strong_induction_on with
  | h n ih =>
    rintro b pre rest i hi hb rfl rfl
    cases rest with
    | nil =>
      subst hb
      rw [ByteArray.validateUTF8.go, dif_neg (by simp [ByteArray.size]), isUtf8]
    | cons lead rest =>
      have hlead : ∀ h : pre.length < b.size, b[pre.length] = lead := by
        subst hb
        exact fun h => byte_at (k := 0) h
      have hvalid : b.validateUTF8At pre.length = (charStep lead rest).isSome := by
        rw [hb]
        exact validated pre rest lead
      rw [ByteArray.validateUTF8.go, dif_pos (by rw [hb, size_at]; omega), isUtf8_cons]
      split
      · rename_i h
        rw [h] at hvalid
        cases hstep : charStep lead rest with
        | none => rfl
        | some length => simp [hstep] at hvalid
      · rename_i h
        rw [h] at hvalid
        obtain ⟨length, hlength⟩ := Option.isSome_iff_exists.mp hvalid.symm
        obtain ⟨hpos, hfits⟩ := charStep_fits hlength
        rw [hlength, Option.elim_some]
        apply ih (rest.drop (length - 1)).length (by simp) b (pre ++ lead :: rest.take (length - 1))
        · simp [hb]
        · rfl
        · simp only [hlead, charStep_size hlength]
          simp
          omega

theorem isUtf8_eq (raw : Bytes) : isUtf8 raw = Cbor.isUtf8 raw := by
  symm
  apply go_eq raw.length _ [] raw 0
  · rfl
  · rfl
  · rfl

end Km43.Ts
