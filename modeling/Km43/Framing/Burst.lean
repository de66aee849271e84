import Km43.Framing.Forms
import Km43.Framing.Resync
import Km43.Library.LinearFold

namespace Km43.Framing

open Library Library.Stuffing

theorem high_bit (x : UInt16) : x &&& 0x8000 = if x.toBitVec.getLsbD 15 then 0x8000 else 0 := by
  apply UInt16.toBitVec_inj.mp
  have h := BitVec.and_twoPow x.toBitVec 15
  cases hx : x.toBitVec.getLsbD 15 <;> rw [hx] at h <;> exact h

theorem high_bit_toNat (x : UInt16) : x.toBitVec.getLsbD 15 = decide (2 ^ 15 ≤ x.toNat) := by
  have h := BitVec.msb_eq_decide x.toBitVec
  rwa [BitVec.msb_eq_getLsbD_last] at h

theorem crcBit_xor (x y : UInt16) : crcBit (x ^^^ y) = crcBit x ^^^ crcBit y := by
  simp only [crcBit, high_bit, UInt16.shiftLeft_xor, UInt16.toBitVec_xor, BitVec.getLsbD_xor]
  cases x.toBitVec.getLsbD 15 <;> cases y.toBitVec.getLsbD 15
  · rfl
  · exact UInt16.xor_assoc _ _ _
  · simp
    ac_rfl
  · have hcancel : ∀ a b p : UInt16, a ^^^ b = a ^^^ p ^^^ (b ^^^ p) := by
      intro a b p
      rw [UInt16.xor_comm b p, UInt16.xor_assoc, ← UInt16.xor_assoc p, UInt16.xor_self, UInt16.zero_xor]
    exact hcancel _ _ _

theorem crcBit_zero {x : UInt16} (h : crcBit x = 0) : x = 0 := by
  have hlt := x.toNat_lt
  have hhigh := high_bit_toNat x
  rw [crcBit, high_bit] at h
  apply UInt16.toNat_inj.mp
  cases hx : x.toBitVec.getLsbD 15 with
  | true =>
    rw [hx] at h
    have hshift : x <<< 1 = poly := by
      rw [← UInt16.xor_zero (a := x <<< 1), ← UInt16.xor_self (a := poly), ← UInt16.xor_assoc]
      exact (congrArg (· ^^^ poly) h).trans UInt16.zero_xor
    have hnat := congrArg UInt16.toNat hshift
    simp only [UInt16.toNat_shiftLeft, poly, Nat.shiftLeft_eq] at hnat
    simp at hnat
    omega
  | false =>
    rw [hx] at h hhigh
    have hnat := congrArg UInt16.toNat (show x <<< 1 = 0 from h)
    simp [Nat.shiftLeft_eq] at hnat hhigh
    simp
    omega

theorem xor_eq_zero {x y : UInt16} : x ^^^ y = 0 ↔ x = y := by
  constructor
  · intro h
    rw [← UInt16.xor_zero (a := x), ← UInt16.xor_self (a := y), ← UInt16.xor_assoc, h, UInt16.zero_xor]
  · rintro rfl
    exact UInt16.xor_self

theorem crcBit_injective : Function.Injective crcBit := by
  intro x y h
  apply xor_eq_zero.mp
  apply crcBit_zero
  rw [crcBit_xor]
  exact xor_eq_zero.mpr h

def shifted (register : UInt16) : UInt16 := crcBit^[8] register

theorem shifted_xor (x y : UInt16) : shifted (x ^^^ y) = shifted x ^^^ shifted y :=
  Function.Semiconj₂.iterate crcBit_xor 8 x y

theorem shifted_injective : Function.Injective shifted := crcBit_injective.iterate 8

theorem shifted_zero : shifted 0 = 0 := by decide

theorem crcByte_xor (r s : UInt16) (x y : UInt8) : crcByte (r ^^^ s) (x ^^^ y) = crcByte r x ^^^ crcByte s y := by
  have hmix : r ^^^ s ^^^ ((x ^^^ y).toUInt16 <<< 8) = (r ^^^ x.toUInt16 <<< 8) ^^^ (s ^^^ y.toUInt16 <<< 8) := by
    rw [UInt8.toUInt16_xor, UInt16.shiftLeft_xor]
    ac_rfl
  rw [crcByte, hmix]
  exact shifted_xor _ _

theorem crcByte_injective (x : UInt8) : Function.Injective (crcByte · x) := by
  intro r s h
  have hmix : r ^^^ x.toUInt16 <<< 8 = s ^^^ x.toUInt16 <<< 8 := shifted_injective h
  have hxor := congrArg (· ^^^ x.toUInt16 <<< 8) hmix
  simpa [UInt16.xor_assoc] using hxor

theorem shifted_low : ∀ low : UInt8, shifted low.toUInt16 = low.toUInt16 <<< 8 := by
  have h : ∀ n : Fin 256, shifted (UInt8.ofFin n).toUInt16 = (UInt8.ofFin n).toUInt16 <<< 8 := by decide +kernel
  intro low
  exact h low.toFin

inductive BitOrder
  | msbFirst
  | lsbFirst
  deriving DecidableEq

namespace BitOrder

def bit : BitOrder → UInt8 → ℕ → Bool
  | msbFirst, byte, i => byte.toNat.testBit (7 - i)
  | lsbFirst, byte, i => byte.toNat.testBit i

variable {order : BitOrder} {x y z : UInt8}

theorem bit_xor (i : ℕ) : order.bit (x ^^^ y) i = (order.bit x i != order.bit y i) := by
  cases order <;> simp [bit]

theorem bit_zero (i : ℕ) : order.bit 0 i = false := by
  cases order <;> simp [bit]

theorem eq_zero (h : ∀ i, i < 8 → order.bit x i = false) : x = 0 := by
  apply UInt8.toNat_inj.mp
  apply Nat.eq_of_testBit_eq
  intro i
  rw [UInt8.toNat_zero, Nat.zero_testBit]
  by_cases hi : i < 8
  · cases order with
    | msbFirst =>
      have hbit := h (7 - i) (by omega)
      rwa [bit, show 7 - (7 - i) = i by omega] at hbit
    | lsbFirst => exact h i hi
  · apply Nat.testBit_lt_two_pow
    exact x.toNat_lt.trans_le (Nat.pow_le_pow_right (by decide) (by omega))

theorem burst_fits (k : ℕ) (hk : k < 8) (hx : ∀ i, i < k → order.bit x i = false)
    (hz : ∀ i, k ≤ i → i < 8 → order.bit (shifted (x.toUInt16 <<< 8)).toUInt8 i = false) : x = 0 := by
  have hall : ∀ (order : Fin 2) (k : Fin 8) (n : Fin 256),
      (∀ i : Fin 8, i < k → bit (if order = 0 then .msbFirst else .lsbFirst) (.ofFin n) i = false) →
      (∀ i : Fin 8, k ≤ i → bit (if order = 0 then .msbFirst else .lsbFirst)
        (shifted ((UInt8.ofFin n).toUInt16 <<< 8)).toUInt8 i = false) → n = 0 := by
    decide +kernel
  have hn : x.toFin = 0 := by
    cases order with
    | msbFirst => exact hall 0 ⟨k, hk⟩ x.toFin (fun i hi => hx i hi) fun i hi => hz i hi i.isLt
    | lsbFirst => exact hall 1 ⟨k, hk⟩ x.toFin (fun i hi => hx i hi) fun i hi => hz i hi i.isLt
  exact UInt8.toFin_inj.mp hn

end BitOrder

theorem crcByte_three {x y z : UInt8} (h : [x, y, z].foldl crcByte 0 = 0) :
    shifted (x.toUInt16 <<< 8) = z.toUInt16 ^^^ y.toUInt16 <<< 8 := by
  have hlast : crcByte (crcByte 0 x) y = z.toUInt16 <<< 8 := by
    apply xor_eq_zero.mp
    apply shifted_injective
    rw [shifted_zero]
    exact h
  rw [← shifted_low] at hlast
  have hmiddle : crcByte 0 x ^^^ y.toUInt16 <<< 8 = z.toUInt16 := shifted_injective hlast
  rw [← hmiddle, UInt16.xor_assoc, UInt16.xor_self, UInt16.xor_zero, crcByte, UInt16.zero_xor]
  rfl

theorem burst_zero {order : BitOrder} {x y z : UInt8} {k : ℕ} (hk : k < 8)
    (h : [x, y, z].foldl crcByte 0 = 0) (hx : ∀ i, i < k → order.bit x i = false)
    (hz : ∀ i, k ≤ i → i < 8 → order.bit z i = false) : x = 0 ∧ y = 0 ∧ z = 0 := by
  have hthree := crcByte_three h
  have hlow : (shifted (x.toUInt16 <<< 8)).toUInt8 = z := by
    have hy : ∀ y : UInt8, (y.toUInt16 <<< 8).toUInt8 = 0 := by
      intro y
      apply UInt8.toNat_inj.mp
      simp [Nat.shiftLeft_eq]
    rw [hthree, UInt16.toUInt8_xor, hy]
    simp
  obtain rfl := BitOrder.burst_fits k hk hx (by rwa [hlow])
  have hclear : shifted ((0 : UInt8).toUInt16 <<< 8) = 0 := shifted_zero
  rw [hclear] at hlow hthree
  obtain rfl : z = 0 := hlow.symm
  refine ⟨rfl, ?_, rfl⟩
  have hy : y.toUInt16 <<< 8 = 0 := by simpa using hthree.symm
  have hnat := congrArg UInt16.toNat hy
  have hlt := y.toNat_lt
  simp [Nat.shiftLeft_eq] at hnat
  apply UInt8.toNat_inj.mp
  simp
  omega

def bitAt (order : BitOrder) (data : Bytes) (i : ℕ) : Bool := order.bit (data.getD (i / 8) 0) (i % 8)

def DifferWithin (order : BitOrder) (n : ℕ) (a b : Bytes) : Prop :=
  ∃ start, ∀ i, bitAt order a i ≠ bitAt order b i → start ≤ i ∧ i < start + n

theorem getD_xor {a b : Bytes} (h : a.length = b.length) (i : ℕ) :
    (List.zipWith (· ^^^ ·) a b).getD i 0 = a.getD i 0 ^^^ b.getD i 0 := by
  by_cases hi : i < a.length
  · simp [List.getD_eq_getElem?_getD, hi, h ▸ hi]
  · simp [List.getD_eq_getElem?_getD, hi, h ▸ hi]

theorem bitAt_xor {order : BitOrder} {a b : Bytes} (h : a.length = b.length) (i : ℕ) :
    bitAt order (List.zipWith (· ^^^ ·) a b) i = (bitAt order a i != bitAt order b i) := by
  rw [bitAt, getD_xor h, BitOrder.bit_xor]
  rfl

theorem bit_getD {order : BitOrder} {data : Bytes} {i j : ℕ} (hj : j < 8) :
    order.bit (data.getD i 0) j = bitAt order data (8 * i + j) := by
  rw [bitAt, show (8 * i + j) / 8 = i by omega, show (8 * i + j) % 8 = j by omega]

theorem crc16_xor {a b : Bytes} (h : a.length = b.length) :
    crc16 a ^^^ crc16 b = (List.zipWith (· ^^^ ·) a b).foldl crcByte 0 := by
  have hfold := foldl_zipWith crcByte_xor h init init
  rw [UInt16.xor_self] at hfold
  exact hfold.symm

theorem crc16_burst {order : BitOrder} {a b : Bytes} (h : a.length = b.length) (hne : a ≠ b)
    (hburst : DifferWithin order 16 a b) : crc16 a ≠ crc16 b := by
  obtain ⟨start, hwithin⟩ := hburst
  intro hcrc
  apply hne
  have hclear : (List.zipWith (· ^^^ ·) a b).foldl crcByte 0 = 0 := by
    rw [← crc16_xor h]
    exact xor_eq_zero.mpr hcrc
  have hquiet : ∀ i, i < start ∨ start + 16 ≤ i → bitAt order (List.zipWith (· ^^^ ·) a b) i = false := by
    intro i hi
    by_contra hbit
    rw [bitAt_xor h, Bool.not_eq_false, bne_iff_ne] at hbit
    have hin := hwithin i hbit
    omega
  have hbyte : ∀ i, i < start / 8 ∨ start / 8 + 3 ≤ i → (List.zipWith (· ^^^ ·) a b).getD i 0 = 0 := by
    intro i hi
    apply @BitOrder.eq_zero order
    intro j hj
    rw [bit_getD hj]
    apply hquiet
    omega
  have hthree : [(List.zipWith (· ^^^ ·) a b).getD (start / 8) 0,
      (List.zipWith (· ^^^ ·) a b).getD (start / 8 + 1) 0,
      (List.zipWith (· ^^^ ·) a b).getD (start / 8 + 2) 0].foldl crcByte 0 = 0 :=
    (foldl_window crcByte_injective (by decide) (start / 8) 3 hbyte).mp hclear
  have hzero := @burst_zero order _ _ _ (start % 8) (by omega) hthree (by
      intro i hi
      rw [bit_getD (by omega)]
      apply hquiet
      omega) (by
      intro i hi hlt
      rw [bit_getD hlt]
      apply hquiet
      omega)
  apply List.ext_getElem h
  intro i hi hi'
  have hsame : a.getD i 0 ^^^ b.getD i 0 = 0 := by
    rw [← getD_xor h]
    by_cases hout : i < start / 8 ∨ start / 8 + 3 ≤ i
    · exact hbyte i hout
    · obtain hi | hi | hi : i = start / 8 ∨ i = start / 8 + 1 ∨ i = start / 8 + 2 := by omega
      · rw [hi]
        exact hzero.1
      · rw [hi]
        exact hzero.2.1
      · rw [hi]
        exact hzero.2.2
  rw [List.getD_eq_getElem?_getD, List.getD_eq_getElem?_getD, List.getElem?_eq_getElem hi,
    List.getElem?_eq_getElem hi', Option.getD_some, Option.getD_some, UInt8.xor_eq_zero_iff] at hsame
  exact hsame

def flipBit (data : Bytes) (i : ℕ) : Bytes := data.modify (i / 8) (· ^^^ 1 <<< UInt8.ofNat (i % 8))

@[simp] theorem flipBit_length (data : Bytes) (i : ℕ) : (flipBit data i).length = data.length :=
  List.length_modify ..

theorem bitAt_flipBit {data : Bytes} {i : ℕ} (hi : i < 8 * data.length) (j : ℕ) :
    bitAt .lsbFirst (flipBit data i) j = (bitAt .lsbFirst data j != decide (j = i)) := by
  have hmask : ∀ k j : Fin 8, BitOrder.bit .lsbFirst (1 <<< UInt8.ofNat k) j = decide (j.val = k.val) := by decide
  by_cases hplace : j / 8 = i / 8
  · have hj : j / 8 < data.length := by omega
    have hbit := hmask ⟨i % 8, Nat.mod_lt _ (by decide)⟩ ⟨j % 8, Nat.mod_lt _ (by decide)⟩
    have heq : (j % 8 = i % 8) = (j = i) := by
      apply propext
      omega
    simp only [heq] at hbit
    simp only [bitAt, flipBit, List.getD_eq_getElem?_getD, List.getElem?_modify, hplace, if_true]
    rw [List.getElem?_eq_getElem (hplace ▸ hj)]
    exact (BitOrder.bit_xor _).trans (congrArg (_ != ·) hbit)
  · have hne : ¬j = i := by
      rintro rfl
      exact hplace rfl
    simp only [bitAt, flipBit, List.getD_eq_getElem?_getD, List.getElem?_modify, if_neg (Ne.symm hplace)]
    simp [hne]

theorem flipBit_ne {data : Bytes} {i : ℕ} (hi : i < 8 * data.length) : flipBit data i ≠ data := by
  intro h
  have hbit := bitAt_flipBit hi i
  rw [h] at hbit
  simp at hbit

theorem flipBit_within {data : Bytes} {i : ℕ} (hi : i < 8 * data.length) :
    DifferWithin .lsbFirst 16 (flipBit data i) data := by
  refine ⟨i, fun j hj => ?_⟩
  rw [bitAt_flipBit hi] at hj
  by_cases heq : j = i
  · omega
  · simp [heq] at hj

theorem flipBit_left {xs : Bytes} (ys : Bytes) {i : ℕ} (hi : i < 8 * xs.length) :
    flipBit (xs ++ ys) i = flipBit xs i ++ ys := by
  apply List.ext_getElem?
  intro k
  simp only [flipBit, List.getElem?_modify, List.getElem?_append, List.length_modify]
  by_cases hk : k < xs.length
  · rw [if_pos hk, if_pos hk]
  · have hne : ¬i / 8 = k := by omega
    simp [hk, hne]

theorem flipBit_right (xs : Bytes) {ys : Bytes} {i : ℕ} (hi : 8 * xs.length ≤ i) :
    flipBit (xs ++ ys) i = xs ++ flipBit ys (i - 8 * xs.length) := by
  apply List.ext_getElem?
  intro k
  simp only [flipBit, List.getElem?_modify, List.getElem?_append]
  by_cases hk : k < xs.length
  · have hne : ¬i / 8 = k := by omega
    simp [hk, hne]
  · rw [if_neg hk, if_neg hk, show (i - 8 * xs.length) % 8 = i % 8 by omega]
    have hplace : i / 8 = k ↔ (i - 8 * xs.length) / 8 = k - xs.length := by omega
    simp only [hplace]

theorem fromLeBytes_inj {low high low' high' : UInt8} (h : fromLeBytes low high = fromLeBytes low' high') :
    low = low' ∧ high = high' := by
  have hlow := low.toNat_lt
  have hhigh := high.toNat_lt
  have hlow' := low'.toNat_lt
  have hhigh' := high'.toNat_lt
  have hnat := congrArg UInt16.toNat h
  simp only [fromLeBytes, UInt16.toNat_ofNat'] at hnat
  constructor
  · apply UInt8.toNat_inj.mp
    omega
  · apply UInt8.toNat_inj.mp
    omega

namespace FrameReader

theorem checked_append (envelope : Bytes) (low high : UInt8) :
    checked (envelope ++ [low, high]) =
      if crc16 envelope ≠ fromLeBytes low high then .error .badCrc else .ok envelope := by
  have hlen : (envelope ++ [low, high]).length - crcBytes = envelope.length := by simp [crcBytes]
  simp only [checked, hlen, List.drop_left, List.take_left]

theorem checked_flipped {envelope : Bytes} {i : ℕ} (hi : i < 8 * (covered envelope).length) :
    checked (flipBit (covered envelope) i) = .error .badCrc := by
  rw [covered_length] at hi
  by_cases hleft : i < 8 * envelope.length
  · rw [covered, flipBit_left _ hleft, toLeBytes, checked_append, fromLeBytes_toLeBytes]
    apply if_pos
    exact crc16_burst (flipBit_length _ _) (flipBit_ne hleft) (flipBit_within hleft)
  · rw [covered, flipBit_right _ (Nat.not_lt.mp hleft)]
    have hcrc : i - 8 * envelope.length < 8 * (toLeBytes (crc16 envelope)).length := by
      simp only [crcBytes] at hi
      simp only [toLeBytes, List.length_cons, List.length_nil]
      omega
    have hne := flipBit_ne hcrc
    obtain ⟨low, high, hbytes⟩ : ∃ low high,
        flipBit (toLeBytes (crc16 envelope)) (i - 8 * envelope.length) = [low, high] :=
      List.length_eq_two.mp (flipBit_length _ _)
    rw [hbytes] at hne ⊢
    rw [checked_append]
    apply if_pos
    intro hsame
    rw [← fromLeBytes_toLeBytes (crc16 envelope)] at hsame
    obtain ⟨rfl, rfl⟩ := fromLeBytes_inj hsame
    exact hne rfl

/-- Strings of one length that differ within sixteen consecutive bits have different CRCs, and a frame with one bit
of its envelope or of its CRC flipped is refused, however it is stuffed. -/
theorem corrupted_refused :
    (∀ (order : BitOrder) (a b : Bytes), a.length = b.length → a ≠ b → DifferWithin order 16 a b →
      crc16 a ≠ crc16 b) ∧
    ∀ (envelope body : Bytes) (i : ℕ) (r : FrameReader) (len : ℕ), i < 8 * (covered envelope).length →
      Decodes body (flipBit (covered envelope) i) → r.encoded.get 0 len = some body →
      ∃ why, (r.take len).1 = .error why ∧ (envelope.length ≤ maxPayload → why = .badCrc) := by
  refine ⟨fun order a b h hne hburst => crc16_burst h hne hburst, fun envelope body i r len hi hdecodes hbody => ?_⟩
  obtain ⟨hne, hunstuff⟩ := decodes_iff.mp hdecodes
  by_cases hfits : envelope.length ≤ maxPayload
  · refine ⟨.badCrc, ?_, fun _ => rfl⟩
    rw [take_checked hbody hne hunstuff]
    · exact checked_flipped hi
    · rw [flipBit_length, covered_length]
      exact Nat.add_le_add_right hfits _
  · refine ⟨.payloadTooLong, ?_, fun h => absurd h hfits⟩
    obtain ⟨out, hsmall, -⟩ := @decode_small _ _ r.decoded.items hne hunstuff (by
      rw [flipBit_length, covered_length, r.decoded.size]
      exact Nat.add_lt_add_right (Nat.not_le.mp hfits) _)
    simp only [take, hbody, hsmall, takeError]

theorem corrupted_refused_pair :
    crc16 [0x31, 0x32] ≠ crc16 [0xB1, 0x33] ∧
      ∃ why, ((Machine.final push .new (stuff (flipBit (covered [0x31, 0x32]) 21))).take 5).1 = .error why ∧
        (([0x31, 0x32] : Bytes).length ≤ maxPayload → why = .badCrc) := by
  constructor
  · apply corrupted_refused.1 .lsbFirst [0x31, 0x32] [0xB1, 0x33] rfl (by decide)
    refine ⟨7, fun i hi => ?_⟩
    by_cases hlast : i < 16
    · have hall : ∀ i : Fin 16, bitAt .lsbFirst [0x31, 0x32] i ≠ bitAt .lsbFirst [0xB1, 0x33] i →
          7 ≤ i.val ∧ i.val < 7 + 16 := by decide
      exact hall ⟨i, hlast⟩ hi
    · have hpast : ∀ x y : UInt8, bitAt .lsbFirst [x, y] i = false := by
        intro x y
        have hnone : [x, y][i / 8]? = none := by
          rw [List.getElem?_eq_none_iff]
          simp only [List.length_cons, List.length_nil]
          omega
        rw [bitAt, List.getD_eq_getElem?_getD, hnone]
        exact BitOrder.bit_zero _
      rw [hpast, hpast] at hi
      exact absurd rfl hi
  · exact corrupted_refused.2 [0x31, 0x32] (stuff (flipBit (covered [0x31, 0x32]) 21)) 21 _ 5 (by decide)
      (decodes_iff.mpr ⟨stuff_ne_nil _, unstuff_stuff _⟩) (by decide +kernel)

end FrameReader

end Km43.Framing
