import Mathlib.Tactic

namespace Km43.Library

namespace BigEndian

def digits : ℕ → ℕ → List UInt8
  | 0, _ => []
  | k + 1, n => UInt8.ofNat (n / 256 ^ k) :: digits k n

def push (v : ℕ) (b : UInt8) : ℕ := v <<< 8 ||| b.toNat

def value (bs : List UInt8) : ℕ := bs.foldl push 0

@[simp] theorem digits_length (k n : ℕ) : (digits k n).length = k := by
  induction k with
  | zero => rfl
  | succ k ih => simp [digits, ih]

theorem push_eq (v : ℕ) (b : UInt8) : push v b = v * 256 + b.toNat := by
  rw [push, ← Nat.shiftLeft_add_eq_or_of_lt (b := b.toNat) (i := 8) (by simpa using b.toNat_lt)]
  simp [Nat.shiftLeft_eq]

theorem foldl_push (bs : List UInt8) (v : ℕ) :
    bs.foldl push v = v * 256 ^ bs.length + value bs := by
  induction bs generalizing v with
  | nil => simp [value]
  | cons b bs ih =>
    have h0 : value (b :: bs) = push 0 b * 256 ^ bs.length + value bs := ih _
    rw [h0, List.foldl_cons, ih, push_eq, push_eq, List.length_cons, pow_succ]
    ring

theorem value_cons (b : UInt8) (bs : List UInt8) :
    value (b :: bs) = b.toNat * 256 ^ bs.length + value bs := by
  rw [value, List.foldl_cons, foldl_push, push_eq, Nat.zero_mul, Nat.zero_add]

theorem value_lt (bs : List UInt8) : value bs < 256 ^ bs.length := by
  induction bs with
  | nil => simp [value]
  | cons b bs ih =>
    have hb : b.toNat + 1 ≤ 256 := b.toNat_lt
    have hm := Nat.mul_le_mul_right (256 ^ bs.length) hb
    simp only [value_cons, List.length_cons, pow_succ, Nat.add_mul, Nat.one_mul] at hm ⊢
    omega

theorem value_digits (k n : ℕ) : value (digits k n) = n % 256 ^ k := by
  induction k with
  | zero => simp [digits, value, Nat.mod_one]
  | succ k ih =>
    have hd : (UInt8.ofNat (n / 256 ^ k)).toNat = n / 256 ^ k % 256 := by simp
    rw [digits, value_cons, digits_length, ih, hd, pow_succ, Nat.mod_mul]
    ring

theorem digits_mod (k n : ℕ) : digits k (n % 256 ^ k) = digits k n := by
  suffices h : ∀ j, k ≤ j → digits k (n % 256 ^ j) = digits k n from h k le_rfl
  induction k with
  | zero => intro j _; rfl
  | succ k ih =>
    intro j hj
    rw [digits, digits, ih j (by omega)]
    congr 1
    apply UInt8.toNat_inj.mp
    obtain ⟨m, rfl⟩ : ∃ m, j = k + 1 + m := ⟨j - (k + 1), by omega⟩
    have hp : 256 ^ (k + 1 + m) = 256 ^ k * (256 * 256 ^ m) := by ring
    simp only [UInt8.toNat_ofNat', hp, Nat.mod_mul_right_div_self]
    exact Nat.mod_mul_right_mod _ _ _

theorem digits_value (bs : List UInt8) : digits bs.length (value bs) = bs := by
  induction bs with
  | nil => rfl
  | cons b bs ih =>
    have hlt := value_lt bs
    have hpos : 0 < 256 ^ bs.length := by positivity
    rw [List.length_cons, digits, ← digits_mod]
    have hd : value (b :: bs) / 256 ^ bs.length = b.toNat := by
      rw [value_cons, Nat.mul_comm, Nat.mul_add_div hpos, Nat.div_eq_of_lt hlt, Nat.add_zero]
    have hm : value (b :: bs) % 256 ^ bs.length = value bs := by
      rw [value_cons, Nat.mul_comm, Nat.mul_add_mod, Nat.mod_eq_of_lt hlt]
    rw [hd, hm, ih]
    simp

theorem digits_inj {k m n : ℕ} (hm : m < 256 ^ k) (hn : n < 256 ^ k) (h : digits k m = digits k n) : m = n := by
  have hvalue := congrArg value h
  rwa [value_digits, value_digits, Nat.mod_eq_of_lt hm, Nat.mod_eq_of_lt hn] at hvalue

end BigEndian

/-! Arrays of fixed length, filled from a run of bytes. -/

/-- The bytes as far as the array goes; zeros where they end before it. -/
def fill (n : ℕ) (bytes : List UInt8) : Vector UInt8 n := .ofFn fun i => bytes.getD i 0

theorem fill_toList {n : ℕ} {bytes : List UInt8} (h : bytes.length = n) : (fill n bytes).toList = bytes := by
  subst h
  apply List.ext_getElem
  · simp
  · intro i _ _
    simp [fill]

end Km43.Library
