import Km43.Library.StepParser
import Km43.Cbor.Reader

namespace Km43.Cbor

open Library Library.StepParser

inductive Token
  | unsigned (w : Width) (n : ℕ)
  | negative (w : Width) (n : ℕ)
  | bytes (w : Width) (raw : Bytes)
  | text (w : Width) (raw : Bytes)
  | array (w : Width) (count : ℕ)
  | map (w : Width) (pairs : ℕ)
  | bool (value : Bool)
  deriving DecidableEq

def Width.limit : Width → ℕ
  | .inline => 24
  | .one => 256
  | .two => 256 ^ 2
  | .four => 256 ^ 4
  | .eight => 256 ^ 8

def Width.Holds (w : Width) (n : ℕ) : Prop := n < w.limit

instance (w : Width) (n : ℕ) : Decidable (w.Holds n) := inferInstanceAs (Decidable (_ < _))

def headBytes (m : Major) (w : Width) (n : ℕ) : Bytes :=
  UInt8.ofNat (m.bits * 32 + w.info n) :: BigEndian.digits w.bytes n

@[simp] theorem headBytes_length (m : Major) (w : Width) (n : ℕ) :
    (headBytes m w n).length = w.bytes + 1 := by simp [headBytes]

namespace Token

def head : Token → Head
  | unsigned _ n => .unsigned n
  | negative _ n => .negative n
  | bytes _ raw => .bytes raw
  | text _ raw => .text raw
  | array _ count => .array count
  | map _ pairs => .map pairs
  | bool value => .bool value

def spelling : Token → Bytes
  | unsigned w n => headBytes .unsigned w n
  | negative w n => headBytes .negative w n
  | bytes w raw => headBytes .bytes w raw.length ++ raw
  | text w raw => headBytes .text w raw.length ++ raw
  | array w count => headBytes .array w count
  | map w pairs => headBytes .map w pairs
  | bool value => [if value then 0xF5 else 0xF4]

theorem spelling_pos (t : Token) : 0 < t.spelling.length := by
  cases t <;> simp [spelling]

def Legal : Token → Prop
  | unsigned w n | negative w n | array w n | map w n => w.Holds n
  | bytes w raw => w.Holds raw.length
  | text w raw => w.Holds raw.length ∧ raw.length ≤ maxString ∧ isUtf8 raw = true
  | bool _ => True

def room : Token → ℕ
  | array _ count => count
  | map _ pairs => pairs * 2
  | unsigned .. | negative .. | bytes .. | text .. | bool _ => 0

end Token

def takeBytes (n : ℕ) : Step UInt8 Bytes := fun bs =>
  if n ≤ bs.length then some (bs.take n, bs.drop n) else none

def argumentStep (info : ℕ) : Step UInt8 (Width × ℕ) := fun bs =>
  match Width.ofInfo info with
  | .error _ => none
  | .ok .inline => some ((.inline, info), bs)
  | .ok w => (takeBytes w.bytes bs).map fun p => ((w, BigEndian.value p.1), p.2)

def tokenAs (info : ℕ) : Major → Step UInt8 Token
  | .unsigned => fun bs => (argumentStep info bs).map fun p => (.unsigned p.1.1 p.1.2, p.2)
  | .negative => fun bs => (argumentStep info bs).map fun p => (.negative p.1.1 p.1.2, p.2)
  | .bytes => fun bs => (argumentStep info bs).bind fun p =>
      (takeBytes p.1.2 p.2).map fun q => (.bytes p.1.1 q.1, q.2)
  | .text => fun bs => (argumentStep info bs).bind fun p =>
      if p.1.2 > maxString then none
      else (takeBytes p.1.2 p.2).bind fun q =>
        if isUtf8 q.1 then some (.text p.1.1 q.1, q.2) else none
  | .array => fun bs => (argumentStep info bs).map fun p => (.array p.1.1 p.1.2, p.2)
  | .map => fun bs => (argumentStep info bs).map fun p => (.map p.1.1 p.1.2, p.2)
  | .tag => fun _ => none
  | .simple => fun bs =>
      if info = 20 then some (.bool false, bs)
      else if info = 21 then some (.bool true, bs)
      else none

def tokenStep : Step UInt8 Token
  | [] => none
  | first :: bs => tokenAs (first &&& 0x1F).toNat (Major.of first) bs

theorem takeBytes_exact (n : ℕ) : Exact id (fun raw : Bytes => raw.length = n) (takeBytes n) := by
  intro bs raw rest
  simp only [takeBytes, id]
  constructor
  · intro h
    split_ifs at h with hn
    simp only [Option.some.injEq, Prod.mk.injEq] at h
    obtain ⟨rfl, rfl⟩ := h
    simp [hn]
  · rintro ⟨rfl, rfl⟩
    simp

theorem first_split (b : UInt8) :
    UInt8.ofNat ((Major.of b).bits * 32 + (b &&& 0x1F).toNat) = b := by
  have h : ∀ n : Fin 256, UInt8.ofNat ((Major.of (UInt8.ofNat n)).bits * 32 +
      (UInt8.ofNat n &&& 0x1F).toNat) = UInt8.ofNat n := by decide +kernel
  simpa using h ⟨b.toNat, b.toNat_lt⟩

theorem Major.of_head (m : Major) (info : ℕ) (h : info < 32) :
    Major.of (UInt8.ofNat (m.bits * 32 + info)) = m := by
  have h : ∀ i : Fin 32, Major.of (UInt8.ofNat (m.bits * 32 + i)) = m := by cases m <;> decide
  exact h ⟨info, ‹_›⟩

theorem info_of_head (m : Major) (info : ℕ) (h : info < 32) :
    (UInt8.ofNat (m.bits * 32 + info) &&& 0x1F).toNat = info := by
  have h : ∀ i : Fin 32, (UInt8.ofNat (m.bits * 32 + i) &&& 0x1F).toNat = i := by
    cases m <;> decide
  exact h ⟨info, ‹_›⟩

theorem Width.info_lt {w : Width} {n : ℕ} (h : w.Holds n) : w.info n < 32 := by
  cases w <;> simp_all [Width.info, Width.Holds, Width.limit]
  omega

theorem Width.ofInfo_info {w : Width} {n : ℕ} (h : w.Holds n) : Width.ofInfo (w.info n) = .ok w := by
  cases w with
  | inline => exact if_pos (Nat.le_of_lt_succ h)
  | one | two | four | eight => rfl

theorem Width.ofInfo_inline {info : ℕ} (h : Width.ofInfo info = .ok .inline) : info ≤ 23 := by
  unfold Width.ofInfo at h
  split_ifs at h
  · assumption
  all_goals cases h

theorem Width.info_of_ofInfo {w : Width} {info : ℕ} (hw : w ≠ .inline)
    (h : Width.ofInfo info = .ok w) (n : ℕ) : w.info n = info := by
  unfold Width.ofInfo at h
  split_ifs at h <;> simp_all [Width.info]
  all_goals subst h; simp_all

theorem Width.limit_eq {w : Width} (hw : w ≠ .inline) : w.limit = 256 ^ w.bytes := by
  cases w <;> simp_all [Width.limit, Width.bytes]

theorem argumentStep_iff (info : ℕ) (bs : Bytes) (w : Width) (n : ℕ) (rest : Bytes) :
    argumentStep info bs = some ((w, n), rest) ↔
      w.Holds n ∧ w.info n = info ∧ bs = BigEndian.digits w.bytes n ++ rest := by
  constructor
  · intro h
    unfold argumentStep at h
    split at h
    · cases h
    · rename_i hi
      simp only [Option.some.injEq, Prod.mk.injEq] at h
      obtain ⟨⟨rfl, rfl⟩, rfl⟩ := h
      exact ⟨Nat.lt_succ_of_le (Width.ofInfo_inline hi), rfl, rfl⟩
    · rename_i w' hw' hi
      have hne : w' ≠ .inline := fun h => hw' (by rw [h])
      simp only [Option.map_eq_some_iff, Prod.exists, Prod.mk.injEq] at h
      obtain ⟨raw, tail, ht, ⟨rfl, rfl⟩, rfl⟩ := h
      obtain ⟨hl, rfl⟩ := (takeBytes_exact _ _ _ _).mp ht
      have hv := BigEndian.value_lt raw
      rw [hl, ← Width.limit_eq hne] at hv
      exact ⟨hv, Width.info_of_ofInfo hne hi _, by rw [← hl, BigEndian.digits_value]; rfl⟩
  · rintro ⟨hh, rfl, rfl⟩
    unfold argumentStep
    rw [Width.ofInfo_info hh]
    by_cases hw : w = .inline
    · subst hw
      rfl
    · have ht := (takeBytes_exact w.bytes).read (x := BigEndian.digits w.bytes n) (by simp) rest
      have hv : BigEndian.value (BigEndian.digits w.bytes n) = n := by
        rw [BigEndian.value_digits, ← Width.limit_eq hw, Nat.mod_eq_of_lt hh]
      cases w <;> simp_all

theorem info_lt (first : UInt8) : (first &&& 0x1F).toNat < 32 := by
  rw [UInt8.toNat_and]
  exact Nat.lt_of_le_of_lt Nat.and_le_right (by decide)

theorem tokenStep_head (m : Major) (info : ℕ) (h : info < 32) (bs : Bytes) :
    tokenStep (UInt8.ofNat (m.bits * 32 + info) :: bs) = tokenAs info m bs := by
  rw [tokenStep, Major.of_head m info h, info_of_head m info h]

theorem headBytes_step {w : Width} {n : ℕ} (hh : w.Holds n) (rest : Bytes) :
    argumentStep (w.info n) (BigEndian.digits w.bytes n ++ rest) = some ((w, n), rest) :=
  (argumentStep_iff _ _ _ _ _).mpr ⟨hh, rfl, rfl⟩

theorem tokenStep_complete (t : Token) (h : t.Legal) (rest : Bytes) :
    tokenStep (t.spelling ++ rest) = some (t, rest) := by
  cases t with
  | unsigned w n | negative w n | array w n | map w n =>
    simp only [Token.Legal] at h
    rw [Token.spelling, headBytes, List.cons_append, tokenStep_head _ _ (Width.info_lt h)]
    simp only [tokenAs, headBytes_step h, Option.map_some]
  | bytes w raw =>
    simp only [Token.Legal] at h
    rw [Token.spelling, headBytes, List.cons_append, List.cons_append,
      tokenStep_head _ _ (Width.info_lt h)]
    have ht := (takeBytes_exact raw.length).read (x := raw) rfl rest
    simp only [id] at ht
    simp only [tokenAs, List.append_assoc, headBytes_step h, Option.bind_some, ht, Option.map_some]
  | text w raw =>
    obtain ⟨hw, hl, hu⟩ := h
    rw [Token.spelling, headBytes, List.cons_append, List.cons_append,
      tokenStep_head _ _ (Width.info_lt hw)]
    have ht := (takeBytes_exact raw.length).read (x := raw) rfl rest
    simp only [id] at ht
    simp only [tokenAs, List.append_assoc, headBytes_step hw, Option.bind_some, ht, hu, if_true,
      if_neg (Nat.not_lt.mpr hl), gt_iff_lt]
  | bool value => cases value <;> rfl

theorem tokenAs_sound (info : ℕ) (m : Major) (bs : Bytes) (t : Token) (rest : Bytes)
    (h : tokenAs info m bs = some (t, rest)) :
    t.Legal ∧ UInt8.ofNat (m.bits * 32 + info) :: bs = t.spelling ++ rest := by
  cases m with
  | unsigned | negative | array | map =>
    simp only [tokenAs, Option.map_eq_some_iff, Prod.exists, Prod.mk.injEq] at h
    obtain ⟨w, n, tail, ha, rfl, rfl⟩ := h
    obtain ⟨hh, hi, rfl⟩ := (argumentStep_iff _ _ _ _ _).mp ha
    exact ⟨hh, by rw [Token.spelling, headBytes, hi]; rfl⟩
  | bytes =>
    simp only [tokenAs, Option.bind_eq_some_iff, Option.map_eq_some_iff, Prod.exists,
      Prod.mk.injEq] at h
    obtain ⟨w, n, tail, ha, raw, tail', ht, rfl, rfl⟩ := h
    obtain ⟨hh, hi, rfl⟩ := (argumentStep_iff _ _ _ _ _).mp ha
    obtain ⟨rfl, rfl⟩ := (takeBytes_exact _ _ _ _).mp ht
    exact ⟨hh, by rw [Token.spelling, headBytes, hi]; simp⟩
  | text =>
    simp only [tokenAs, Option.bind_eq_some_iff, Prod.exists] at h
    obtain ⟨w, n, tail, ha, h⟩ := h
    split_ifs at h with hs
    simp only [Option.bind_eq_some_iff, Prod.exists] at h
    obtain ⟨raw, tail', ht, h⟩ := h
    split_ifs at h with hu
    simp only [Option.some.injEq, Prod.mk.injEq] at h
    obtain ⟨rfl, rfl⟩ := h
    obtain ⟨hh, hi, rfl⟩ := (argumentStep_iff _ _ _ _ _).mp ha
    obtain ⟨rfl, rfl⟩ := (takeBytes_exact _ _ _ _).mp ht
    exact ⟨⟨hh, Nat.not_lt.mp hs, hu⟩, by rw [Token.spelling, headBytes, hi]; simp⟩
  | tag => cases h
  | simple =>
    simp only [tokenAs] at h
    split_ifs at h with h0 h1
    all_goals
      simp only [Option.some.injEq, Prod.mk.injEq] at h
      obtain ⟨rfl, rfl⟩ := h
      subst info
      exact ⟨trivial, rfl⟩

theorem tokenStep_sound (bs : Bytes) (t : Token) (rest : Bytes)
    (h : tokenStep bs = some (t, rest)) : t.Legal ∧ bs = t.spelling ++ rest := by
  cases bs with
  | nil => cases h
  | cons first bs =>
    have hs := tokenAs_sound _ _ _ _ _ h
    rwa [first_split] at hs

theorem tokenStep_exact : Exact Token.spelling Token.Legal tokenStep := fun bs t rest =>
  ⟨tokenStep_sound bs t rest, fun ⟨h, hb⟩ => hb ▸ tokenStep_complete t h rest⟩

end Km43.Cbor
