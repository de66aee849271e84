import Mathlib.Tactic

namespace Km43.Library.SlidingBits

variable {w top n i : ℕ} {seen : BitVec w} {past : List ℕ}

def bit? (w n : ℕ) : Option (BitVec w) := if n < w then some (BitVec.twoPow w n) else none

def shift? (seen : BitVec w) (n : ℕ) : Option (BitVec w) := if n < w then some (seen <<< n) else none

/-- Bit `i` of the register tells whether `top - i` is among the numbers that went by. -/
structure Tracks (seen : BitVec w) (top : ℕ) (past : List ℕ) : Prop where
  mem : top ∈ past
  le : ∀ n ∈ past, n ≤ top
  bits : ∀ i < w, seen.getLsbD i = true ↔ i ≤ top ∧ top - i ∈ past

theorem and_twoPow_eq_zero (hi : i < w) : seen &&& BitVec.twoPow w i = 0#w ↔ seen.getLsbD i = false := by
  rw [BitVec.and_twoPow]
  split
  · rename_i h
    simp only [h, Bool.true_eq_false, iff_false]
    intro hz
    have := congrArg (·.getLsbD i) hz
    simp [hi] at this
  · rename_i h
    simpa using h

theorem Tracks.free (h : Tracks seen top past) (hn : n ≤ top) (hage : top - n < w) :
    seen &&& BitVec.twoPow w (top - n) = 0#w ↔ n ∉ past := by
  rw [and_twoPow_eq_zero hage, ← Bool.not_eq_true, h.bits _ hage, Nat.sub_sub_self hn]
  simp

/-- The first number. -/
theorem Tracks.first (hw : 0 < w) (n : ℕ) : Tracks (1#w) n [n] := by
  refine ⟨by simp, by simp, fun i hi => ?_⟩
  rw [BitVec.getLsbD_one]
  simp only [decide_eq_true_eq, Bool.and_eq_true, List.mem_singleton]
  omega

/-- A number within the register's reach. -/
theorem Tracks.mark (h : Tracks seen top past) (hn : n ≤ top) (hage : top - n < w) :
    Tracks (seen ||| BitVec.twoPow w (top - n)) top (past ++ [n]) := by
  refine ⟨by simp [h.mem], ?_, fun i hi => ?_⟩
  · intro m hm
    rcases List.mem_append.mp hm with hm | hm
    · exact h.le m hm
    · rw [List.mem_singleton.mp hm]
      exact hn
  · simp only [BitVec.getLsbD_or, Bool.or_eq_true, h.bits i hi, BitVec.getLsbD_twoPow,
      Bool.and_eq_true, decide_eq_true_eq, List.mem_append, List.mem_singleton]
    constructor
    · rintro (⟨hit, hm⟩ | ⟨-, rfl⟩)
      · exact ⟨hit, .inl hm⟩
      · exact ⟨Nat.sub_le _ _, .inr (Nat.sub_sub_self hn)⟩
    · rintro ⟨hit, hm | rfl⟩
      · exact .inl ⟨hit, hm⟩
      · exact .inr ⟨hage, Nat.sub_sub_self hit⟩

/-- A number above all those before it slides the register along. -/
theorem Tracks.slide (hw : 0 < w) (h : Tracks seen top past) (hn : top < n) :
    Tracks ((shift? seen (n - top)).getD 0#w ||| 1#w) n (past ++ [n]) := by
  refine ⟨by simp, ?_, fun i hi => ?_⟩
  · intro m hm
    rcases List.mem_append.mp hm with hm | hm
    · exact (h.le m hm).trans hn.le
    · exact (List.mem_singleton.mp hm).le
  · have hold : i ≤ n → (n - i ∈ past ↔ n - top ≤ i ∧ top - (i - (n - top)) ∈ past) := by
      intro hin
      constructor
      · intro hm
        have := h.le _ hm
        refine ⟨by omega, ?_⟩
        rwa [show top - (i - (n - top)) = n - i by omega]
      · rintro ⟨hge, hm⟩
        rwa [show n - i = top - (i - (n - top)) by omega]
    have hbits : ((shift? seen (n - top)).getD 0#w).getLsbD i = true ↔
        n - top ≤ i ∧ i - (n - top) ≤ top ∧ top - (i - (n - top)) ∈ past := by
      unfold shift?
      split_ifs with hs
      · rw [Option.getD_some, BitVec.getLsbD_shiftLeft]
        simp only [hi, decide_true, Bool.true_and, Bool.and_eq_true, Bool.not_eq_true',
          decide_eq_false_iff_not, h.bits _ (show i - (n - top) < w by omega), Nat.not_lt]
      · simp only [Option.getD_none, BitVec.getLsbD_zero, Bool.false_eq_true, false_iff]
        omega
    rw [BitVec.getLsbD_or, Bool.or_eq_true, hbits, BitVec.getLsbD_one]
    simp only [decide_eq_true_eq, Bool.and_eq_true, List.mem_append, List.mem_singleton]
    constructor
    · rintro (⟨hge, hle, hm⟩ | ⟨-, rfl⟩)
      · exact ⟨by omega, .inl ((hold (by omega)).mpr ⟨hge, hm⟩)⟩
      · exact ⟨Nat.zero_le _, .inr rfl⟩
    · rintro ⟨hin, hm | hm⟩
      · obtain ⟨hge, hm⟩ := (hold hin).mp hm
        exact .inl ⟨hge, by omega, hm⟩
      · exact .inr ⟨hw, by omega⟩

end Km43.Library.SlidingBits
