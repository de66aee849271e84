import Mathlib.Tactic

/-! Folds whose step adds up over its state and its input. -/

namespace Km43.Library

variable {σ α : Type} {f : σ → α → σ} {rest : σ} {idle : α}

theorem foldl_zipWith {mix : σ → σ → σ} {add : α → α → α}
    (hf : ∀ r s x y, f (mix r s) (add x y) = mix (f r x) (f s y)) {xs ys : List α}
    (h : xs.length = ys.length) (r s : σ) :
    (List.zipWith add xs ys).foldl f (mix r s) = mix (xs.foldl f r) (ys.foldl f s) := by
  induction xs generalizing ys r s with
  | nil =>
    obtain rfl := List.length_eq_zero_iff.mp h.symm
    rfl
  | cons x xs ih =>
    cases ys with
    | nil => cases h
    | cons y ys =>
      rw [List.zipWith_cons_cons, List.foldl_cons, hf]
      apply ih
      simpa using h

/-- Idle inputs leave a state at rest, and bring no other state to it. -/
theorem foldl_idle (hf : ∀ x, Function.Injective (f · x)) (hidle : f rest idle = rest) {xs : List α}
    (h : ∀ x ∈ xs, x = idle) (r : σ) : xs.foldl f r = rest ↔ r = rest := by
  induction xs generalizing r with
  | nil => rfl
  | cons x xs ih =>
    obtain rfl := h x (by simp)
    rw [List.foldl_cons, ih fun y hy => h y (by simp [hy])]
    constructor
    · intro hr
      apply hf x
      exact hr.trans hidle.symm
    · rintro rfl
      exact hidle

/-- The `n` inputs from the place `q` on, idle ones after the last. -/
def window (idle : α) (q n : ℕ) (xs : List α) : List α := (List.range n).map fun i => xs.getD (q + i) idle

theorem window_nil (q n : ℕ) : ∀ x ∈ window idle q n [], x = idle := by simp [window]

theorem window_cons (x : α) (xs : List α) (n : ℕ) : window idle 0 (n + 1) (x :: xs) = x :: window idle 0 n xs := by
  simp [window, List.range_succ_eq_map, Function.comp_def]

theorem window_succ (x : α) (xs : List α) (q n : ℕ) :
    window idle (q + 1) n (x :: xs) = window idle q n xs := by
  simp [window, Nat.add_right_comm _ 1]

theorem foldl_window_zero (hf : ∀ x, Function.Injective (f · x)) (hidle : f rest idle = rest) (n : ℕ)
    {xs : List α} (h : ∀ i, n ≤ i → xs.getD i idle = idle) (r : σ) :
    xs.foldl f r = rest ↔ (window idle 0 n xs).foldl f r = rest := by
  induction n generalizing xs r with
  | zero =>
    apply foldl_idle hf hidle
    intro x hx
    obtain ⟨i, hi, rfl⟩ := List.mem_iff_getElem.mp hx
    have hgot := h i (Nat.zero_le _)
    rwa [List.getD_eq_getElem?_getD, List.getElem?_eq_getElem hi, Option.getD_some] at hgot
  | succ n ih =>
    cases xs with
    | nil => exact (foldl_idle hf hidle (window_nil 0 (n + 1)) r).symm
    | cons x xs =>
      rw [window_cons, List.foldl_cons, List.foldl_cons]
      apply ih
      intro i hi
      exact h (i + 1) (by omega)

/-- Where the inputs outside a window are idle, only the window decides whether a run ends at rest. -/
theorem foldl_window (hf : ∀ x, Function.Injective (f · x)) (hidle : f rest idle = rest) (q n : ℕ) {xs : List α}
    (h : ∀ i, i < q ∨ q + n ≤ i → xs.getD i idle = idle) :
    xs.foldl f rest = rest ↔ (window idle q n xs).foldl f rest = rest := by
  induction q generalizing xs with
  | zero => exact foldl_window_zero hf hidle n (fun i hi => h i (.inr (by omega))) rest
  | succ q ih =>
    cases xs with
    | nil => exact (foldl_idle hf hidle (window_nil (q + 1) n) rest).symm
    | cons x xs =>
      have hx : x = idle := h 0 (by omega)
      rw [window_succ, List.foldl_cons, hx, hidle]
      apply ih
      intro i hi
      exact h (i + 1) (by omega)

end Km43.Library
