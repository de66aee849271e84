import Mathlib.Tactic

namespace Km43.Library

variable {ε α β : Type}

theorem bind_ok {x : Except ε α} {f : α → Except ε β} {b : β} :
    (x >>= f) = .ok b ↔ ∃ a, x = .ok a ∧ f a = .ok b := by
  cases x <;> simp [bind, Except.bind]

theorem bind_error {x : Except ε α} {f : α → Except ε β} {why : ε} :
    (x >>= f) = .error why ↔ x = .error why ∨ ∃ a, x = .ok a ∧ f a = .error why := by
  cases x <;> simp [bind, Except.bind]

theorem seq_ok {x : Except ε Unit} {y : Except ε α} {a : α} :
    (do x; y) = .ok a ↔ x = .ok () ∧ y = .ok a := by
  cases x <;> simp [bind, Except.bind]

theorem forM_ok (f : α → Except ε Unit) (xs : List α) :
    xs.forM f = .ok () ↔ ∀ x ∈ xs, f x = .ok () := by
  induction xs with
  | nil => simp [pure, Except.pure]
  | cons x xs ih =>
    rw [show (x :: xs).forM f = (do f x; xs.forM f) from rfl, seq_ok, ih, List.forall_mem_cons]

theorem mapError_ok {δ : Type} {x : Except ε α} {f : ε → δ} {a : α} :
    x.mapError f = .ok a ↔ x = .ok a := by
  cases x <;> simp [Except.mapError]

theorem toOption_some {x : Except ε α} {a : α} : x.toOption = some a ↔ x = .ok a := by
  cases x with
  | error why => simp [Except.toOption]
  | ok b => simp [Except.toOption]

theorem bind_apply {σ : Type} (m : StateT σ (Except ε) α) (k : α → StateT σ (Except ε) β) (s : σ) :
    (m >>= k) s = match m s with
      | .ok (a, s) => k a s
      | .error why => .error why := by
  show (m s >>= fun p => k p.1 p.2) = _
  cases m s <;> rfl

theorem bind_run_ok {σ : Type} {m : StateT σ (Except ε) α} {k : α → StateT σ (Except ε) β} {s s' : σ} {b : β} :
    (m >>= k) s = .ok (b, s') ↔ ∃ a t, m s = .ok (a, t) ∧ k a t = .ok (b, s') := by
  rw [bind_apply]
  cases m s with
  | error why => simp
  | ok p =>
    obtain ⟨a, t⟩ := p
    simp

end Km43.Library
