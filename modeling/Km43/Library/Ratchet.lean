import Mathlib.Tactic

/-!
A state that only moves forward, by a one-way step that mixes something in.
-/

namespace Km43.Library.Ratchet

variable {σ ε : Type} (next : σ → ε → σ)

def passed (s : σ) : List ε → List σ
  | [] => []
  | e :: mixed => s :: passed (next s e) mixed

/-- No way over some of the steps comes to a state twice. -/
def NeverRepeats (s : σ) (mixed : List ε) : Prop :=
  ∀ taken : List ε, taken.Sublist mixed → (taken.scanl next s).Nodup

theorem scanl_passed (s : σ) (mixed : List ε) :
    mixed.scanl next s = passed next s mixed ++ [mixed.foldl next s] := by
  induction mixed generalizing s with
  | nil => rfl
  | cons e mixed ih => simp only [List.scanl_cons, ih, passed, List.foldl_cons, List.cons_append]

theorem passed_snoc (s : σ) (mixed : List ε) (e : ε) :
    passed next s (mixed ++ [e]) = passed next s mixed ++ [mixed.foldl next s] := by
  induction mixed generalizing s with
  | nil => rfl
  | cons d mixed ih => simp only [List.cons_append, passed, ih, List.foldl_cons]

variable {next}

theorem NeverRepeats.passed_nodup {s : σ} {mixed taken : List ε} (h : NeverRepeats next s mixed)
    (ht : taken.Sublist mixed) : (passed next s taken).Nodup := by
  have hall := h taken ht
  rw [scanl_passed] at hall
  exact (List.nodup_append.mp hall).1

/-- What was used once at each state moved on from, in order, was used at no state twice. -/
theorem NeverRepeats.used_nodup {s : σ} {mixed taken : List ε} {used : List σ}
    (h : NeverRepeats next s mixed) (ht : taken.Sublist mixed)
    (hu : used.Sublist (passed next s taken)) : used.Nodup := (h.passed_nodup ht).sublist hu

end Km43.Library.Ratchet
