import Mathlib.Tactic

namespace Km43.Library

variable {σ τ ι ο α : Type}

theorem filterMap_snoc (f : α → Option ο) (xs : List α) (x : α) :
    (xs ++ [x]).filterMap f = xs.filterMap f ++ (f x).toList := by
  rw [List.filterMap_append]
  cases h : f x <;> simp [h]

/-- A machine takes one input in a state, to its next state and an output. -/
abbrev Machine (σ ι ο : Type) := σ → ι → σ × ο

namespace Machine

def run (m : Machine σ ι ο) : σ → List ι → σ × List ο
  | s, [] => (s, [])
  | s, i :: is =>
    let (s, o) := m s i
    let (s, os) := run m s is
    (s, o :: os)

def final (m : Machine σ ι ο) (s : σ) (is : List ι) : σ := (m.run s is).1

def outputs (m : Machine σ ι ο) (s : σ) (is : List ι) : List ο := (m.run s is).2

variable {m : Machine σ ι ο} {n : Machine τ ι ο}

@[simp] theorem final_nil (s : σ) : m.final s [] = s := rfl
@[simp] theorem final_cons (s : σ) (i : ι) (is : List ι) :
    m.final s (i :: is) = m.final (m s i).1 is := rfl
@[simp] theorem outputs_nil (s : σ) : m.outputs s [] = [] := rfl
@[simp] theorem outputs_cons (s : σ) (i : ι) (is : List ι) :
    m.outputs s (i :: is) = (m s i).2 :: m.outputs (m s i).1 is := rfl

theorem final_append (s : σ) (is js : List ι) :
    m.final s (is ++ js) = m.final (m.final s is) js := by
  induction is generalizing s with
  | nil => rfl
  | cons i is ih => exact ih _

theorem outputs_append (s : σ) (is js : List ι) :
    m.outputs s (is ++ js) = m.outputs s is ++ m.outputs (m.final s is) js := by
  induction is generalizing s with
  | nil => rfl
  | cons i is ih => simp only [List.cons_append, outputs_cons, final_cons, ih]

@[simp] theorem outputs_length (s : σ) (is : List ι) : (m.outputs s is).length = is.length := by
  induction is generalizing s with
  | nil => rfl
  | cons i is ih => simp only [outputs_cons, List.length_cons, ih]

/-- Each output is the one to its own input, in the state that those before it left. -/
theorem outputs_getElem? (s : σ) (is : List ι) (k : ℕ) :
    (m.outputs s is)[k]? = is[k]?.map fun i => (m (m.final s (is.take k)) i).2 := by
  induction is generalizing s k with
  | nil => rfl
  | cons i is ih =>
    cases k with
    | zero => rfl
    | succ k =>
      rw [outputs_cons, List.getElem?_cons_succ, ih]
      rfl

def answering {π : Type} (m : Machine σ ι ο) (f : ο → π) : Machine σ ι π := fun s i => ((m s i).1, f (m s i).2)

theorem answering_outputs {π : Type} (m : Machine σ ι ο) (f : ο → π) (s : σ) (is : List ι) :
    (m.answering f).outputs s is = (m.outputs s is).map f := by
  induction is generalizing s with
  | nil => rfl
  | cons i is ih => exact congrArg (f (m s i).2 :: ·) (ih _)

/-- What every step on an allowed input keeps, every run on allowed inputs keeps. -/
theorem final_invariant {Inv : σ → Prop} {P : ι → Prop}
    (step : ∀ s i, Inv s → P i → Inv (m s i).1) {s : σ} {is : List ι} (hs : Inv s)
    (hi : ∀ i ∈ is, P i) : Inv (m.final s is) := by
  induction is generalizing s with
  | nil => exact hs
  | cons i is ih =>
    exact ih (step s i hs (hi i (by simp))) fun j hj => hi j (by simp [hj])

/-- What every step answers while it keeps the invariant, a whole run answers. -/
theorem outputs_invariant (Inv : σ → Prop) (Q : ο → Prop)
    (step : ∀ s i, Inv s → Inv (m s i).1 ∧ Q (m s i).2) {s : σ} (hs : Inv s) (is : List ι) :
    ∀ o ∈ m.outputs s is, Q o := by
  induction is generalizing s with
  | nil => simp
  | cons i is ih =>
    rw [outputs_cons]
    exact List.forall_mem_cons.mpr ⟨(step s i hs).2, ih (step s i hs).1⟩

/-- An invariant of a state and what was recorded on the way there. -/
theorem final_records (Inv : σ → List α → Prop) (record : ο → List α)
    (step : ∀ s past i, Inv s past → Inv (m s i).1 (past ++ record (m s i).2)) {s : σ}
    (past : List α) (hs : Inv s past) (is : List ι) :
    Inv (m.final s is) (past ++ (m.outputs s is).flatMap record) := by
  induction is generalizing s past with
  | nil => simpa using hs
  | cons i is ih =>
    rw [final_cons, outputs_cons, List.flatMap_cons, ← List.append_assoc]
    exact ih _ (step s past i hs)

/-- An invariant of a state, what it was given and what it answered on the way there. -/
theorem final_history (Inv : σ → List ι → List ο → Prop)
    (step : ∀ s is os i, Inv s is os → Inv (m s i).1 (is ++ [i]) (os ++ [(m s i).2])) {s : σ}
    (before : List ι) (answers : List ο) (hs : Inv s before answers) (is : List ι) :
    Inv (m.final s is) (before ++ is) (answers ++ m.outputs s is) := by
  induction is generalizing s before answers with
  | nil => simpa using hs
  | cons i is ih =>
    have hnext := ih _ _ (step s before answers i hs)
    simpa only [List.append_assoc, List.singleton_append, final_cons, outputs_cons] using hnext

/-- Two machines whose related states answer alike, and stay related, answer every run alike. -/
theorem run_simulates {R : σ → τ → Prop} {P : ι → Prop}
    (step : ∀ s t i, R s t → P i → (m s i).2 = (n t i).2 ∧ R (m s i).1 (n t i).1) {s : σ} {t : τ}
    {is : List ι} (hst : R s t) (hi : ∀ i ∈ is, P i) :
    m.outputs s is = n.outputs t is ∧ R (m.final s is) (n.final t is) := by
  induction is generalizing s t with
  | nil => exact ⟨rfl, hst⟩
  | cons i is ih =>
    obtain ⟨ho, hr⟩ := step s t i hst (hi i (by simp))
    obtain ⟨hos, hrs⟩ := ih hr fun j hj => hi j (by simp [hj])
    exact ⟨by simp only [outputs_cons, ho, hos], hrs⟩

end Machine

section

variable {ε σ α β : Type}

abbrev Attempt (ε σ α : Type) := ExceptT ε (StateM σ) α

namespace Attempt

def outcome (r : Except ε α × σ) : Except ε (α × σ) := r.1.map fun a => (a, r.2)

@[simp] theorem outcome_ok (a : α) (s : σ) : outcome (ε := ε) (.ok a, s) = .ok (a, s) := rfl

@[simp] theorem outcome_error (why : ε) (s : σ) : outcome (α := α) (.error why, s) = .error why := rfl

theorem bind_ok {x : Attempt ε σ α} {f : α → Attempt ε σ β} {s s' : σ} {a : α} (h : x s = (.ok a, s')) :
    (x >>= f) s = f a s' := by
  have hbind : (x >>= f) s = ExceptT.bindCont f (x s).1 (x s).2 := rfl
  rw [hbind, h]
  rfl

theorem bind_error {x : Attempt ε σ α} {f : α → Attempt ε σ β} {s s' : σ} {why : ε}
    (h : x s = (.error why, s')) : (x >>= f) s = (.error why, s') := by
  have hbind : (x >>= f) s = ExceptT.bindCont f (x s).1 (x s).2 := rfl
  rw [hbind, h]
  rfl

theorem bind_congr {x : Attempt ε σ α} {f : α → Attempt ε σ β} {s t : σ} (h : x s = x t) :
    (x >>= f) s = (x >>= f) t := by
  have hbind (u : σ) : (x >>= f) u = ExceptT.bindCont f (x u).1 (x u).2 := rfl
  rw [hbind, hbind, h]

/-- A call that, where it fails, leaves the state as it was. -/
def Whole (x : Attempt ε σ α) (s : σ) : Prop := ∀ why s', x s = (.error why, s') → s' = s

/-- What follows either starts where the call started and is whole itself, or does not fail. -/
theorem Whole.bind {x : Attempt ε σ α} {f : α → Attempt ε σ β} {s : σ} (hx : Whole x s)
    (hf : ∀ a s', x s = (.ok a, s') → s' = s ∧ Whole (f a) s ∨ ∃ b s'', f a s' = (.ok b, s'')) :
    Whole (x >>= f) s := by
  intro why s' h
  cases hmade : x s with
  | mk result t =>
    cases result with
    | error first =>
      rw [bind_error hmade] at h
      cases h
      exact hx _ _ hmade
    | ok a =>
      rw [bind_ok hmade] at h
      obtain ⟨rfl, hwhole⟩ | ⟨b, s'', hok⟩ := hf a t hmade
      · exact hwhole _ _ h
      · rw [hok] at h
        cases h

/-- What follows a call follows it also where failed calls leave nothing. -/
theorem outcome_bind {x : Attempt ε σ α} {f : α → Attempt ε σ β} {y : StateT σ (Except ε) α}
    {g : α → StateT σ (Except ε) β} {s : σ} (hx : outcome (x s) = y s)
    (hf : ∀ a s', x s = (.ok a, s') → outcome (f a s') = g a s') : outcome ((x >>= f) s) = (y >>= g) s := by
  have hbind : (y >>= g) s = (y s >>= fun r => g r.1 r.2) := rfl
  rw [hbind, ← hx]
  cases h : x s with
  | mk result s' =>
    cases result with
    | ok a =>
      rw [bind_ok h]
      exact hf a s' h
    | error why =>
      rw [bind_error h]
      rfl

end Attempt

end

namespace Machine

variable {σ ι ο : Type} {m : Machine σ ι ο} {count : σ → ℕ} {spent : ο → List ℕ}

/-- The counter never falls, and a step spends, in order, only values it moves past. -/
structure Counts (m : Machine σ ι ο) (count : σ → ℕ) (spent : ο → List ℕ) : Prop where
  le : ∀ s i, count s ≤ count (m s i).1
  past : ∀ s i, (spent (m s i).2).Sublist (List.range' (count s) (count (m s i).1 - count s))

theorem Counts.final_le (h : Counts m count spent) (s : σ) (is : List ι) :
    count s ≤ count (m.final s is) := by
  induction is generalizing s with
  | nil => exact le_rfl
  | cons i is ih => exact (h.le s i).trans (ih _)

/-- A whole run spends, in order, only values the counter moves past. -/
theorem Counts.run (h : Counts m count spent) (s : σ) (is : List ι) :
    ((m.outputs s is).flatMap spent).Sublist
      (List.range' (count s) (count (m.final s is) - count s)) := by
  induction is generalizing s with
  | nil => simp
  | cons i is ih =>
    have hstep := h.le s i
    have hrest := h.final_le (m s i).1 is
    have hsplit : List.range' (count s) (count (m.final s (i :: is)) - count s) =
        List.range' (count s) (count (m s i).1 - count s) ++
          List.range' (count (m s i).1) (count (m.final (m s i).1 is) - count (m s i).1) := by
      rw [show List.range' (count (m s i).1) _ = List.range' (count s + (count (m s i).1 - count s)) _ by
        rw [Nat.add_sub_cancel' hstep], List.range'_append_1, final_cons]
      congr 1
      omega
    rw [hsplit, outputs_cons, List.flatMap_cons]
    exact (h.past s i).append (ih _)

theorem Counts.nodup (h : Counts m count spent) (s : σ) (is : List ι) :
    ((m.outputs s is).flatMap spent).Nodup :=
  (h.run s is).nodup List.nodup_range'

theorem Counts.ascends (h : Counts m count spent) (s : σ) (is : List ι) :
    ((m.outputs s is).flatMap spent).Pairwise (· < ·) :=
  List.Pairwise.sublist (h.run s is) List.pairwise_lt_range'

theorem Counts.mem (h : Counts m count spent) {s : σ} {is : List ι} {n : ℕ}
    (hn : n ∈ (m.outputs s is).flatMap spent) : count s ≤ n ∧ n < count (m.final s is) := by
  have hmem := List.mem_range'_1.mp ((h.run s is).subset hn)
  have hle := h.final_le s is
  omega

end Machine

end Km43.Library
