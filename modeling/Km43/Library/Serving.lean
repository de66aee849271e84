import Km43.Library.Fallible

namespace Km43.Library

variable {ε P α τ : Type}

/-- Items offered to a page one after another, until it does not take one. -/
def fillPage (push : P → α → Except ε Bool × P) (page : P) : List α → Except ε P
  | [] => .ok page
  | a :: rest =>
    match push page a with
    | (.error why, _) => .error why
    | (.ok false, full) => .ok full
    | (.ok true, more) => fillPage push more rest

/-- Requests answered one after another, each from where the answer before it left off; 0 is the end. -/
def serve (turn : ℕ → Except ε τ) (next : τ → ℕ) : ℕ → ℕ → Except ε (List τ)
  | 0, _ => .ok []
  | fuel + 1, start => do
    let t ← turn start
    if next t = 0 then .ok [t]
    else do
      let rest ← serve turn next fuel (next t)
      .ok (t :: rest)

theorem serve_congr {turn turn' : ℕ → Except ε τ} {next : τ → ℕ} {Asked : ℕ → Prop}
    (hsame : ∀ start, Asked start → turn start = turn' start) (hnext : ∀ t, Asked (next t)) (fuel : ℕ) {start : ℕ}
    (hstart : Asked start) : serve turn next fuel start = serve turn' next fuel start := by
  induction fuel generalizing start with
  | zero => rfl
  | succ fuel ih =>
    rw [serve, serve, hsame start hstart]
    cases turn' start with
    | error why => rfl
    | ok t =>
      change (if next t = 0 then _ else _) = if next t = 0 then _ else _
      rw [ih (hnext t)]

/-- The last answer, and no other, says that nothing follows. -/
def EndsOnce (next : τ → ℕ) (turns : List τ) : Prop :=
  ∃ before last, turns = before ++ [last] ∧ next last = 0 ∧ ∀ t ∈ before, next t ≠ 0

def resumesAt (pos : α → ℕ) : List α → ℕ
  | [] => 0
  | a :: _ => pos a

/-- What a page does with an item that fits one: it keeps what it says it took, and names what it did not. -/
structure Pages (push : P → α → Except ε Bool × P) (new : P) (next : P → ℕ) (pos : α → ℕ) (Fits : α → Prop)
    (Holds : P → List α → Prop) : Prop where
  empty : Holds new []
  unset : next new = 0
  first : ∀ a, Fits a → (push new a).1 = .ok true
  answers : ∀ page held a, Holds page held → Fits a → ∃ took, (push page a).1 = .ok took
  took : ∀ page held a, Holds page held → Fits a → (push page a).1 = .ok true →
    Holds (push page a).2 (held ++ [a]) ∧ next (push page a).2 = next page
  full : ∀ page held a, Holds page held → (push page a).1 = .ok false →
    Holds (push page a).2 held ∧ next (push page a).2 = pos a

namespace Pages

variable {push : P → α → Except ε Bool × P} {new : P} {next : P → ℕ} {pos : α → ℕ} {Fits : α → Prop}
  {Holds : P → List α → Prop}

theorem fillPage_took {page : P} {a : α} {rest : List α} (h : (push page a).1 = .ok true) :
    fillPage push page (a :: rest) = fillPage push (push page a).2 rest := by
  rw [fillPage]
  rcases hpush : push page a with ⟨took, after⟩
  rw [hpush] at h
  subst h
  rfl

theorem fillPage_full {page : P} {a : α} {rest : List α} (h : (push page a).1 = .ok false) :
    fillPage push page (a :: rest) = .ok (push page a).2 := by
  rw [fillPage]
  rcases hpush : push page a with ⟨took, after⟩
  rw [hpush] at h
  subst h
  rfl

theorem fillPage_error {page : P} {a : α} {rest : List α} {why : ε} (h : (push page a).1 = .error why) :
    fillPage push page (a :: rest) = .error why := by
  rw [fillPage]
  rcases hpush : push page a with ⟨took, after⟩
  rw [hpush] at h
  subst h
  rfl

theorem fills (h : Pages push new next pos Fits Holds) {page : P} {held offered : List α} (hpage : Holds page held)
    (hnext : next page = 0) (hfits : ∀ a ∈ offered, Fits a) :
    ∃ full taken left, fillPage push page offered = .ok full ∧ offered = taken ++ left ∧
      Holds full (held ++ taken) ∧ next full = resumesAt pos left := by
  induction offered generalizing page held with
  | nil =>
    refine ⟨page, [], [], rfl, rfl, ?_, hnext⟩
    rw [List.append_nil]
    exact hpage
  | cons a offered ih =>
    obtain ⟨ha, hrest⟩ := List.forall_mem_cons.mp hfits
    obtain ⟨took, htook⟩ := h.answers page held a hpage ha
    cases took with
    | false =>
      obtain ⟨hholds, hresume⟩ := h.full page held a hpage htook
      refine ⟨_, [], a :: offered, fillPage_full htook, rfl, ?_, hresume⟩
      rw [List.append_nil]
      exact hholds
    | true =>
      obtain ⟨hholds, hsame⟩ := h.took page held a hpage ha htook
      obtain ⟨full, taken, left, hfill, hsplit, hfull, hresume⟩ := ih hholds (hsame.trans hnext) hrest
      refine ⟨full, a :: taken, left, (fillPage_took htook).trans hfill, ?_, ?_, hresume⟩
      · rw [hsplit, List.cons_append]
      · rw [List.append_assoc, List.singleton_append] at hfull
        exact hfull

/-- An empty page takes what it is offered first, so that every page moves the walk on. -/
theorem fills_new (h : Pages push new next pos Fits Holds) {offered : List α} (hfits : ∀ a ∈ offered, Fits a) :
    ∃ full taken left, fillPage push new offered = .ok full ∧ offered = taken ++ left ∧ Holds full taken ∧
      next full = resumesAt pos left ∧ (left ≠ [] → taken ≠ []) := by
  cases offered with
  | nil => exact ⟨new, [], [], rfl, rfl, h.empty, h.unset, fun hleft => absurd rfl hleft⟩
  | cons a offered =>
    obtain ⟨ha, hrest⟩ := List.forall_mem_cons.mp hfits
    have htook := h.first a ha
    obtain ⟨hholds, hsame⟩ := h.took new [] a h.empty ha htook
    obtain ⟨full, taken, left, hfill, hsplit, hfull, hresume⟩ := h.fills hholds (hsame.trans h.unset) hrest
    refine ⟨full, a :: taken, left, (fillPage_took htook).trans hfill, ?_, hfull, hresume, fun _ => by simp⟩
    rw [hsplit, List.cons_append]

end Pages

section

variable {pos : α → ℕ} {held : List α} {start : ℕ}

def fromPosition (pos : α → ℕ) (start : ℕ) (held : List α) : List α := held.filter fun a => decide (start ≤ pos a)

theorem fromPosition_zero : fromPosition pos 0 held = held := by
  apply List.filter_eq_self.mpr
  intro a _
  simp

/-- What a page left over is what the next request asks for. -/
theorem fromPosition_resume (hrise : held.Pairwise fun a b => pos a < pos b) {taken left : List α} {b : α}
    (hsplit : fromPosition pos start held = taken ++ b :: left) : fromPosition pos (pos b) held = b :: left := by
  have hsub : (taken ++ b :: left).Pairwise fun a b => pos a < pos b := by
    rw [← hsplit]
    exact hrise.filter _
  obtain ⟨-, hleft, hbelow⟩ := List.pairwise_append.mp hsub
  have hmem : b ∈ fromPosition pos start held := by
    rw [hsplit]
    simp
  have hstart : start ≤ pos b := by
    simpa using (List.mem_filter.mp hmem).2
  have htwice : fromPosition pos (pos b) held = fromPosition pos (pos b) (fromPosition pos start held) := by
    unfold fromPosition
    rw [List.filter_filter]
    apply List.filter_congr
    intro a _
    by_cases ha : pos b ≤ pos a
    · simp [ha, hstart.trans ha]
    · simp [ha]
  have hnone : fromPosition pos (pos b) taken = [] := by
    apply List.filter_eq_nil_iff.mpr
    intro a ha
    have hlt := hbelow a ha b (List.mem_cons_self ..)
    simpa using hlt
  have hall : fromPosition pos (pos b) (b :: left) = b :: left := by
    apply List.filter_eq_self.mpr
    intro a ha
    rcases List.mem_cons.mp ha with rfl | ha
    · simp
    · have hlt := (List.pairwise_cons.mp hleft).1 a ha
      simpa using hlt.le
  rw [htwice, hsplit]
  unfold fromPosition at hnone hall ⊢
  rw [List.filter_append, hnone, hall, List.nil_append]

/-- Answers that each carry the front of what is asked for, and name what follows, come to all of it. -/
theorem serve_delivers {turn : ℕ → Except ε τ} {next : τ → ℕ} {Reads : τ → List α → Prop}
    (hrise : held.Pairwise fun a b => pos a < pos b)
    (hturn : ∀ start, ∃ t taken left, turn start = .ok t ∧ fromPosition pos start held = taken ++ left ∧
      Reads t taken ∧ next t = resumesAt pos left ∧ (left ≠ [] → taken ≠ [])) (fuel start : ℕ)
    (hfuel : (fromPosition pos start held).length < fuel) :
    ∃ turns parts, serve turn next fuel start = .ok turns ∧ List.Forall₂ Reads turns parts ∧
      parts.flatten = fromPosition pos start held ∧ EndsOnce next turns := by
  induction fuel generalizing start with
  | zero => omega
  | succ fuel ih =>
    obtain ⟨t, taken, left, hok, hsplit, hreads, hnext, hmoves⟩ := hturn start
    cases left with
    | nil =>
      refine ⟨[t], [taken], ?_, .cons hreads .nil, ?_, [], t, rfl, hnext, by simp⟩
      · rw [serve, hok]
        simp only [resumesAt] at hnext
        exact if_pos hnext
      · rw [hsplit, List.flatten_singleton, List.append_nil]
    | cons b left =>
      obtain ⟨a, taken, rfl⟩ := List.exists_cons_of_ne_nil (hmoves (by simp))
      have hresume := fromPosition_resume hrise hsplit
      have hlength : (fromPosition pos (pos b) held).length < fuel := by
        rw [hsplit] at hfuel
        rw [hresume]
        simp only [List.length_append, List.length_cons] at hfuel ⊢
        omega
      have hpositive : next t ≠ 0 := by
        have hsub : (a :: taken ++ b :: left).Pairwise fun a b => pos a < pos b := by
          rw [← hsplit]
          exact hrise.filter _
        have hlt := (List.pairwise_append.mp hsub).2.2 a (by simp) b (by simp)
        rw [hnext, resumesAt]
        omega
      obtain ⟨turns, parts, hserve, hparts, hflat, before, last, rfl, hlast, hothers⟩ := ih (pos b) hlength
      refine ⟨t :: (before ++ [last]), (a :: taken) :: parts, ?_, .cons hreads hparts, ?_, t :: before, last, rfl, hlast, ?_⟩
      · rw [serve, hok]
        have hstep : serve turn next fuel (next t) = .ok (before ++ [last]) := by
          rw [hnext, resumesAt]
          exact hserve
        change (if next t = 0 then _ else _) = _
        rw [if_neg hpositive, hstep]
        rfl
      · rw [List.flatten_cons, hflat, hresume, hsplit]
      · intro u hu
        rcases List.mem_cons.mp hu with rfl | hu
        · exact hpositive
        · exact hothers u hu

end

end Km43.Library
