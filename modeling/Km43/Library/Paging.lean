import Mathlib.Tactic

namespace Km43.Library

variable {α κ : Type} [LinearOrder κ]

/-- One request of a walk: from where, over what, what it gave, and from where to go on. -/
structure Turn (α κ : Type) where
  start : κ
  held : List α
  page : List α
  next : Option κ

namespace Turn

/-- The keys that a page answers for; the last page answers for all that are left. -/
def covers (t : Turn α κ) (k : κ) : Prop := t.start ≤ k ∧ ∀ n ∈ t.next, k < n

instance (t : Turn α κ) (k : κ) : Decidable (t.covers k) := inferInstanceAs (Decidable (_ ∧ _))

/-- The page carries, of what is held in order, all that it answers for. -/
structure Fair (key : α → κ) (t : Turn α κ) : Prop where
  rising : t.held.Pairwise fun a b => key a < key b
  page : t.page = t.held.filter fun a => decide (t.covers (key a))
  forward : ∀ n ∈ t.next, t.start ≤ n

end Turn

/-- Requests that go on where the page before them left off, until one is the last. -/
inductive Walk (key : α → κ) : κ → List (Turn α κ) → Prop
  | nil (k : κ) : Walk key k []
  | more {k n : κ} {t : Turn α κ} {turns : List (Turn α κ)} (fair : t.Fair key) (start : t.start = k)
      (next : t.next = some n) (rest : Walk key n turns) : Walk key k (t :: turns)
  | last {k : κ} {t : Turn α κ} (fair : t.Fair key) (start : t.start = k) (next : t.next = none) :
      Walk key k [t]

def delivered (turns : List (Turn α κ)) : List α := turns.flatMap Turn.page

/-- Where a walk that goes on stands: past all that its pages answer for. -/
def stands : κ → List (Turn α κ) → κ
  | k, [] => k
  | k, t :: turns => stands (t.next.getD k) turns

def Ended (turns : List (Turn α κ)) : Prop := ∃ t ∈ turns, t.next = none

variable {key : α → κ} {k : κ} {turns : List (Turn α κ)}

theorem Turn.Fair.mem_page {t : Turn α κ} (h : t.Fair key) {a : α} :
    a ∈ t.page ↔ a ∈ t.held ∧ t.covers (key a) := by
  rw [h.page, List.mem_filter, decide_eq_true_iff]

namespace Walk

theorem fair (h : Walk key k turns) : ∀ t ∈ turns, t.Fair key := by
  induction h with
  | nil => simp
  | more fair _ _ _ ih => exact List.forall_mem_cons.mpr ⟨fair, ih⟩
  | last fair _ _ => simpa using fair

theorem start_le (h : Walk key k turns) : ∀ t ∈ turns, k ≤ t.start := by
  induction h with
  | nil => simp
  | more fair start next _ ih =>
    subst start
    refine List.forall_mem_cons.mpr ⟨le_rfl, fun t ht => ?_⟩
    exact (fair.forward _ next).trans (ih t ht)
  | last _ start _ => simp [start]

theorem mem_delivered (h : Walk key k turns) {a : α} :
    a ∈ delivered turns ↔ ∃ t ∈ turns, a ∈ t.held ∧ t.covers (key a) := by
  rw [delivered, List.mem_flatMap]
  constructor
  · rintro ⟨t, ht, ha⟩
    exact ⟨t, ht, (h.fair t ht).mem_page.mp ha⟩
  · rintro ⟨t, ht, ha⟩
    exact ⟨t, ht, (h.fair t ht).mem_page.mpr ha⟩

/-- Nothing is delivered from before the walk's start. -/
theorem delivered_ge (h : Walk key k turns) : ∀ a ∈ delivered turns, k ≤ key a := by
  intro a ha
  obtain ⟨t, ht, -, hcovers, -⟩ := h.mem_delivered.mp ha
  exact (h.start_le t ht).trans hcovers

/-- What is delivered rises, over all the pages. -/
theorem delivered_rising (h : Walk key k turns) :
    (delivered turns).Pairwise fun a b => key a < key b := by
  induction h with
  | nil => exact .nil
  | @more k n t turns fair start next rest ih =>
    rw [delivered, List.flatMap_cons, List.pairwise_append]
    refine ⟨?_, ih, ?_⟩
    · rw [fair.page]
      exact fair.rising.filter _
    · intro a ha b hb
      have hbelow : key a < n := (fair.mem_page.mp ha).2.2 n next
      exact hbelow.trans_le (rest.delivered_ge b hb)
  | last fair _ _ =>
    rw [delivered, List.flatMap_singleton, fair.page]
    exact fair.rising.filter _

/-- One page and no other carries the key, and carries it once. -/
theorem delivered_once [DecidableEq κ] (h : Walk key k turns) {a : α} (ha : a ∈ delivered turns) :
    (delivered turns).filter (fun b => decide (key b = key a)) = [a] := by
  have hrising := h.delivered_rising
  generalize delivered turns = items at ha hrising
  induction items with
  | nil => cases ha
  | cons b items ih =>
    rw [List.pairwise_cons] at hrising
    obtain ⟨hb, hrest⟩ := hrising
    rcases List.mem_cons.mp ha with rfl | ha
    · have hnone : items.filter (fun c => decide (key c = key a)) = [] := by
        rw [List.filter_eq_nil_iff]
        intro c hc
        simpa using (hb c hc).ne'
      rw [List.filter_cons_of_pos (by simp), hnone]
    · rw [List.filter_cons_of_neg (by simpa using (hb a ha).ne), ih ha hrest]

theorem le_stands (h : Walk key k turns) (hopen : ∀ t ∈ turns, t.next.isSome) : k ≤ stands k turns := by
  induction h with
  | nil => exact le_rfl
  | more fair start next _ ih =>
    obtain ⟨-, hrest⟩ := List.forall_mem_cons.mp hopen
    subst start
    rw [stands, next]
    exact (fair.forward _ next).trans (ih hrest)
  | last _ _ next =>
    have hfirst := hopen _ List.mem_cons_self
    rw [next] at hfirst
    cases hfirst

/-- A walk that goes on delivers what lies between its start and where it stands, if it was held when answered for. -/
theorem mem_delivered_iff (h : Walk key k turns) (hopen : ∀ t ∈ turns, t.next.isSome) {a : α} :
    a ∈ delivered turns ↔ k ≤ key a ∧ key a < stands k turns ∧ ∀ t ∈ turns, t.covers (key a) → a ∈ t.held := by
  induction h with
  | nil k =>
    constructor
    · intro ha
      cases ha
    · rintro ⟨hle, hlt, -⟩
      exact absurd hlt (not_lt.mpr hle)
  | @more k n t turns fair start next rest ih =>
    obtain ⟨-, hopen⟩ := List.forall_mem_cons.mp hopen
    have hforward : k ≤ n := start ▸ fair.forward n next
    have hcovers : t.covers (key a) ↔ k ≤ key a ∧ key a < n := by
      rw [Turn.covers, start, next]
      simp
    have hrest := rest.le_stands hopen
    rw [delivered, List.flatMap_cons, List.mem_append, fair.mem_page, List.forall_mem_cons, stands, next,
      Option.getD_some]
    change (_ ∨ a ∈ delivered turns) ↔ _
    rw [ih hopen]
    constructor
    · rintro (⟨hheld, ht⟩ | ⟨hle, hlt, hall⟩)
      · obtain ⟨hle, hlt⟩ := hcovers.mp ht
        refine ⟨hle, hlt.trans_le hrest, fun _ => hheld, fun u hu hu' => ?_⟩
        exact absurd ((rest.start_le u hu).trans hu'.1) (not_le.mpr hlt)
      · exact ⟨hforward.trans hle, hlt, fun ht => absurd (hcovers.mp ht).2 (not_lt.mpr hle), hall⟩
    · rintro ⟨hle, hlt, hfirst, hall⟩
      by_cases hn : key a < n
      · exact .inl ⟨hfirst (hcovers.mpr ⟨hle, hn⟩), hcovers.mpr ⟨hle, hn⟩⟩
      · exact .inr ⟨not_lt.mp hn, hlt, hall⟩
  | last _ _ next =>
    have hfirst := hopen _ List.mem_cons_self
    rw [next] at hfirst
    cases hfirst

/-- A walk that ended has a page for every key from its start on. -/
theorem covered (h : Walk key k turns) (hend : Ended turns) {j : κ} (hj : k ≤ j) :
    ∃ t ∈ turns, t.covers j := by
  induction h with
  | nil =>
    obtain ⟨t, ht, -⟩ := hend
    cases ht
  | @more k n t turns fair start next rest ih =>
    by_cases hjn : j < n
    · refine ⟨t, by simp, start ▸ hj, fun m hm => ?_⟩
      rw [next] at hm
      cases hm
      exact hjn
    · obtain ⟨u, hu, hlast⟩ := hend
      have hrest : Ended turns := by
        rcases List.mem_cons.mp hu with rfl | hu
        · rw [next] at hlast
          cases hlast
        · exact ⟨u, hu, hlast⟩
      obtain ⟨v, hv, hcovers⟩ := ih hrest (not_lt.mp hjn)
      exact ⟨v, by simp [hv], hcovers⟩
  | @last k t fair start next =>
    refine ⟨t, by simp, start ▸ hj, fun m hm => ?_⟩
    rw [next] at hm
    cases hm

end Walk

end Km43.Library
