import Mathlib.Tactic
import Mathlib.Data.List.Infix
import Mathlib.Data.List.MinMax

/-! Lists: labels no one of which starts another, the element that is lowest by a key, and values that stand side by side
for the marked places of a list. -/

namespace Km43.Library

section

variable {ι α : Type} {label : ι → List α} {i j : ι} {s t : List α}

def PrefixFree (label : ι → List α) : Prop := ∀ i j, label i <+: label j → i = j

namespace PrefixFree

theorem starts (h : PrefixFree label) (hstart : label i <+: label j ++ t) : i = j := by
  rcases List.prefix_or_prefix_of_prefix hstart (List.prefix_append (label j) t) with hij | hji
  · exact h i j hij
  · exact (h j i hji).symm

theorem split (h : PrefixFree label) (heq : label i ++ s = label j ++ t) : i = j ∧ s = t := by
  have hstart : label i <+: label j ++ t := ⟨s, heq⟩
  obtain rfl := h.starts hstart
  exact ⟨rfl, List.append_cancel_left heq⟩

end PrefixFree

end

section

variable {α β : Type} [LinearOrder β] {f : α → β} {l l' : List α} {a : α}

theorem argmin_lowest (h : l.argmin f = some a) : a ∈ l ∧ ∀ b ∈ l, f a ≤ f b :=
  ⟨List.argmin_mem h, fun _ hb => List.le_of_mem_argmin hb h⟩

/-- Keys that tell the elements apart leave one lowest, wherever it stands in the list. -/
theorem argmin_perm (hperm : l.Perm l') (hkeys : ∀ a ∈ l, ∀ b ∈ l, f a = f b → a = b) :
    l.argmin f = l'.argmin f := by
  cases h : l.argmin f with
  | none =>
    cases List.argmin_eq_none.mp h
    cases hperm.nil_eq
    rfl
  | some a =>
    cases h' : l'.argmin f with
    | none =>
      cases List.argmin_eq_none.mp h'
      cases hperm.eq_nil
      cases h
    | some b =>
      obtain ⟨ha, hlow⟩ := argmin_lowest h
      obtain ⟨hb, hlow'⟩ := argmin_lowest h'
      have hb' := hperm.mem_iff.mpr hb
      rw [hkeys a ha b hb' (le_antisymm (hlow b hb') (hlow' a (hperm.mem_iff.mp ha)))]

end

section

variable {α β : Type} {p : α → Bool}

/-- The value of a place, where only the places that satisfy `p` have one and the values stand side by side. -/
def denseAt (p : α → Bool) (marks : List α) (values : List β) (i : ℕ) : Option β :=
  match marks[i]? with
  | none => none
  | some here => if p here then values[((marks.take i).filter p).length]? else none

def places (p : α → Bool) (marks : List α) : List ℕ := (List.range marks.length).filter fun i => marks[i]?.any p

theorem places_cons (here : α) (marks : List α) :
    places p (here :: marks) = (if p here then [0] else []) ++ (places p marks).map (· + 1) := by
  rw [places, List.length_cons, List.range_succ_eq_map, List.filter_cons, places, List.filter_map]
  cases h : p here <;> simp [h, Function.comp_def]

theorem denseAt_cons (here : α) (marks : List α) (values : List β) (i : ℕ) :
    denseAt p (here :: marks) values (i + 1) = denseAt p marks (if p here then values.tail else values) i := by
  rw [denseAt, denseAt, List.getElem?_cons_succ, List.take_succ_cons, List.filter_cons]
  cases marks[i]? with
  | none => rfl
  | some one => cases h : p here <;> simp [List.getElem?_tail]

/-- The places that have a value have the values in their order, one each. -/
theorem places_denseAt (marks : List α) (values : List β) (h : values.length = (marks.filter p).length) :
    (places p marks).map (denseAt p marks values) = values.map some := by
  induction marks generalizing values with
  | nil =>
    obtain rfl := List.length_eq_zero_iff.mp h
    rfl
  | cons here marks ih =>
    rw [places_cons, List.map_append, List.map_map]
    have hrest : ∀ rest : List β, (if p here then values.tail else values) = rest →
        rest.length = (marks.filter p).length →
        (places p marks).map (denseAt p (here :: marks) values ∘ (· + 1)) = rest.map some := by
      rintro rest rfl hlen
      rw [← ih _ hlen]
      apply List.map_congr_left
      intro i _
      exact denseAt_cons here marks values i
    cases hp : p here with
    | false =>
      rw [List.filter_cons_of_neg (by simp [hp])] at h
      rw [hrest values (by simp [hp]) h]
      rfl
    | true =>
      rw [List.filter_cons_of_pos hp, List.length_cons] at h
      cases values with
      | nil => cases h
      | cons value values =>
        rw [hrest values (by simp [hp]) (by simpa using h)]
        simp [denseAt, hp]

theorem denseAt_isSome {marks : List α} {values : List β} (h : values.length = (marks.filter p).length) (i : ℕ) :
    (denseAt p marks values i).isSome = marks[i]?.any p := by
  induction marks generalizing values i with
  | nil => rfl
  | cons here marks ih =>
    cases i with
    | zero =>
      cases hp : p here with
      | false => simp [denseAt, hp]
      | true =>
        rw [List.filter_cons_of_pos hp, List.length_cons] at h
        cases values with
        | nil => cases h
        | cons => simp [denseAt, hp]
    | succ i =>
      rw [denseAt_cons, List.getElem?_cons_succ]
      apply ih
      cases hp : p here with
      | false => simpa [hp] using h
      | true => simp [hp, h]

end

end Km43.Library
