import Mathlib.Tactic
import Mathlib.Data.List.ReduceOption

/-! A table of a fixed number of slots, at most one of them for each key. -/

namespace Km43.Library.SlotTable

variable {α κ : Type} {slots slots' : List (Option α)} {a : α}

def held (slots : List (Option α)) : List α := slots.reduceOption

@[simp] theorem held_nil : held ([] : List (Option α)) = [] := rfl

@[simp] theorem held_none : held (none :: slots) = held slots := rfl

@[simp] theorem held_some : held (some a :: slots) = a :: held slots := rfl

@[simp] theorem held_empty (n : ℕ) : held (List.replicate n (none : Option α)) = [] := by
  induction n with
  | zero => rfl
  | succ n ih => rw [List.replicate_succ, held_none, ih]

theorem mem_held : a ∈ held slots ↔ some a ∈ slots := List.reduceOption_mem_iff

theorem held_length_le (slots : List (Option α)) : (held slots).length ≤ slots.length :=
  List.reduceOption_length_le slots

/-- Filling a slot adds what it is filled with and takes away what it held. -/
theorem held_set {i : ℕ} {old : Option α} (h : slots[i]? = some old) :
    (held (slots.set i (some a)) ++ old.toList).Perm (a :: held slots) := by
  induction slots generalizing i with
  | nil => cases h
  | cons slot slots ih =>
    cases i with
    | zero =>
      cases h
      cases old with
      | none => simp
      | some b => simp
    | succ i =>
      have hrest := ih (show slots[i]? = some old from h)
      cases slot with
      | none => exact hrest
      | some b => exact (hrest.cons b).trans (.swap a b _)

variable [DecidableEq κ] (key : α → κ)

def place (k : κ) (slots : List (Option α)) : Option ℕ :=
  (slots.findIdx? fun slot => slot.any fun b => key b = k).or (slots.findIdx? Option.isNone)

def store (a : α) (slots : List (Option α)) : Option (List (Option α)) :=
  (place key (key a) slots).map fun i => slots.set i (some a)

def Unique (slots : List (Option α)) : Prop := ((held slots).map key).Nodup

variable {key}

theorem store_length (h : store key a slots = some slots') : slots'.length = slots.length := by
  obtain ⟨i, -, rfl⟩ := Option.map_eq_some_iff.mp h
  exact List.length_set

/-- A stored entry takes the place of the one under its key, or a free slot where there is none. -/
theorem store_held (h : store key a slots = some slots') :
    (∃ old ∈ held slots, key old = key a ∧ (held slots' ++ [old]).Perm (a :: held slots)) ∨
      key a ∉ (held slots).map key ∧ (held slots').Perm (a :: held slots) := by
  obtain ⟨i, hplace, rfl⟩ := Option.map_eq_some_iff.mp h
  unfold place at hplace
  cases hsame : slots.findIdx? fun slot => slot.any fun b => key b = key a with
  | some j =>
    rw [hsame] at hplace
    obtain rfl : j = i := Option.some.inj hplace
    obtain ⟨hlt, hfound, -⟩ := List.findIdx?_eq_some_iff_getElem.mp hsame
    obtain ⟨old, hold, hkey⟩ := (Option.any_eq_true _ _).mp hfound
    have hget : slots[j]? = some (some old) := by rw [List.getElem?_eq_getElem hlt, hold]
    refine .inl ⟨old, mem_held.mpr (List.mem_of_getElem? hget), of_decide_eq_true hkey, ?_⟩
    exact held_set hget
  | none =>
    rw [hsame, Option.none_or] at hplace
    obtain ⟨hlt, hfree, -⟩ := List.findIdx?_eq_some_iff_getElem.mp hplace
    have hget : slots[i]? = some none := by
      rw [List.getElem?_eq_getElem hlt, Option.isNone_iff_eq_none.mp hfree]
    refine .inr ⟨?_, by simpa using held_set (a := a) hget⟩
    intro hmem
    obtain ⟨b, hb, hkey⟩ := List.mem_map.mp hmem
    have hno := List.findIdx?_eq_none_iff.mp hsame (some b) (mem_held.mp hb)
    simp [hkey] at hno

theorem store_mem (h : store key a slots = some slots') {b : α} (hb : b ∈ held slots') :
    b = a ∨ b ∈ held slots := by
  rw [← List.mem_cons]
  rcases store_held h with ⟨old, -, -, hperm⟩ | ⟨-, hperm⟩
  · exact hperm.mem_iff.mp (List.mem_append_left _ hb)
  · exact hperm.mem_iff.mp hb

theorem store_unique (hu : Unique key slots) (h : store key a slots = some slots') : Unique key slots' := by
  unfold Unique at hu ⊢
  rcases store_held h with ⟨old, -, hkey, hperm⟩ | ⟨hnew, hperm⟩
  · have hkeys := hperm.map key
    rw [List.map_append, List.map_singleton, hkey, List.map_cons] at hkeys
    have hsame := (List.perm_append_singleton (key a) _).symm.trans hkeys
    exact (List.perm_cons (key a)).mp hsame |>.nodup_iff.mpr hu
  · rw [(hperm.map key).nodup_iff, List.map_cons, List.nodup_cons]
    exact ⟨hnew, hu⟩

theorem store_new (hnew : key a ∉ (held slots).map key) (h : store key a slots = some slots') :
    (held slots').Perm (a :: held slots) := by
  rcases store_held h with ⟨old, hold, hkey, -⟩ | ⟨-, hperm⟩
  · exact absurd (List.mem_map.mpr ⟨old, hold, hkey⟩) hnew
  · exact hperm

theorem store_self (h : store key a slots = some slots') : a ∈ held slots' := by
  rcases store_held h with ⟨old, hold, -, hperm⟩ | ⟨-, hperm⟩
  · rcases List.mem_append.mp (hperm.mem_iff.mpr List.mem_cons_self) with hin | hold'
    · exact hin
    · obtain rfl := List.mem_singleton.mp hold'
      have hsame := (List.perm_cons a).mp ((List.perm_append_singleton a _).symm.trans hperm)
      exact hsame.mem_iff.mpr hold
  · exact hperm.mem_iff.mpr List.mem_cons_self

/-- What a table holds after an entry is stored: the entry, and all that was under other keys. -/
theorem store_mem_iff (hu : Unique key slots) (h : store key a slots = some slots') {b : α} :
    b ∈ held slots' ↔ b = a ∨ b ∈ held slots ∧ key b ≠ key a := by
  constructor
  · intro hb
    by_cases hkey : key b = key a
    · exact .inl (List.inj_on_of_nodup_map (store_unique hu h) hb (store_self h) hkey)
    · rcases store_mem h hb with rfl | hmem
      · exact absurd rfl hkey
      · exact .inr ⟨hmem, hkey⟩
  · rintro (rfl | ⟨hb, hkey⟩)
    · exact store_self h
    · rcases store_held h with ⟨old, -, hold, hperm⟩ | ⟨-, hperm⟩
      · rcases List.mem_append.mp (hperm.mem_iff.mpr (List.mem_cons_of_mem _ hb)) with hin | hb'
        · exact hin
        · obtain rfl := List.mem_singleton.mp hb'
          exact absurd hold hkey
      · exact hperm.mem_iff.mpr (List.mem_cons_of_mem _ hb)

/-- An entry of a key that is held takes that key's own slot. -/
theorem store_kept (hkey : key a ∈ (held slots).map key) :
    ∃ slots', store key a slots = some slots' ∧ slots'.map (Option.map key) = slots.map (Option.map key) := by
  cases hsame : slots.findIdx? fun slot => slot.any fun b => key b = key a with
  | none =>
    obtain ⟨b, hb, hb'⟩ := List.mem_map.mp hkey
    have hno := List.findIdx?_eq_none_iff.mp hsame (some b) (mem_held.mp hb)
    simp [hb'] at hno
  | some i =>
    obtain ⟨hlt, hfound, -⟩ := List.findIdx?_eq_some_iff_getElem.mp hsame
    obtain ⟨old, hold, hold'⟩ := (Option.any_eq_true _ _).mp hfound
    refine ⟨slots.set i (some a), by rw [store, place, hsame]; rfl, ?_⟩
    have hi : i < (slots.map (Option.map key)).length := by simpa using hlt
    have hget : (slots.map (Option.map key))[i] = some (key a) := by
      rw [List.getElem_map, hold, Option.map_some, of_decide_eq_true hold']
    rw [List.map_set, Option.map_some, ← hget, List.set_getElem_self]

theorem held_full (h : ∀ slot ∈ slots, slot.isNone = false) : (held slots).length = slots.length := by
  induction slots with
  | nil => rfl
  | cons slot slots ih =>
    have hrest := ih fun s hs => h s (List.mem_cons_of_mem _ hs)
    cases slot with
    | none => cases h none List.mem_cons_self
    | some b => simp [hrest]

/-- An entry of a key not held is refused only by a table that is full. -/
theorem store_some (hroom : (held slots).length < slots.length) : ∃ slots', store key a slots = some slots' := by
  cases hfree : slots.findIdx? Option.isNone with
  | some i =>
    cases hsame : slots.findIdx? fun slot => slot.any fun b => key b = key a with
    | some j => exact ⟨_, by rw [store, place, hsame]; rfl⟩
    | none => exact ⟨_, by rw [store, place, hsame, hfree]; rfl⟩
  | none => exact absurd (held_full (List.findIdx?_eq_none_iff.mp hfree)) hroom.ne

end Km43.Library.SlotTable
