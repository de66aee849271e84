import Km43.Cbor.Table

namespace Km43.Cbor

open Library Library.StepParser CborReader

def valueAt : List (Key × Item) → ℤ → Option Item
  | [], _ => none
  | (k, v) :: rest, n => if k.i64? = some n then some v else valueAt rest n

def Keyed (pairs : List (Key × Item)) : Prop := ∀ p ∈ pairs, (p.1.i64?).isSome

theorem valueAt_none {pairs : List (Key × Item)} {n : ℤ} : valueAt pairs n = none ↔ ¬HasKey pairs n := by
  induction pairs with
  | nil => simp [valueAt, HasKey]
  | cons p pairs ih =>
    obtain ⟨k, v⟩ := p
    unfold HasKey at ih ⊢
    by_cases hk : k.i64? = some n
    · simp [valueAt, hk]
    · rw [valueAt, if_neg hk, ih]
      simp [hk]

theorem valueAt_mem {pairs : List (Key × Item)} {n : ℤ} {i : Item} (h : valueAt pairs n = some i) :
    ∃ k, k.i64? = some n ∧ (k, i) ∈ pairs := by
  induction pairs with
  | nil => cases h
  | cons p pairs ih =>
    obtain ⟨k, v⟩ := p
    unfold valueAt at h
    split_ifs at h with hk
    · obtain rfl := Option.some.inj h
      exact ⟨k, hk, List.mem_cons_self ..⟩
    · obtain ⟨k', hk', hmem⟩ := ih h
      exact ⟨k', hk', List.mem_cons_of_mem _ hmem⟩

theorem valueAt_fresh {k : Key} {v : Item} {pairs : List (Key × Item)} {n : ℤ} (hk : k.i64? = some n)
    (hfresh : (ranks ((k, v) :: pairs)).Nodup) : valueAt pairs n = none := by
  obtain ⟨hnot, -⟩ := List.nodup_cons.mp hfresh
  rw [valueAt_none]
  rintro ⟨p, hp, hpk⟩
  apply hnot
  have hvalue : k.value = p.1.value := (Key.i64?_some hk).symm.trans (Key.i64?_some hpk)
  exact List.mem_map.mpr ⟨p, hp, (Key.value_inj hvalue).symm⟩

theorem valueAt_some {pairs : List (Key × Item)} (hfresh : (ranks pairs).Nodup) {n : ℤ} {i : Item} :
    valueAt pairs n = some i ↔ ∃ k, k.i64? = some n ∧ (k, i) ∈ pairs := by
  constructor
  · exact valueAt_mem
  · rintro ⟨k, hk, hmem⟩
    induction pairs with
    | nil => cases hmem
    | cons p pairs ih =>
      obtain ⟨k', v⟩ := p
      have hrest : (ranks pairs).Nodup := (List.nodup_cons.mp hfresh).2
      unfold valueAt
      rcases List.mem_cons.mp hmem with heq | hmem
      · cases heq
        rw [if_pos hk]
      · have hne : k'.i64? ≠ some n := by
          intro hk'
          have hgone := valueAt_fresh hk' hfresh
          exact valueAt_none.mp hgone ⟨(k, i), hmem, hk⟩
        rw [if_neg hne]
        exact ih hrest hmem

theorem valueAt_known {known : ℤ → Prop} {pairs here extra : List (Key × Item)} (hpairs : pairs.Perm (here ++ extra))
    (hfresh : (ranks pairs).Nodup) (hextra : Unread known extra) {n : ℤ} (hn : known n) :
    valueAt pairs n = valueAt here n := by
  have hperm : (ranks pairs).Perm (ranks (here ++ extra)) := hpairs.map _
  have hboth : (ranks (here ++ extra)).Nodup := hperm.nodup_iff.mp hfresh
  have hhere : (ranks here).Nodup := by
    rw [ranks, List.map_append] at hboth
    exact (List.nodup_append.mp hboth).1
  ext i
  rw [valueAt_some hfresh, valueAt_some hhere]
  apply exists_congr
  intro k
  apply and_congr_right
  intro hk
  rw [hpairs.mem_iff, List.mem_append, or_iff_left]
  intro hmem
  obtain ⟨m, hm, hunknown⟩ := hextra _ hmem
  rw [Option.some.inj (hm.symm.trans hk)] at hunknown
  exact hunknown hn

theorem keyed_known {known : ℤ → Prop} {pairs here extra : List (Key × Item)} (hpairs : pairs.Perm (here ++ extra))
    (hextra : Unread known extra) : Keyed pairs ↔ Keyed here := by
  unfold Keyed
  simp only [hpairs.mem_iff, List.mem_append, or_imp, forall_and]
  refine and_iff_left fun p hp => ?_
  obtain ⟨k, hk, -⟩ := hextra p hp
  rw [hk]
  rfl

namespace Table

variable {ε κ : Type} [DecidableEq κ] [BodyKey κ] {t : Table ε κ} {item : ∀ k, Item → Option (t.Value k)}

def SlotRead (item : ∀ k, Item → Option (t.Value k)) (pairs : List (Key × Item)) (before after : t.Slots) (k : κ) :
    Prop :=
  match valueAt pairs (BodyKey.number k) with
  | .none => after k = before k
  | some i => before k = .none ∧ item k i = after k ∧ (after k).isSome

theorem fold_lookup {pairs : List (Key × Item)} (hfresh : (ranks pairs).Nodup) (before after : t.Slots) :
    foldPairs (take item) pairs before = some after ↔ Keyed pairs ∧ ∀ k, SlotRead item pairs before after k := by
  induction pairs generalizing before with
  | nil =>
    simp only [foldPairs, Option.some.injEq, Keyed, SlotRead, valueAt, List.not_mem_nil, false_implies, implies_true,
      true_and]
    rw [eq_comm]
    exact funext_iff
  | cons p pairs ih =>
    obtain ⟨key, i⟩ := p
    have hrest : (ranks pairs).Nodup := (List.nodup_cons.mp hfresh).2
    cases hkey : key.i64? with
    | none => simp [foldPairs, Keyed, hkey]
    | some n =>
      have hkeyed : Keyed ((key, i) :: pairs) ↔ Keyed pairs := by simp [Keyed, hkey]
      have hgone := valueAt_fresh hkey hfresh
      simp only [foldPairs, hkey, Option.bind_some, hkeyed]
      cases hof : BodyKey.of (κ := κ) n with
      | none =>
        have hpass : take item n before i = some before := by rw [take, hof]
        rw [hpass, Option.bind_some, ih hrest]
        apply and_congr_right
        intro _
        apply forall_congr'
        intro k
        have hne : n ≠ BodyKey.number k := by
          intro h
          rw [(BodyKey.of_iff n k).mpr h] at hof
          cases hof
        simp only [SlotRead, valueAt, hkey, Option.some.injEq, if_neg hne]
      | some j =>
        obtain rfl := (BodyKey.of_iff _ _).mp hof
        rw [take_known]
        constructor
        · intro h
          obtain ⟨s, hs, h⟩ := Option.bind_eq_some_iff.mp h
          obtain ⟨hempty, v, hv, rfl⟩ := slotted_some.mp hs
          obtain ⟨hkeys, hslots⟩ := (ih hrest _).mp h
          refine ⟨hkeys, fun k => ?_⟩
          have hk := hslots k
          by_cases hkj : k = j
          · subst hkj
            simp only [SlotRead, hgone, Function.update_self] at hk
            simp [SlotRead, valueAt, hkey, hempty, hk, hv]
          · have hne : (BodyKey.number j : ℤ) ≠ BodyKey.number k := fun h => hkj (number_inj h).symm
            simp only [SlotRead, Function.update_of_ne hkj] at hk
            simp only [SlotRead, valueAt, hkey, Option.some.injEq, if_neg hne]
            exact hk
        · rintro ⟨hkeys, hslots⟩
          have hj := hslots j
          simp only [SlotRead, valueAt, hkey, if_true] at hj
          obtain ⟨hempty, hitem, hsome⟩ := hj
          obtain ⟨v, hv⟩ := Option.isSome_iff_exists.mp hsome
          have hput : slotted (item j i) (before j) (Function.update before j) =
              some (Function.update before j (after j)) := by
            rw [hitem, hempty, hv]
            rfl
          rw [hput, Option.bind_some, ih hrest]
          refine ⟨hkeys, fun k => ?_⟩
          have hk := hslots k
          by_cases hkj : k = j
          · subst hkj
            simp [SlotRead, hgone]
          · have hne : (BodyKey.number j : ℤ) ≠ BodyKey.number k := fun h => hkj (number_inj h).symm
            simp only [SlotRead, valueAt, hkey, Option.some.injEq, if_neg hne] at hk
            simp only [SlotRead, Function.update_of_ne hkj]
            exact hk

def SlotOf (item : ∀ k, Item → Option (t.Value k)) (pairs : List (Key × Item)) (s : t.Slots) (k : κ) : Prop :=
  match valueAt pairs (BodyKey.number k) with
  | .none => s k = .none
  | some i => item k i = s k ∧ (s k).isSome

section

omit [DecidableEq κ]

theorem slotOf_absent {pairs : List (Key × Item)} {s : t.Slots} {k : κ}
    (h : valueAt pairs (BodyKey.number k) = .none) : SlotOf item pairs s k ↔ s k = .none := by
  rw [SlotOf, h]

theorem slotOf_present {pairs : List (Key × Item)} {s : t.Slots} {k : κ} {i : Item}
    (h : valueAt pairs (BodyKey.number k) = some i) : SlotOf item pairs s k ↔ item k i = s k ∧ (s k).isSome := by
  rw [SlotOf, h]

theorem SlotOf.has {pairs : List (Key × Item)} {s : t.Slots} {k : κ} (h : SlotOf item pairs s k) :
    HasKey pairs (BodyKey.number k) ↔ (s k).isSome := by
  unfold SlotOf at h
  cases hvalue : valueAt pairs (BodyKey.number k) with
  | none =>
    rw [hvalue] at h
    rw [h]
    exact iff_of_false (valueAt_none.mp hvalue) (by simp)
  | some i =>
    rw [hvalue] at h
    obtain ⟨key, hkey, hmem⟩ := valueAt_mem hvalue
    exact iff_of_true ⟨_, hmem, hkey⟩ h.2

end

theorem fold_slots {pairs : List (Key × Item)} (hfresh : (ranks pairs).Nodup) (s : t.Slots) :
    foldPairs (take item) pairs t.none = some s ↔ Keyed pairs ∧ ∀ k, SlotOf item pairs s k := by
  rw [fold_lookup hfresh]
  apply and_congr_right
  intro _
  apply forall_congr'
  intro k
  unfold SlotRead SlotOf
  cases valueAt pairs (BodyKey.number k) with
  | none => exact Iff.rfl
  | some i => exact and_iff_right rfl

end Table

end Km43.Cbor
