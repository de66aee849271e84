import Km43.Cbor.MapRule
import Km43.Cbor.Whole

namespace Km43.Cbor

open Library Library.StepParser CborReader

class BodyKey (κ : Type) where
  of : ℤ → Option κ
  number : κ → ℕ
  of_iff : ∀ n k, of n = some k ↔ n = number k
  small : ∀ k, number k < 256

/-- The arms of a body's `match`: how each key's value is read, and what a second one is refused with. -/
structure Table (ε κ : Type) where
  Value : κ → Type
  read : ∀ k, Read ε (Value k)
  twice : κ → ε

def checkedRead {ε α β : Type} (read : Read ε α) (check : α → Except ε β) : Read ε β := do
  let a ← read
  check a

def checkedItem {ε α β : Type} (f : Item → Option α) (check : α → Except ε β) (i : Item) : Option β :=
  (f i).bind fun a => (check a).toOption

theorem checkedRead_reads {ε α β : Type} {d : ℕ} {read : Read ε α} {f : Item → Option α}
    (h : Reads (fun _ => True) d read f) (check : α → Except ε β) :
    Reads (fun _ => True) d (checkedRead read check) (checkedItem f check) := h.checked check fun _ _ _ => trivial

theorem checkedItem_ok {ε α β : Type} {f : Item → Option α} {check : α → Except ε β} {i : Item} {a : α} {b : β}
    (hf : f i = some a) (hcheck : check a = .ok b) : checkedItem f check i = some b := by
  rw [checkedItem, hf, Option.bind_some, hcheck]
  rfl

namespace Table

variable {ε κ : Type} [DecidableEq κ] [BodyKey κ] (t : Table ε κ)

abbrev Slots : Type := ∀ k, Option (t.Value k)

def none : t.Slots := fun _ => .none

section

variable [FromCbor ε]

def step (n : ℤ) (s : t.Slots) : Read ε t.Slots :=
  match BodyKey.of (κ := κ) n with
  | some k => slotField (t.read k) (t.twice k) (s k) (Function.update s k)
  | .none => passOver s

def pairs (n : ℕ) : Read ε t.Slots := pairLoop t.step n t.none

def slots : Read ε t.Slots := do
  let n ← ask map
  t.pairs n

def decode {β : Type} (judge : t.Slots → Except ε β) (body : Bytes) : Except ε β := do
  let s ← decodeBody t.slots body
  judge s

end

def Known (_ : Table ε κ) (n : ℤ) : Prop := ∃ k : κ, n = BodyKey.number k

def Filled (s : t.Slots) (n : ℤ) : Prop := ∃ k : κ, n = BodyKey.number k ∧ (s k).isSome

omit [DecidableEq κ] in
theorem number_inj {j k : κ} (h : (BodyKey.number j : ℤ) = BodyKey.number k) : j = k := by
  have hj := (BodyKey.of_iff (BodyKey.number j : ℤ) j).mpr rfl
  rw [h, (BodyKey.of_iff (BodyKey.number k : ℤ) k).mpr rfl] at hj
  exact (Option.some.inj hj).symm

variable {t}

theorem filled_number {s : t.Slots} {k : κ} : t.Filled s (BodyKey.number k) ↔ (s k).isSome := by
  constructor
  · rintro ⟨j, hj, hs⟩
    obtain rfl := number_inj hj
    exact hs
  · intro hs
    exact ⟨k, rfl, hs⟩

def take (item : ∀ k, Item → Option (t.Value k)) (n : ℤ) (s : t.Slots) (i : Item) : Option t.Slots :=
  match BodyKey.of (κ := κ) n with
  | some k => slotted (item k i) (s k) (Function.update s k)
  | .none => some s

variable {item : ∀ k, Item → Option (t.Value k)}

theorem take_known (k : κ) (s : t.Slots) (i : Item) :
    take item (BodyKey.number k) s i = slotted (item k i) (s k) (Function.update s k) := by
  rw [take, (BodyKey.of_iff _ _).mpr rfl]

theorem take_unknown (n : ℤ) (s : t.Slots) (i : Item) (hn : ¬t.Known n) : take item n s i = some s := by
  unfold take
  cases h : BodyKey.of (κ := κ) n with
  | none => rfl
  | some k => exact absurd ⟨k, (BodyKey.of_iff _ _).mp h⟩ hn

theorem fills : Fills (take item) t.Known t.Filled fun _ s => s := by
  refine ⟨?_, take_unknown, fun _ _ _ _ _ => Iff.rfl⟩
  rintro n s i s' ⟨k, rfl⟩ h
  rw [take_known] at h
  obtain ⟨hempty, v, -, rfl⟩ := slotted_some.mp h
  constructor
  · rw [filled_number, hempty]
    simp
  · rintro j ⟨k', rfl⟩
    rw [filled_number, filled_number]
    by_cases hk : k' = k
    · subst hk
      simp
    · have hne : (BodyKey.number k' : ℤ) ≠ BodyKey.number k := fun h => hk (number_inj h)
      simp only [Function.update_of_ne hk, hne, or_false]

theorem any_order : AnyOrder (take item) := by
  intro n m hnm s v w
  cases hn : BodyKey.of (κ := κ) n with
  | none => simp [take, hn]
  | some k =>
    cases hm : BodyKey.of (κ := κ) m with
    | none => simp [take, hm]
    | some j =>
      obtain rfl := (BodyKey.of_iff _ _).mp hn
      obtain rfl := (BodyKey.of_iff _ _).mp hm
      have hkj : k ≠ j := by
        rintro rfl
        exact hnm rfl
      simp only [take_known]
      cases hv : item k v with
      | none => cases hw : item j w <;> cases s j <;> simp [slotted]
      | some x =>
        cases hw : item j w with
        | none => cases s k <;> simp [slotted]
        | some y =>
          cases hsk : s k <;> cases hsj : s j <;>
            simp [slotted, hsk, hsj, hkj, hkj.symm, Function.update_comm hkj]

section

variable [FromCbor ε] {Bad : ε → Prop} {d : ℕ}

theorem steps (hreads : ∀ k, Reads Bad d (t.read k) (item k)) (htwice : ∀ k, Bad (t.twice k)) :
    Steps Bad d t.step (take item) t.Known fun _ s => s := by
  constructor
  · rintro n s ⟨k, rfl⟩
    have hstep : t.step (BodyKey.number k) s = slotField (t.read k) (t.twice k) (s k) (Function.update s k) := by
      rw [step, (BodyKey.of_iff _ _).mpr rfl]
    have htake : take item (BodyKey.number k) s = fun i => slotted (item k i) (s k) (Function.update s k) := by
      funext i
      exact take_known k s i
    rw [hstep, htake]
    exact slotField_reads (hreads k) (htwice k) (s k) _
  · intro n s hn
    unfold step
    cases h : BodyKey.of (κ := κ) n with
    | none => rfl
    | some k => exact absurd ⟨k, (BodyKey.of_iff _ _).mp h⟩ hn

omit [DecidableEq κ] [FromCbor ε] in
theorem none_filled (n : ℤ) : ¬t.Filled t.none n := by
  rintro ⟨k, -, h⟩
  cases h

theorem reads (hbad : ∀ why, Bad (FromCbor.cbor why)) (hreads : ∀ k, Reads Bad d (t.read k) (item k))
    (htwice : ∀ k, Bad (t.twice k)) :
    Reads Bad (d + 1) t.slots fun i => i.pairs?.bind fun ps => foldPairs (take item) ps t.none :=
  Reads.mapFrom hbad (steps hreads htwice) fills fun n _ => none_filled n

end

theorem fold_entries {here : List (κ × Item)} (hkeys : (here.map Prod.fst).Nodup) {s : t.Slots}
    (hvalue : ∀ e ∈ here, item e.1 e.2 = s e.1 ∧ (s e.1).isSome) (hrest : ∀ k, k ∉ here.map Prod.fst → s k = .none) :
    foldPairs (take item) (here.map fun e => (Key.ofNat (BodyKey.number e.1), e.2)) t.none = some s := by
  have hfold : ∀ (here : List (κ × Item)) (s₀ : t.Slots), (here.map Prod.fst).Nodup →
      (∀ e ∈ here, item e.1 e.2 = s e.1 ∧ (s e.1).isSome) → (∀ e ∈ here, s₀ e.1 = .none) →
      foldPairs (take item) (here.map fun e => (Key.ofNat (BodyKey.number e.1), e.2)) s₀ =
        some fun k => if k ∈ here.map Prod.fst then s k else s₀ k := by
    intro here
    induction here with
    | nil =>
      intro s₀ _ _ _
      simp [foldPairs]
    | cons e here ih =>
      intro s₀ hkeys hvalue hempty
      obtain ⟨he, hkeys⟩ := List.nodup_cons.mp hkeys
      obtain ⟨hitem, hsome⟩ := hvalue e (List.mem_cons_self ..)
      obtain ⟨v, hv⟩ := Option.isSome_iff_exists.mp hsome
      have hsmall := BodyKey.small e.1
      have htake : take item (BodyKey.number e.1) s₀ e.2 = some (Function.update s₀ e.1 (s e.1)) := by
        rw [take_known, hitem, hv, hempty e (List.mem_cons_self ..)]
        rfl
      have hrest : ∀ f ∈ here, Function.update s₀ e.1 (s e.1) f.1 = .none := by
        intro f hf
        have hne : f.1 ≠ e.1 := by
          intro h
          exact he (List.mem_map.mpr ⟨f, hf, h⟩)
        rw [Function.update_of_ne hne]
        exact hempty f (List.mem_cons_of_mem _ hf)
      rw [List.map_cons, foldPairs_cons _ (by unfold i64Max; omega), htake, Option.bind_some,
        ih _ hkeys (fun f hf => hvalue f (List.mem_cons_of_mem _ hf)) hrest]
      congr 1
      funext k
      simp only [List.map_cons, List.mem_cons]
      by_cases hk : k ∈ here.map Prod.fst
      · simp [hk]
      · by_cases hke : k = e.1
        · subst hke
          simp [hk]
        · simp [hk, hke]
  rw [hfold here t.none hkeys hvalue fun _ _ => rfl]
  congr 1
  funext k
  by_cases hk : k ∈ here.map Prod.fst
  · rw [if_pos hk]
  · rw [if_neg hk, hrest k hk]
    rfl

end Table

end Km43.Cbor
