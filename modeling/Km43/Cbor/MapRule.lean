import Km43.Cbor.Shape

namespace Km43.Cbor

open Library CborReader

variable {σ : Type}

/-- What one map has to be made of: the type of each key, which keys have to be there, and of the values of their
type those the schema takes. -/
structure MapRule where
  typed : ℤ → Item → Prop
  enough : (ℤ → Prop) → Prop
  within : ℤ → Item → Prop

namespace MapRule

variable (rule : MapRule)

/-- A map whose every key an `i64` holds, each value of its key's type, with the keys it needs. -/
def Fits (i : Item) : Prop :=
  ∃ pairs, i.pairs? = some pairs ∧ (∀ p ∈ pairs, ∃ k, p.1.i64? = some k ∧ rule.typed k p.2) ∧
    rule.enough (HasKey pairs)

def Within (i : Item) : Prop :=
  ∃ pairs, i.pairs? = some pairs ∧ ∀ p ∈ pairs, ∀ k, p.1.i64? = some k → rule.within k p.2

end MapRule

theorem Item.pairs?_legal {d : ℕ} {i : Item} {pairs : List (Key × Item)} (hi : i.Legal d) (h : i.pairs? = some pairs) :
    (ranks pairs).Nodup ∧ ∀ p ∈ pairs, p.2.Legal (d - 1) := by
  cases i with
  | map w ps =>
    obtain rfl := Option.some.inj h
    cases d with
    | zero => exact absurd hi (by simp [Item.Legal])
    | succ d => exact ⟨hi.2.1, fun p hp => (hi.2.2 p hp).2⟩
  | unsigned | negative | bytes | text | array | bool => cases h

theorem Item.items?_legal {d : ℕ} {i : Item} {items : List Item} (hi : i.Legal d) (h : i.items? = some items) :
    ∀ j ∈ items, j.Legal (d - 1) := by
  cases i with
  | array w js =>
    obtain rfl := Option.some.inj h
    cases d with
    | zero => exact absurd hi (by simp [Item.Legal])
    | succ d => exact hi.2
  | unsigned | negative | bytes | text | map | bool => cases h

theorem foldPairs_typed {f : ℤ → σ → Item → Option σ} {known : ℤ → Prop} {filled : σ → ℤ → Prop} {pass : ℤ → σ → σ}
    (hf : Fills f known filled pass) {typed : ℤ → Item → Prop} (hfree : ∀ k i, ¬known k → typed k i)
    {pairs : List (Key × Item)}
    (htyped : ∀ p ∈ pairs, ∀ k s, known k → ¬filled s k → ((f k s p.2).isSome ↔ typed k p.2))
    (hfresh : (ranks pairs).Nodup) {s : σ}
    (hempty : ∀ p ∈ pairs, ∀ k, p.1.i64? = some k → known k → ¬filled s k) :
    (foldPairs f pairs s).isSome ↔ ∀ p ∈ pairs, ∃ k, p.1.i64? = some k ∧ typed k p.2 := by
  induction pairs generalizing s with
  | nil => simp [foldPairs]
  | cons p pairs ih =>
    obtain ⟨hp, hfresh⟩ := List.nodup_cons.mp hfresh
    have htyped' : ∀ q ∈ pairs, ∀ k s, known k → ¬filled s k → ((f k s q.2).isSome ↔ typed k q.2) := by
      intro q hq
      exact htyped q (List.mem_cons_of_mem _ hq)
    have hrest : ∀ q ∈ pairs, ∀ k, q.1.i64? = some k → known k → ¬filled s k := by
      intro q hq
      exact hempty q (List.mem_cons_of_mem _ hq)
    rw [List.forall_mem_cons]
    cases hk : p.1.i64? with
    | none => simp [foldPairs, hk]
    | some k =>
      simp only [foldPairs, hk, Option.bind_some, Option.some.injEq, exists_eq_left']
      by_cases hknown : known k
      · have hslot : ¬filled s k := hempty p (List.mem_cons_self ..) k hk hknown
        rw [← htyped p (List.mem_cons_self ..) k s hknown hslot]
        cases hs₁ : f k s p.2 with
        | none => simp
        | some s₁ =>
          have hother : ∀ q ∈ pairs, ∀ j, q.1.i64? = some j → known j → ¬filled s₁ j := by
            intro q hq j hj hjk
            rw [(hf.fills k s p.2 s₁ hknown hs₁).2 j hjk, not_or]
            refine ⟨hrest q hq j hj hjk, ?_⟩
            rintro rfl
            have hrank : q.1.rank = p.1.rank := Key.value_inj ((Key.i64?_some hj).symm.trans (Key.i64?_some hk))
            exact hp (List.mem_map.mpr ⟨q, hq, hrank⟩)
          rw [← ih htyped' hfresh hother]
          simp
      · have hother : ∀ q ∈ pairs, ∀ j, q.1.i64? = some j → known j → ¬filled (pass k s) j := by
          intro q hq j hj hjk
          rw [hf.passed k s hknown j hjk]
          exact hrest q hq j hj hjk
        rw [hf.passes k s p.2 hknown, Option.bind_some, ih htyped' hfresh hother]
        simp [hfree k p.2 hknown]

theorem foldPairs_tells {f : ℤ → σ → Item → Option σ} {I P : σ → Prop} {within : ℤ → Item → Prop}
    {pairs : List (Key × Item)}
    (hf : ∀ p ∈ pairs, ∀ k s s', f k s p.2 = some s' → I s → I s' ∧ (P s' ↔ P s ∧ within k p.2)) {s s' : σ} (hs : I s)
    (h : foldPairs f pairs s = some s') :
    I s' ∧ (P s' ↔ P s ∧ ∀ p ∈ pairs, ∀ k, p.1.i64? = some k → within k p.2) := by
  induction pairs generalizing s with
  | nil =>
    obtain rfl := Option.some.inj h
    simpa using hs
  | cons p pairs ih =>
    obtain ⟨k, hk, h⟩ := Option.bind_eq_some_iff.mp h
    obtain ⟨s₁, hs₁, h⟩ := Option.bind_eq_some_iff.mp h
    obtain ⟨hI, hP⟩ := hf p (List.mem_cons_self ..) k s s₁ hs₁ hs
    obtain ⟨hI', hP'⟩ := ih (fun q hq => hf q (List.mem_cons_of_mem _ hq)) hI h
    refine ⟨hI', ?_⟩
    rw [hP', hP, and_assoc]
    simp [hk]

theorem foldPairs_fits {f : ℤ → σ → Item → Option σ} {known : ℤ → Prop} {filled : σ → ℤ → Prop} {pass : ℤ → σ → σ}
    (hf : Fills f known filled pass) (rule : MapRule) (hfree : ∀ k i, ¬known k → rule.typed k i) {d : ℕ} {i : Item}
    (hi : i.Legal d)
    (htyped : ∀ k s j, Item.Legal (d - 1) j → known k → ¬filled s k → ((f k s j).isSome ↔ rule.typed k j)) (start : σ)
    (hempty : ∀ k, known k → ¬filled start k) (ok : σ → Prop)
    (hok : ∀ pairs s, (∀ k, known k → (filled s k ↔ HasKey pairs k)) → (ok s ↔ rule.enough (HasKey pairs))) :
    (∃ s, (i.pairs?.bind fun pairs => foldPairs f pairs start) = some s ∧ ok s) ↔ rule.Fits i := by
  unfold MapRule.Fits
  cases hp : i.pairs? with
  | none => simp
  | some pairs =>
    obtain ⟨hfresh, hlegal⟩ := Item.pairs?_legal hi hp
    have hall := foldPairs_typed hf hfree (fun p hp k s => htyped k s p.2 (hlegal p hp)) hfresh
      (s := start) fun p _ k _ hk => hempty k hk
    simp only [Option.bind_some, Option.some.injEq, exists_eq_left', ← hall]
    cases hs : foldPairs f pairs start with
    | none => simp
    | some s =>
      have hslot : ∀ k, known k → (filled s k ↔ HasKey pairs k) := by
        intro k hk
        rw [foldPairs_filled hf hs hk]
        simp [hempty k hk]
      simp [hok pairs s hslot]

theorem foldItems_isSome {f : σ → Item → Option σ} {typed : Item → Prop} {items : List Item}
    (hf : ∀ i ∈ items, ∀ s, (f s i).isSome ↔ typed i) (s : σ) :
    (foldItems f items s).isSome ↔ ∀ i ∈ items, typed i := by
  induction items generalizing s with
  | nil => simp [foldItems]
  | cons i items ih =>
    rw [List.forall_mem_cons, ← hf i (List.mem_cons_self ..) s, foldItems]
    cases f s i with
    | none => simp
    | some s₁ => simp [ih (fun j hj => hf j (List.mem_cons_of_mem _ hj)) s₁]

theorem foldItems_tells {f : σ → Item → Option σ} {P : σ → Prop} {within : Item → Prop} {count : σ → ℕ} {cap : ℕ}
    (hcount : ∀ s, count s ≤ cap)
    (hf : ∀ s i s', f s i = some s' → (count s < cap → count s' = count s + 1) ∧
      (P s' ↔ P s ∧ count s < cap ∧ within i))
    {items : List Item} {s s' : σ} (h : foldItems f items s = some s') :
    P s' ↔ P s ∧ count s + items.length ≤ cap ∧ ∀ i ∈ items, within i := by
  induction items generalizing s with
  | nil =>
    obtain rfl := Option.some.inj h
    simp [hcount s]
  | cons i items ih =>
    obtain ⟨s₁, hs₁, h⟩ := Option.bind_eq_some_iff.mp h
    obtain ⟨hnext, hP⟩ := hf s i s₁ hs₁
    rw [ih h, hP, List.forall_mem_cons, List.length_cons]
    by_cases hroom : count s < cap
    · have hlen : count s + 1 + items.length = count s + (items.length + 1) := by omega
      rw [hnext hroom, hlen]
      tauto
    · have hover : ¬count s + (items.length + 1) ≤ cap := by omega
      tauto

end Km43.Cbor
