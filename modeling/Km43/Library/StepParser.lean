import Mathlib.Tactic

namespace Km43.Library.StepParser

variable {β α κ : Type}

/-- A step takes one value off the front of its input, or refuses. -/
abbrev Step (β α : Type) := List β → Option (α × List β)

/-- The step reads exactly the spellings `enc x` of the values with `P x`. -/
def Exact (enc : α → List β) (P : α → Prop) (p : Step β α) : Prop :=
  ∀ bs x rest, p bs = some (x, rest) ↔ P x ∧ bs = enc x ++ rest

theorem Exact.read {enc : α → List β} {P : α → Prop} {p : Step β α} (h : Exact enc P p)
    {x : α} (hx : P x) (rest : List β) : p (enc x ++ rest) = some (x, rest) :=
  (h _ _ _).mpr ⟨hx, rfl⟩

theorem Exact.prefix_free {enc : α → List β} {P : α → Prop} {p : Step β α} (h : Exact enc P p)
    {x y : α} {r s : List β} (hx : P x) (hy : P y) (he : enc x ++ r = enc y ++ s) :
    x = y ∧ r = s := by
  have hxr := h.read hx r
  rw [he, h.read hy s] at hxr
  simp only [Option.some.injEq, Prod.mk.injEq] at hxr
  exact ⟨hxr.1.symm, hxr.2.symm⟩

theorem Exact.inj {enc : α → List β} {P : α → Prop} {p : Step β α} (h : Exact enc P p)
    {x y : α} (hx : P x) (hy : P y) (he : enc x = enc y) : x = y :=
  (h.prefix_free (r := []) (s := []) hx hy (by rw [he])).1

def pair {γ : Type} (p : Step β α) (q : Step β γ) : Step β (α × γ) := fun bs =>
  match p bs with
  | none => none
  | some (x, bs) =>
    match q bs with
    | none => none
    | some (y, bs) => some ((x, y), bs)

theorem pair_exact {γ : Type} {enc : α → List β} {P : α → Prop} {p : Step β α} {enc' : γ → List β}
    {Q : γ → Prop} {q : Step β γ} (hp : Exact enc P p) (hq : Exact enc' Q q) :
    Exact (fun z : α × γ => enc z.1 ++ enc' z.2) (fun z => P z.1 ∧ Q z.2) (pair p q) := by
  intro bs ⟨x, y⟩ rest
  constructor
  · intro h
    simp only [pair] at h
    split at h
    · cases h
    · rename_i x' bs' hx
      split at h
      · cases h
      · rename_i y' bs'' hy
        simp only [Option.some.injEq, Prod.mk.injEq] at h
        obtain ⟨⟨rfl, rfl⟩, rfl⟩ := h
        obtain ⟨hP, rfl⟩ := (hp _ _ _).mp hx
        obtain ⟨hQ, rfl⟩ := (hq _ _ _).mp hy
        exact ⟨⟨hP, hQ⟩, by simp⟩
  · rintro ⟨⟨hx, hy⟩, rfl⟩
    simp only [pair, List.append_assoc, hp.read hx, hq.read hy]

def many (p : Step β α) : ℕ → Step β (List α)
  | 0, bs => some ([], bs)
  | n + 1, bs =>
    match p bs with
    | none => none
    | some (x, bs) =>
      match many p n bs with
      | none => none
      | some (xs, bs) => some (x :: xs, bs)

theorem many_exact {enc : α → List β} {P : α → Prop} {p : Step β α} (h : Exact enc P p) (n : ℕ) :
    Exact (fun xs : List α => xs.flatMap enc) (fun xs => xs.length = n ∧ ∀ x ∈ xs, P x)
      (many p n) := by
  induction n with
  | zero =>
    intro bs xs rest
    simp only [many, Option.some.injEq, Prod.mk.injEq, List.length_eq_zero_iff]
    constructor
    · rintro ⟨rfl, rfl⟩; simp
    · rintro ⟨⟨rfl, -⟩, rfl⟩; simp
  | succ n ih =>
    intro bs xs rest
    constructor
    · intro hm
      simp only [many] at hm
      split at hm
      · cases hm
      · rename_i x bs' hp
        split at hm
        · cases hm
        · rename_i xs' bs'' hq
          simp only [Option.some.injEq, Prod.mk.injEq] at hm
          obtain ⟨rfl, rfl⟩ := hm
          obtain ⟨hx, rfl⟩ := (h _ _ _).mp hp
          obtain ⟨⟨hl, hxs⟩, rfl⟩ := (ih _ _ _).mp hq
          refine ⟨⟨by simp [hl], ?_⟩, by simp⟩
          simpa using ⟨hx, hxs⟩
    · rintro ⟨⟨hl, hP⟩, rfl⟩
      cases xs with
      | nil => simp at hl
      | cons x xs =>
        have hx := hP x (by simp)
        have hxs := (ih (xs.flatMap enc ++ rest) xs rest).mpr
          ⟨⟨by simpa using hl, fun y hy => hP y (by simp [hy])⟩, rfl⟩
        simp only [many, List.flatMap_cons, List.append_assoc, h.read hx, hxs]

def manyFresh [DecidableEq κ] (key : α → κ) (p : Step β α) : List κ → ℕ → Step β (List α)
  | _, 0, bs => some ([], bs)
  | seen, n + 1, bs =>
    match p bs with
    | none => none
    | some (x, bs) =>
      if key x ∈ seen then none
      else match manyFresh key p (key x :: seen) n bs with
        | none => none
        | some (xs, bs) => some (x :: xs, bs)

theorem manyFresh_exact [DecidableEq κ] {enc : α → List β} {P : α → Prop} {p : Step β α}
    (key : α → κ) (h : Exact enc P p) (seen : List κ) (n : ℕ) :
    Exact (fun xs : List α => xs.flatMap enc)
      (fun xs => xs.length = n ∧ (∀ x ∈ xs, P x) ∧ (xs.map key).Nodup ∧ ∀ x ∈ xs, key x ∉ seen)
      (manyFresh key p seen n) := by
  induction n generalizing seen with
  | zero =>
    intro bs xs rest
    simp only [manyFresh, Option.some.injEq, Prod.mk.injEq, List.length_eq_zero_iff]
    constructor
    · rintro ⟨rfl, rfl⟩; simp
    · rintro ⟨⟨rfl, -⟩, rfl⟩; simp
  | succ n ih =>
    intro bs xs rest
    constructor
    · intro hm
      simp only [manyFresh] at hm
      split at hm
      · cases hm
      · rename_i x bs' hp
        split_ifs at hm with hs
        split at hm
        · cases hm
        · rename_i xs' bs'' hq
          simp only [Option.some.injEq, Prod.mk.injEq] at hm
          obtain ⟨rfl, rfl⟩ := hm
          obtain ⟨hx, rfl⟩ := (h _ _ _).mp hp
          obtain ⟨⟨hl, hxs, hn, hf⟩, rfl⟩ := (ih _ _ _ _).mp hq
          simp only [List.mem_cons, not_or] at hf
          refine ⟨⟨by simp [hl], ?_, ?_, ?_⟩, by simp⟩
          · simpa using ⟨hx, hxs⟩
          · simp only [List.map_cons, List.nodup_cons, List.mem_map, not_exists, not_and]
            exact ⟨fun y hy => (hf y hy).1, hn⟩
          · simpa using ⟨hs, fun y hy => (hf y hy).2⟩
    · rintro ⟨⟨hl, hP, hn, hf⟩, rfl⟩
      cases xs with
      | nil => simp at hl
      | cons x xs =>
        simp only [List.map_cons, List.nodup_cons, List.mem_map, not_exists, not_and] at hn
        have hx := hP x (by simp)
        have hxs := (ih (key x :: seen) (xs.flatMap enc ++ rest) xs rest).mpr
          ⟨⟨by simpa using hl, fun y hy => hP y (by simp [hy]), hn.2, fun y hy => by
            simpa using ⟨hn.1 y hy, hf y (by simp [hy])⟩⟩, rfl⟩
        simp only [manyFresh, List.flatMap_cons, List.append_assoc, h.read hx,
          if_neg (hf x (by simp)), hxs]

theorem length_le_flatMap {enc : α → List β} {k : ℕ} (hk : ∀ x, k ≤ (enc x).length)
    (xs : List α) : xs.length * k ≤ (xs.flatMap enc).length := by
  induction xs with
  | nil => simp
  | cons x xs ih =>
    have hx := hk x
    simp only [List.length_cons, List.flatMap_cons, List.length_append, Nat.add_mul, Nat.one_mul]
    omega

end Km43.Library.StepParser
