import Km43.Cbor.Entries

namespace Km43.Cbor

open Library CborReader CborWriter

section

variable {α : Type} {k c : ℕ}

theorem optionalPair_length (k : ℕ) (o : Option α) (f : α → Item) :
    (optionalPair k o f).length ≤ 1 := by
  cases o <;> simp [optionalPair]

theorem pair_length (hk : k < 24) (i : Item) :
    (Item.spellPairs [(Key.ofNat k, i)]).length = 1 + i.spelling.length := by
  have hkey : (Key.ofNat k).spelling.length = 1 := (headBytes_le .unsigned).2.2.2.2 hk
  simp [Item.spellPairs, hkey]

theorem optionalPair_spelling {β : Type} (hk : k < 24) (o : Option β) {g : β → α} {f : α → Item}
    (h : ∀ b, (f (g b)).spelling.length ≤ c) :
    (Item.spellPairs (optionalPair k (o.map g) f)).length ≤ 1 + c := by
  cases o with
  | none => simp [optionalPair, Item.spellPairs]
  | some b =>
    have hpair := pair_length hk (f (g b))
    have hle := h b
    rw [optionalPair, Option.map_some, Option.map_some, Option.toList_some]
    omega

theorem spellAll_length (items : List Item) (h : ∀ i ∈ items, i.spelling.length ≤ c) :
    (Item.spellAll items).length ≤ items.length * c := by
  induction items with
  | nil => simp [Item.spellAll]
  | cons i items ih =>
    have hi := h i (by simp)
    have hrest := ih fun j hj => h j (by simp [hj])
    rw [Item.spellAll, List.length_append, List.length_cons, Nat.succ_mul]
    omega

theorem ofNat_length_u8 (n : UInt8) : (Item.ofNat n.toNat).spelling.length ≤ 2 :=
  (headBytes_le .unsigned).2.2.2.1 (Nat.le_of_lt_succ n.toNat_lt)

theorem ofNat_length_u16 (n : UInt16) : (Item.ofNat n.toNat).spelling.length ≤ 3 :=
  (headBytes_le .unsigned).2.2.1 (Nat.le_of_lt_succ n.toNat_lt)

theorem ofNat_length_u32 (n : UInt32) : (Item.ofNat n.toNat).spelling.length ≤ 5 :=
  (headBytes_le .unsigned).2.1 (Nat.le_of_lt_succ n.toNat_lt)

theorem ofNat_length_u64 (n : UInt64) : (Item.ofNat n.toNat).spelling.length ≤ 9 :=
  (headBytes_le .unsigned).1

theorem ofNat_length_inline {n : ℕ} (h : n < 24) : (Item.ofNat n).spelling.length ≤ 1 :=
  ((headBytes_le .unsigned).2.2.2.2 h).le

theorem ofPairs_length {pairs : List (Key × Item)} (h : pairs.length < 24) :
    (Item.ofPairs pairs).spelling.length = 1 + (Item.spellPairs pairs).length := by
  rw [Item.ofPairs, Item.spelling, List.length_append, Token.spelling,
    (headBytes_le .map).2.2.2.2 h]

theorem ofItems_length {items : List Item} (h : items.length < 24) :
    (Item.ofItems items).spelling.length = 1 + (Item.spellAll items).length := by
  rw [Item.ofItems, Item.spelling, List.length_append, Token.spelling,
    (headBytes_le .array).2.2.2.2 h]

theorem ofItems_length_u8 {items : List Item} (h : items.length < 256) :
    (Item.ofItems items).spelling.length ≤ 2 + (Item.spellAll items).length := by
  have hhead := (headBytes_le .array).2.2.2.1 (Nat.le_of_lt_succ h)
  rw [Item.ofItems, Item.spelling, List.length_append, Token.spelling]
  exact Nat.add_le_add_right hhead _

theorem spellPairs_cons (p : Key × Item) (rest : List (Key × Item)) :
    Item.spellPairs (p :: rest) = Item.spellPairs [p] ++ Item.spellPairs rest :=
  Item.spellPairs_append [p] rest

theorem spellPairs_cons_length (hk : k < 24) (i : Item) (rest : List (Key × Item)) :
    (Item.spellPairs ((Key.ofNat k, i) :: rest)).length = 1 + i.spelling.length + (Item.spellPairs rest).length := by
  rw [spellPairs_cons, List.length_append, pair_length hk]

end

theorem bodyItem_length {κ : Type} [BodyKey κ] {items : List (κ × Item)} (hfew : items.length < 24)
    (hnarrow : ∀ k : κ, BodyKey.number k < 24) :
    (bodyItem items).spelling.length = 1 + (items.map fun e => 1 + e.2.spelling.length).sum := by
  rw [bodyItem, ofPairs_length (by rwa [keyedPairs, List.length_map])]
  congr 1
  clear hfew
  induction items with
  | nil => rfl
  | cons e items ih =>
    rw [keyedPairs, List.map_cons, spellPairs_cons, List.length_append, pair_length (hnarrow e.1), List.map_cons,
      List.sum_cons, ← ih]
    rfl

def u64Of (i : Item) : Option UInt64 := (i.leaf?.bind fun h => (headNumber h).toOption).map UInt64.ofNat

theorem word_reads {ε : Type} [FromCbor ε] {d : ℕ} :
    Reads (fun _ => True) d (UInt64.ofNat <$> ask u64 : Read ε UInt64) u64Of := by
  have hraw : Reads (fun _ => True) d (ask u64 : Read ε ℕ) _ := .u64 fun _ => trivial
  have h := hraw.mapped UInt64.ofNat
  rwa [← map_eq_pure_bind] at h

theorem u64Of_ofNat (n : UInt64) : u64Of (.ofNat n.toNat) = some n := by
  change some (UInt64.ofNat n.toNat) = some n
  rw [UInt64.ofNat_toNat]

theorem slotRequired_ok {ε α : Type} {missing : ε} {slot : Option α} {value : α} :
    slotRequired missing slot = .ok value ↔ slot = some value := by
  cases slot with
  | none => simp [slotRequired]
  | some v => simp [slotRequired]

theorem arm_some {κ : Type} {c : Prop} [Decidable c] {a k : κ} {rest : Option κ}
    (h : (if c then some a else rest) = some k) : (c ∧ a = k) ∨ rest = some k := by
  split_ifs at h with hc
  · exact .inl ⟨hc, Option.some.inj h⟩
  · exact .inr h

section

variable {κ α : Type} {all : List κ}

def cells (all : List κ) (f : κ → Option α) : List (κ × α) := all.filterMap fun k => (f k).map fun a => (k, a)

theorem cells_mem {f : κ → Option α} {e : κ × α} : e ∈ cells all f ↔ e.1 ∈ all ∧ f e.1 = some e.2 := by
  obtain ⟨k, a⟩ := e
  simp only [cells, List.mem_filterMap, Option.map_eq_some_iff, Prod.mk.injEq]
  constructor
  · rintro ⟨j, hj, b, hb, rfl, rfl⟩
    exact ⟨hj, hb⟩
  · rintro ⟨hk, ha⟩
    exact ⟨k, hk, a, ha, rfl, rfl⟩

theorem cells_length_le (f : κ → Option α) : (cells all f).length ≤ all.length := List.length_filterMap_le _ _

theorem cells_spelled {d : ℕ} {g : κ → Option (List Call)} {f : κ → Option Item}
    (h : ∀ k, Option.Rel (fun calls i => Writes d (writeAll calls) i) (g k) (f k)) (all : List κ) :
    Spelled d (cells all g) (cells all f) := by
  induction all with
  | nil => exact .nil
  | cons k all ih =>
    have hk := h k
    unfold cells
    rw [List.filterMap_cons, List.filterMap_cons]
    cases hg : g k with
    | none =>
      cases hf : f k with
      | none => exact ih
      | some i =>
        rw [hg, hf] at hk
        cases hk
    | some calls =>
      cases hf : f k with
      | none =>
        rw [hg, hf] at hk
        cases hk
      | some i =>
        rw [hg, hf] at hk
        cases hk with
        | some hwrites => exact .cons ⟨rfl, hwrites⟩ ih

variable [BodyKey κ]

/-- A body's keys, each of them once and in the order they are written. -/
structure InOrder (all : List κ) : Prop where
  rising : all.Pairwise fun j k => BodyKey.number j < BodyKey.number k
  complete : ∀ k, k ∈ all

theorem cells_rising (h : InOrder all) (f : κ → Option Item) : Rising (cells all f) := by
  refine h.rising.filterMap _ ?_
  intro j k hjk e he e' he'
  obtain ⟨i, -, rfl⟩ := Option.map_eq_some_iff.mp he
  obtain ⟨i', -, rfl⟩ := Option.map_eq_some_iff.mp he'
  exact hjk

theorem cells_length {f : κ → Option Item} {width : κ → ℕ} (hall : all.length < 24)
    (hnarrow : ∀ k : κ, BodyKey.number k < 24)
    (h : ∀ k i, f k = some i → 1 + i.spelling.length ≤ width k) :
    (bodyItem (cells all f)).spelling.length ≤ 1 + (all.map width).sum := by
  rw [bodyItem_length ((cells_length_le f).trans_lt hall) hnarrow]
  apply Nat.add_le_add_left
  clear hall
  induction all with
  | nil => exact le_rfl
  | cons k all ih =>
    unfold cells at ih ⊢
    rw [List.filterMap_cons, List.map_cons, List.sum_cons]
    cases hf : f k with
    | none => exact ih.trans (Nat.le_add_left _ _)
    | some i => exact Nat.add_le_add (h k i hf) ih

end

namespace Table

variable {ε κ : Type} [DecidableEq κ] [BodyKey κ] {t : Table ε κ} {item : ∀ k, Item → Option (t.Value k)}

def CellOf (item : ∀ k, Item → Option (t.Value k)) (f : κ → Option Item) (s : t.Slots) (k : κ) : Prop :=
  match f k with
  | .none => s k = .none
  | some i => item k i = s k ∧ (s k).isSome

theorem Decodes.cells [FromCbor ε] (h : t.Decodes item) {all : List κ} (hall : InOrder all) {f : κ → Option Item}
    (hlegal : ∀ k i, f k = some i → i.Legal 7) {s : t.Slots} (hcells : ∀ k, CellOf item f s k) :
    decodeBody t.slots (bodyItem (Cbor.cells all f)).spelling = .ok s := by
  apply h.entries (cells_rising hall f)
  · intro e he
    exact hlegal e.1 e.2 (cells_mem.mp he).2
  · intro e he
    have hcell := hcells e.1
    rw [CellOf, (cells_mem.mp he).2] at hcell
    exact hcell
  · intro k hk
    have hcell := hcells k
    cases hf : f k with
    | none =>
      rw [CellOf, hf] at hcell
      exact hcell
    | some i => exact absurd (List.mem_map.mpr ⟨(k, i), cells_mem.mpr ⟨hall.complete k, hf⟩, rfl⟩) hk

end Table

end Km43.Cbor
