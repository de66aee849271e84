import Km43.Cbor.Token

namespace Km43.Cbor

open Library.StepParser

structure Key where
  negative : Bool
  width : Width
  argument : ℕ
  deriving DecidableEq

namespace Key

def rank (k : Key) : KeyRank := ⟨k.negative, k.argument⟩

def token (k : Key) : Token :=
  if k.negative then .negative k.width k.argument else .unsigned k.width k.argument

def spelling (k : Key) : Bytes := k.token.spelling

def Legal (k : Key) : Prop := k.width.Holds k.argument

def value (k : Key) : ℤ := if k.negative then -1 - k.argument else k.argument

end Key

inductive Item
  | unsigned (w : Width) (n : ℕ)
  | negative (w : Width) (n : ℕ)
  | bytes (w : Width) (raw : Bytes)
  | text (w : Width) (raw : Bytes)
  | array (w : Width) (items : List Item)
  | map (w : Width) (pairs : List (Key × Item))
  | bool (value : Bool)

namespace Item

mutual
def spelling : Item → Bytes
  | unsigned w n => (Token.unsigned w n).spelling
  | negative w n => (Token.negative w n).spelling
  | bytes w raw => (Token.bytes w raw).spelling
  | text w raw => (Token.text w raw).spelling
  | array w items => (Token.array w items.length).spelling ++ spellAll items
  | map w pairs => (Token.map w pairs.length).spelling ++ spellPairs pairs
  | bool value => (Token.bool value).spelling
def spellAll : List Item → Bytes
  | [] => []
  | i :: rest => i.spelling ++ spellAll rest
def spellPairs : List (Key × Item) → Bytes
  | [] => []
  | (k, v) :: rest => k.spelling ++ v.spelling ++ spellPairs rest
end

mutual
def depth : Item → ℕ
  | unsigned .. | negative .. | bytes .. | text .. | bool _ => 0
  | array _ items => depthAll items + 1
  | map _ pairs => depthPairs pairs + 1
def depthAll : List Item → ℕ
  | [] => 0
  | i :: rest => max i.depth (depthAll rest)
def depthPairs : List (Key × Item) → ℕ
  | [] => 0
  | (_, v) :: rest => max v.depth (depthPairs rest)
end

/-- The protocol's grammar, with containers nested at most `d` deep: every argument fits the
width it is written in, texts are short UTF-8, and no map repeats a key. -/
def Legal : ℕ → Item → Prop
  | _, unsigned w n | _, negative w n => w.Holds n
  | _, bytes w raw => w.Holds raw.length
  | _, text w raw => w.Holds raw.length ∧ raw.length ≤ maxString ∧ isUtf8 raw = true
  | _, bool _ => True
  | 0, array .. | 0, map .. => False
  | d + 1, array w items => w.Holds items.length ∧ ∀ i ∈ items, Legal d i
  | d + 1, map w pairs => w.Holds pairs.length ∧ (pairs.map fun p => p.1.rank).Nodup ∧
      ∀ p ∈ pairs, p.1.Legal ∧ Legal d p.2

theorem spellAll_eq (items : List Item) : spellAll items = items.flatMap spelling := by
  induction items with
  | nil => rfl
  | cons i items ih => simp [spellAll, ih]

theorem spellPairs_eq (pairs : List (Key × Item)) :
    spellPairs pairs = pairs.flatMap fun p => p.1.spelling ++ p.2.spelling := by
  induction pairs with
  | nil => rfl
  | cons p pairs ih => simp [spellPairs, ih]

theorem spellPairs_append (ps qs : List (Key × Item)) :
    spellPairs (ps ++ qs) = spellPairs ps ++ spellPairs qs := by simp [spellPairs_eq]

theorem Legal.mono {d e : ℕ} (hde : d ≤ e) {i : Item} (h : i.Legal d) : i.Legal e := by
  induction e generalizing d i with
  | zero => obtain rfl := Nat.le_zero.mp hde; exact h
  | succ e ih =>
    cases d with
    | zero => cases i <;> first | exact h | exact absurd h (by simp [Legal])
    | succ d =>
      have hde' : d ≤ e := Nat.le_of_succ_le_succ hde
      cases i with
      | array w items => exact ⟨h.1, fun i hi => ih hde' (h.2 i hi)⟩
      | map w pairs =>
        exact ⟨h.1, h.2.1, fun p hp => ⟨(h.2.2 p hp).1, ih hde' (h.2.2 p hp).2⟩⟩
      | unsigned | negative | bytes | text | bool => exact h

theorem depth_le_all {i : Item} {items : List Item} (h : i ∈ items) : i.depth ≤ depthAll items := by
  induction items with
  | nil => cases h
  | cons j items ih =>
    rcases List.mem_cons.mp h with rfl | h
    · exact le_max_left _ _
    · exact (ih h).trans (le_max_right _ _)

theorem depth_le_pairs {p : Key × Item} {pairs : List (Key × Item)} (h : p ∈ pairs) :
    p.2.depth ≤ depthPairs pairs := by
  induction pairs with
  | nil => cases h
  | cons q pairs ih =>
    rcases List.mem_cons.mp h with rfl | h
    · exact le_max_left _ _
    · exact (ih h).trans (le_max_right _ _)

theorem Legal.of_depth {d e : ℕ} {i : Item} (h : i.Legal e) (hd : i.depth ≤ d) : i.Legal d := by
  induction e generalizing d i with
  | zero => exact h.mono (Nat.zero_le d)
  | succ e ih =>
    cases d with
    | zero =>
      cases i with
      | array w items | map w pairs => simp [depth] at hd
      | unsigned | negative | bytes | text | bool => exact h
    | succ d =>
      cases i with
      | array w items =>
        have hitems := Nat.le_of_succ_le_succ hd
        exact ⟨h.1, fun i hi => ih (h.2 i hi) ((depth_le_all hi).trans hitems)⟩
      | map w pairs =>
        have hpairs := Nat.le_of_succ_le_succ hd
        exact ⟨h.1, h.2.1, fun p hp =>
          ⟨(h.2.2 p hp).1, ih (h.2.2 p hp).2 ((depth_le_pairs hp).trans hpairs)⟩⟩
      | unsigned | negative | bytes | text | bool => exact h

end Item

def keyStep : Step UInt8 Key := fun bs =>
  match tokenStep bs with
  | some (.unsigned w n, rest) => some (⟨false, w, n⟩, rest)
  | some (.negative w n, rest) => some (⟨true, w, n⟩, rest)
  | _ => none

def pairsStep (inner : Step UInt8 Item) (seen : List KeyRank) (n : ℕ) :
    Step UInt8 (List (Key × Item)) :=
  manyFresh (fun p => p.1.rank) (pair keyStep inner) seen n

/-- One item, its containers' contents read by `inner` where there is a level left for them. -/
def itemWith (inner : Option (Step UInt8 Item)) : Step UInt8 Item := fun bs =>
  match tokenStep bs with
  | none => none
  | some (.unsigned w n, rest) => some (.unsigned w n, rest)
  | some (.negative w n, rest) => some (.negative w n, rest)
  | some (.bytes w raw, rest) => some (.bytes w raw, rest)
  | some (.text w raw, rest) => some (.text w raw, rest)
  | some (.bool value, rest) => some (.bool value, rest)
  | some (.array w n, rest) => inner.bind fun inner =>
      (many inner n rest).map fun p => (.array w p.1, p.2)
  | some (.map w n, rest) => inner.bind fun inner =>
      (pairsStep inner [] n rest).map fun p => (.map w p.1, p.2)

def itemStep : ℕ → Step UInt8 Item
  | 0 => itemWith none
  | d + 1 => itemWith (some (itemStep d))

theorem Key.token_legal {k : Key} : k.token.Legal ↔ k.Legal := by
  unfold Key.token
  split <;> rfl

theorem keyStep_exact : Exact Key.spelling Key.Legal keyStep := by
  intro bs k rest
  constructor
  · intro h
    unfold keyStep at h
    split at h
    · rename_i ht
      simp only [Option.some.injEq, Prod.mk.injEq] at h
      obtain ⟨rfl, rfl⟩ := h
      exact (tokenStep_exact _ _ _).mp ht
    · rename_i ht
      simp only [Option.some.injEq, Prod.mk.injEq] at h
      obtain ⟨rfl, rfl⟩ := h
      exact (tokenStep_exact _ _ _).mp ht
    · cases h
  · rintro ⟨hk, rfl⟩
    have ht := tokenStep_exact.read (Key.token_legal.mpr hk) rest
    obtain ⟨_ | _, w, n⟩ := k <;> simp_all [keyStep, Key.spelling, Key.token]

theorem itemWith_leaf (inner : Option (Step UInt8 Item)) {d : ℕ} {i : Item} (hi : i.Legal d)
    (hd : i.depth = 0) (rest : Bytes) : itemWith inner (i.spelling ++ rest) = some (i, rest) := by
  have ht (t : Token) (ht : t.Legal) := tokenStep_exact.read ht rest
  cases i with
  | unsigned w n => simp only [itemWith, Item.spelling, ht (.unsigned w n) (by cases d <;> exact hi)]
  | negative w n => simp only [itemWith, Item.spelling, ht (.negative w n) (by cases d <;> exact hi)]
  | bytes w raw => simp only [itemWith, Item.spelling, ht (.bytes w raw) (by cases d <;> exact hi)]
  | text w raw => simp only [itemWith, Item.spelling, ht (.text w raw) (by cases d <;> exact hi)]
  | bool value => simp only [itemWith, Item.spelling, ht (.bool value) trivial]
  | array w items | map w pairs => simp [Item.depth] at hd

theorem itemStep_exact (d : ℕ) : Exact Item.spelling (Item.Legal d) (itemStep d) := by
  induction d with
  | zero =>
    intro bs i rest
    constructor
    · intro h
      simp only [itemStep, itemWith] at h
      split at h <;> simp only [Option.bind_none, reduceCtorEq, Option.some.injEq,
        Prod.mk.injEq] at h
      all_goals
        rename_i ht
        obtain ⟨rfl, rfl⟩ := h
        exact (tokenStep_exact _ _ _).mp ht
    · rintro ⟨hi, rfl⟩
      cases i with
      | array w items | map w pairs => exact hi.elim
      | unsigned | negative | bytes | text | bool => exact itemWith_leaf _ hi rfl rest
  | succ d ih =>
    intro bs i rest
    constructor
    · intro h
      simp only [itemStep, itemWith] at h
      split at h
      · cases h
      iterate 5
        · rename_i ht
          simp only [Option.some.injEq, Prod.mk.injEq] at h
          obtain ⟨rfl, rfl⟩ := h
          exact (tokenStep_exact _ _ _).mp ht
      · rename_i w n tail ht
        simp only [Option.bind_some, Option.map_eq_some_iff, Prod.exists, Prod.mk.injEq] at h
        obtain ⟨items, tail', hm, rfl, rfl⟩ := h
        obtain ⟨hw, rfl⟩ := (tokenStep_exact _ _ _).mp ht
        obtain ⟨⟨rfl, hl⟩, rfl⟩ := (many_exact ih n _ _ _).mp hm
        exact ⟨⟨hw, hl⟩, by simp [Item.spelling, Item.spellAll_eq]⟩
      · rename_i w n tail ht
        simp only [Option.bind_some, Option.map_eq_some_iff, Prod.exists, Prod.mk.injEq] at h
        obtain ⟨pairs, tail', hm, rfl, rfl⟩ := h
        obtain ⟨hw, rfl⟩ := (tokenStep_exact _ _ _).mp ht
        obtain ⟨⟨rfl, hl, hn, -⟩, rfl⟩ :=
          (manyFresh_exact _ (pair_exact keyStep_exact ih) [] n _ _ _).mp hm
        exact ⟨⟨hw, hn, hl⟩, by simp [Item.spelling, Item.spellPairs_eq]⟩
    · rintro ⟨hi, rfl⟩
      cases i with
      | array w items =>
        have hm := (many_exact ih items.length).read (x := items) ⟨rfl, hi.2⟩ rest
        simp only [itemStep, itemWith, Item.spelling, Item.spellAll_eq, List.append_assoc,
          tokenStep_exact.read (x := .array w items.length) hi.1, Option.bind_some, hm,
          Option.map_some]
      | map w pairs =>
        have hm := (manyFresh_exact (fun p : Key × Item => p.1.rank) (pair_exact keyStep_exact ih)
          [] pairs.length).read (x := pairs) ⟨rfl, hi.2.2, hi.2.1, by simp⟩ rest
        simp only [itemStep, itemWith, Item.spelling, Item.spellPairs_eq, List.append_assoc,
          tokenStep_exact.read (x := .map w pairs.length) hi.1, Option.bind_some, pairsStep, hm,
          Option.map_some]
      | unsigned | negative | bytes | text | bool => exact itemWith_leaf _ hi rfl rest

end Km43.Cbor
