import Km43.Library.Fallible
import Km43.Cbor.Writer
import Km43.Cbor.Item

namespace Km43.Cbor

open Library

def Key.ofNat (n : ℕ) : Key := ⟨false, Width.of n, n⟩

namespace Item

def ofNat (n : ℕ) : Item := .unsigned (Width.of n) n
def ofBytes (raw : Bytes) : Item := .bytes (Width.of raw.length) raw
def ofItems (items : List Item) : Item := .array (Width.of items.length) items
def ofPairs (pairs : List (Key × Item)) : Item := .map (Width.of pairs.length) pairs

end Item

namespace CborWriter

variable {d : ℕ}

def stack (w : CborWriter) : List Open := w.nest.settle.opened

structure Ready (d : ℕ) (w : CborWriter) : Prop where
  value : w.nest.settle.atKey = false
  levels : w.stack.length + d = maxDepth
  first : w.stack = [] → w.out = []

structure Wrote (w w' : CborWriter) (data : Bytes) (stack : List Open) : Prop where
  out : w'.out = w.out ++ data
  capacity : w'.capacity = w.capacity
  stack : w'.stack = stack

def Fits (w : CborWriter) (data : Bytes) : Prop := w.out.length + data.length ≤ w.capacity

def Writes (d : ℕ) (m : Write Unit) (i : Item) : Prop :=
  ∀ w, w.Ready d → w.Fits i.spelling →
    ∃ w', m w = .ok ((), w') ∧ Wrote w w' i.spelling w.nest.settle.countItem.settle.opened

theorem openItem_ok {w : CborWriter} (h : w.Ready d) :
    openItem w = .ok ((), { w with nest := w.nest.settle }) := by
  have hfirst : ¬(w.nest.settle.depth = 0 ∧ w.out.length ≠ 0) := by
    rintro ⟨hd, ho⟩
    exact ho (by simp [h.first (List.length_eq_zero_iff.mp hd)])
  simp only [openItem, h.value, Bool.false_eq_true, if_false, if_neg hfirst]

theorem emit_ok (w : CborWriter) {data : Bytes} (h : w.Fits data) :
    emit data w = .ok ((), { w with out := w.out ++ data }) := if_neg (Nat.not_lt.mpr h)

theorem head_ok (w : CborWriter) (major : Major) (argument : ℕ) (data : Bytes)
    (h : w.Fits (headBytes major (Width.of argument) argument ++ data)) :
    head major argument data.length w =
      .ok ((), { w with out := w.out ++ headBytes major (Width.of argument) argument }) := by
  unfold Fits at h
  rw [List.length_append] at h
  simp only [head]
  rw [if_neg (by omega)]
  apply emit_ok
  unfold Fits
  omega

theorem writes_head {i : Item} {major : Major} {argument : ℕ}
    (hi : i.spelling = headBytes major (Width.of argument) argument) :
    Writes d (do openItem; head major argument 0; countItem) i := by
  intro w hw hfits
  rw [hi] at hfits ⊢
  refine ⟨{ w with out := w.out ++ headBytes major (Width.of argument) argument,
                   nest := w.nest.settle.countItem }, ?_, rfl, rfl, rfl⟩
  have hhead := head_ok { w with nest := w.nest.settle } major argument [] (by simpa [Fits] using hfits)
  rw [List.length_nil] at hhead
  simp only [bind_apply, openItem_ok hw, hhead, countItem]

theorem writes_u64 (n : ℕ) : Writes d (u64 n) (.ofNat n) := writes_head rfl

theorem writes_bool (b : Bool) : Writes d (bool b) (.bool b) := by
  refine writes_head ?_
  cases b <;> rfl

theorem writes_data {i : Item} {major : Major} {raw : Bytes}
    (hi : i.spelling = headBytes major (Width.of raw.length) raw.length ++ raw) :
    Writes d (do openItem; head major raw.length raw.length; emit raw; countItem) i := by
  intro w hw hfits
  rw [hi] at hfits ⊢
  have hhead := head_ok { w with nest := w.nest.settle } major raw.length raw hfits
  have hroom : Fits { w with
      nest := w.nest.settle
      out := w.out ++ headBytes major (Width.of raw.length) raw.length } raw := by
    simpa [Fits, Nat.add_assoc] using hfits
  have hemit := emit_ok _ hroom
  refine ⟨{ w with out := w.out ++ (headBytes major (Width.of raw.length) raw.length ++ raw),
                   nest := w.nest.settle.countItem }, ?_, rfl, rfl, rfl⟩
  simp only [bind_apply, openItem_ok hw, hhead, hemit, countItem, List.append_assoc]

theorem writes_bytes (raw : Bytes) : Writes d (bytes raw) (.ofBytes raw) := writes_data rfl

def lastKey : Option KeyRank → List (Key × Item) → Option KeyRank
  | last, [] => last
  | _, (k, _) :: rest => lastKey (some k.rank) rest

def Ascends : Option KeyRank → List (Key × Item) → Prop
  | _, [] => True
  | last, (k, _) :: rest => (∀ g, last = some g → k.rank.le g = false) ∧ Ascends (some k.rank) rest

theorem lastKey_append (last : Option KeyRank) (ps qs : List (Key × Item)) :
    lastKey last (ps ++ qs) = lastKey (lastKey last ps) qs := by
  induction ps generalizing last with
  | nil => rfl
  | cons p ps ih => exact ih _

theorem ascends_append (last : Option KeyRank) (ps qs : List (Key × Item)) :
    Ascends last (ps ++ qs) ↔ Ascends last ps ∧ Ascends (lastKey last ps) qs := by
  induction ps generalizing last with
  | nil => simp [Ascends, lastKey]
  | cons p ps ih => simp only [List.cons_append, Ascends, lastKey, ih, and_assoc]

def owing (stack : List Open) : List Open := stack.dropWhile (·.remaining == 0)

theorem owing_pos {level : Open} (h : 0 < level.remaining) (base : List Open) :
    owing (level :: base) = level :: base := List.dropWhile_cons_of_neg (by simp; omega)

theorem owing_zero {level : Open} (h : level.remaining = 0) (base : List Open) :
    owing (level :: base) = owing base := List.dropWhile_cons_of_pos (by simp [h])

theorem stack_eq (w : CborWriter) : w.stack = owing w.nest.opened := rfl

/-- The calls write the pairs, keys and values, into the map that waits for them. -/
def WritesPairs (d : ℕ) (m : Write Unit) (pairs : List (Key × Item)) : Prop :=
  ∀ (w : CborWriter) (n : ℕ) (last : Option KeyRank) (start : ℕ) (base : List Open),
    w.stack = owing (⟨.map, (n + pairs.length) * 2, last, start⟩ :: base) →
    base.length + 1 + d = maxDepth → Ascends last pairs → w.Fits (Item.spellPairs pairs) →
    ∃ w', m w = .ok ((), w') ∧ Wrote w w' (Item.spellPairs pairs)
      (owing (⟨.map, n * 2, lastKey last pairs, start⟩ :: base))

theorem WritesPairs.nil : WritesPairs d (pure ()) [] := by
  intro w n last start base hstack _ _ _
  exact ⟨w, rfl, by simp [Item.spellPairs], rfl, hstack⟩

theorem WritesPairs.append {m₁ m₂ : Write Unit} {ps qs : List (Key × Item)}
    (h₁ : WritesPairs d m₁ ps) (h₂ : WritesPairs d m₂ qs) :
    WritesPairs d (do m₁; m₂) (ps ++ qs) := by
  intro w n last start base hstack hlevels hasc hfits
  obtain ⟨hps, hqs⟩ := (ascends_append _ _ _).mp hasc
  rw [Item.spellPairs_append] at hfits ⊢
  unfold Fits at hfits
  rw [List.length_append] at hfits
  have hcount : (n + (ps ++ qs).length) * 2 = (n + qs.length + ps.length) * 2 := by
    rw [List.length_append]
    omega
  rw [hcount] at hstack
  obtain ⟨w₁, hok₁, hwrote₁⟩ := h₁ w _ last start base hstack hlevels hps (by unfold Fits; omega)
  obtain ⟨w₂, hok₂, hwrote₂⟩ := h₂ w₁ n _ start base hwrote₁.stack hlevels hqs (by
    unfold Fits
    rw [hwrote₁.out, hwrote₁.capacity, List.length_append]
    omega)
  refine ⟨w₂, by simp only [bind_apply, hok₁, hok₂], ?_, hwrote₂.capacity.trans hwrote₁.capacity, ?_⟩
  · rw [hwrote₂.out, hwrote₁.out, List.append_assoc]
  · rw [hwrote₂.stack, lastKey_append]

theorem key_ok {w : CborWriter} {n k start : ℕ} {last : Option KeyRank} {base : List Open}
    (hstack : w.stack = ⟨.map, (n + 1) * 2, last, start⟩ :: base)
    (hlast : ∀ g, last = some g → (Key.ofNat k).rank.le g = false)
    (hfits : w.Fits (Key.ofNat k).spelling) :
    key k w = .ok ((), { w with
      out := w.out ++ (Key.ofNat k).spelling
      nest := ⟨⟨.map, n * 2 + 1, some (Key.ofNat k).rank, start⟩ :: base, w.nest.deepest⟩ }) := by
  have hopened : w.nest.settle.opened = ⟨.map, (n + 1) * 2, last, start⟩ :: base := hstack
  have hat : w.nest.settle.atKey = true := by simp [Nest.atKey, hopened]
  have htake : w.nest.settle.takeKey k =
      .ok ⟨⟨.map, (n + 1) * 2, some (Key.ofNat k).rank, start⟩ :: base, w.nest.deepest⟩ := by
    rw [Nest.takeKey, hopened]
    cases last with
    | none => rfl
    | some g =>
      have hle : KeyRank.le ⟨false, k⟩ g = false := hlast g rfl
      simp only [hle]
      rfl
  have htaken : takeKey k w = .ok ((), { w with
      nest := ⟨⟨.map, (n + 1) * 2, some (Key.ofNat k).rank, start⟩ :: base, w.nest.deepest⟩ }) := by
    simp only [takeKey, hat, if_true, htake]
    rfl
  have hhead := head_ok { w with
    nest := ⟨⟨.map, (n + 1) * 2, some (Key.ofNat k).rank, start⟩ :: base, w.nest.deepest⟩ }
    .unsigned k [] (by rw [List.append_nil]; exact hfits)
  rw [List.length_nil] at hhead
  have hcount : (n + 1) * 2 - 1 = n * 2 + 1 := by omega
  have hsign : ¬(k : ℤ) < 0 := by omega
  simp only [key, if_neg hsign, Int.toNat_natCast, bind_apply, htaken, hhead, countItem,
    Nest.countItem, hcount]
  rfl

theorem WritesPairs.pair {m : Write Unit} {i : Item} (h : Writes d m i) (k : ℕ) :
    WritesPairs d (do key k; m) [(Key.ofNat k, i)] := by
  intro w n last start base hstack hlevels hasc hfits
  have hspell : Item.spellPairs [(Key.ofNat k, i)] = (Key.ofNat k).spelling ++ i.spelling := by
    simp [Item.spellPairs]
  rw [hspell] at hfits ⊢
  unfold Fits at hfits
  rw [List.length_append] at hfits
  rw [List.length_singleton, owing_pos (by simp)] at hstack
  have hkey := key_ok hstack hasc.1 (by unfold Fits; omega)
  have hready : Ready d { w with
      out := w.out ++ (Key.ofNat k).spelling
      nest := ⟨⟨.map, n * 2 + 1, some (Key.ofNat k).rank, start⟩ :: base, w.nest.deepest⟩ } := by
    refine ⟨?_, ?_, fun h => ?_⟩
    · simp only [Nest.settle]
      rw [List.dropWhile_cons_of_neg (by simp)]
      simp [Nest.atKey]
    · rw [stack_eq, owing_pos (by simp)]
      exact hlevels
    · rw [stack_eq, owing_pos (by simp)] at h
      cases h
  obtain ⟨w', hok, hwrote⟩ := h _ hready (by
    simp only [Fits, List.length_append]
    omega)
  refine ⟨w', by simp only [bind_apply, hkey, hok], ?_, hwrote.capacity, ?_⟩
  · rw [hwrote.out, List.append_assoc]
  · rw [hwrote.stack]
    simp only [Nest.settle]
    rw [List.dropWhile_cons_of_neg (by simp)]
    rfl

theorem WritesPairs.optional {α : Type} {m : α → Write Unit} {f : α → Item}
    (h : ∀ a, Writes d (m a) (f a)) (k : ℕ) (o : Option α) :
    WritesPairs d (match o with
      | some a => do key k; m a
      | none => pure ()) (o.map fun a => (Key.ofNat k, f a)).toList := by
  cases o with
  | none => exact .nil
  | some a => exact .pair (h a) k

theorem push_ok {w : CborWriter} (h : w.stack.length + (d + 1) = maxDepth) (kind : Nesting) (n : ℕ) :
    w.nest.settle.countItem.push kind n 0 = .ok ⟨⟨kind, n, none, 0⟩ :: w.nest.settle.countItem.opened,
      max w.nest.settle.countItem.deepest (w.nest.settle.countItem.depth + 1)⟩ := by
  have hlen : w.nest.settle.countItem.depth = w.stack.length := by
    simp only [Nest.countItem, Nest.depth, stack]
    split <;> simp_all
  rw [Nest.push, if_pos (by omega)]

theorem room_ok {w : CborWriter} (h : w.stack.length + (d + 1) = maxDepth) :
    room { w with nest := w.nest.settle } = .ok ((), { w with nest := w.nest.settle }) := by
  have hroom : w.nest.settle.hasRoom = true := by
    have hlen : w.nest.settle.depth + (d + 1) = maxDepth := h
    simp only [Nest.hasRoom, decide_eq_true_eq]
    omega
  simp only [room, hroom, if_true]

def inside (w : CborWriter) (head : Bytes) (kind : Nesting) (items : ℕ) : CborWriter :=
  { w with
    out := w.out ++ head
    nest := ⟨⟨kind, items, none, 0⟩ :: w.nest.settle.countItem.opened,
      max w.nest.settle.countItem.deepest (w.nest.settle.countItem.depth + 1)⟩ }

theorem open_ok {w : CborWriter} (hw : w.Ready (d + 1)) (major : Major) (n : ℕ)
    (hfits : w.Fits (headBytes major (Width.of n) n)) (kind : Nesting) (items : ℕ) :
    (do openItem; room; head major n 0; countItem; push kind items) w =
      .ok ((), w.inside (headBytes major (Width.of n) n) kind items) := by
  have hhead := head_ok { w with nest := w.nest.settle } major n [] (by simpa [Fits] using hfits)
  rw [List.length_nil] at hhead
  have hpush : push kind items { w with
      out := w.out ++ headBytes major (Width.of n) n, nest := w.nest.settle.countItem } =
      .ok ((), w.inside (headBytes major (Width.of n) n) kind items) := by
    simp only [push, push_ok hw.levels]
    rfl
  simp only [bind_apply, openItem_ok hw, room_ok hw.levels, hhead, countItem, hpush]

theorem countItem_levels {w : CborWriter} (hw : w.Ready (d + 1)) :
    w.nest.settle.countItem.opened.length + 1 + d = maxDepth := by
  have hlen : w.nest.settle.countItem.opened.length = w.stack.length := by
    simp only [Nest.countItem, stack]
    split <;> simp_all
  have := hw.levels
  omega

theorem writes_map {m : Write Unit} {pairs : List (Key × Item)} {n : ℕ} (h : WritesPairs d m pairs)
    (hn : pairs.length = n) (hasc : Ascends none pairs) :
    Writes (d + 1) (do map n; m) (.ofPairs pairs) := by
  intro w hw hfits
  have hspell : (Item.ofPairs pairs).spelling =
      headBytes .map (Width.of n) n ++ Item.spellPairs pairs := by
    rw [Item.ofPairs, Item.spelling, Token.spelling, hn]
  rw [hspell] at hfits ⊢
  unfold Fits at hfits
  rw [List.length_append] at hfits
  have hopen := open_ok hw .map n (by unfold Fits; omega) .map (n * 2)
  obtain ⟨w', hok, hwrote⟩ := h (w.inside (headBytes .map (Width.of n) n) .map (n * 2)) 0 none 0 _
    (by rw [stack_eq, Nat.zero_add, hn]; rfl) (countItem_levels hw) hasc (by
      simp only [Fits, inside, List.length_append]
      omega)
  refine ⟨w', ?_, ?_, hwrote.capacity, ?_⟩
  · rw [bind_apply, show map n w = _ from hopen]
    exact hok
  · rw [hwrote.out, inside, List.append_assoc]
  · rw [hwrote.stack, owing_zero (Nat.zero_mul 2)]
    rfl

def WritesItems (d : ℕ) (m : Write Unit) (items : List Item) : Prop :=
  ∀ (w : CborWriter) (n : ℕ) (last : Option KeyRank) (start : ℕ) (base : List Open),
    w.stack = owing (⟨.array, n + items.length, last, start⟩ :: base) →
    base.length + 1 + d = maxDepth → w.Fits (Item.spellAll items) →
    ∃ w', m w = .ok ((), w') ∧
      Wrote w w' (Item.spellAll items) (owing (⟨.array, n, last, start⟩ :: base))

theorem WritesItems.nil : WritesItems d (pure ()) [] := by
  intro w n last start base hstack _ _
  exact ⟨w, rfl, by simp [Item.spellAll], rfl, hstack⟩

theorem WritesItems.cons {m₁ m₂ : Write Unit} {i : Item} {items : List Item} (h : Writes d m₁ i)
    (hrest : WritesItems d m₂ items) : WritesItems d (do m₁; m₂) (i :: items) := by
  intro w n last start base hstack hlevels hfits
  rw [List.length_cons, ← Nat.add_assoc, owing_pos (by simp)] at hstack
  rw [Item.spellAll] at hfits ⊢
  unfold Fits at hfits
  rw [List.length_append] at hfits
  have hopened : w.nest.settle.opened = ⟨.array, n + items.length + 1, last, start⟩ :: base := hstack
  have hready : w.Ready d := by
    refine ⟨by simp [Nest.atKey, hopened], ?_, fun h => ?_⟩
    · rw [hstack]
      exact hlevels
    · rw [hstack] at h
      cases h
  obtain ⟨w₁, hok₁, hwrote₁⟩ := h w hready (by unfold Fits; omega)
  have hstack₁ : w₁.stack = owing (⟨.array, n + items.length, last, start⟩ :: base) := by
    have hcount : w.nest.settle.countItem.opened = ⟨.array, n + items.length, last, start⟩ :: base := by
      simp only [Nest.countItem, hopened, Nat.add_sub_cancel]
    rw [hwrote₁.stack, ← hcount]
    rfl
  obtain ⟨w₂, hok₂, hwrote₂⟩ := hrest w₁ n last start base hstack₁ hlevels (by
    unfold Fits
    rw [hwrote₁.out, hwrote₁.capacity, List.length_append]
    omega)
  refine ⟨w₂, ?_, ?_, hwrote₂.capacity.trans hwrote₁.capacity, hwrote₂.stack⟩
  · rw [bind_apply, hok₁]
    exact hok₂
  · rw [hwrote₂.out, hwrote₁.out, List.append_assoc]

theorem WritesItems.forM {α : Type} {m : α → Write Unit} {f : α → Item}
    (h : ∀ a, Writes d (m a) (f a)) (xs : List α) : WritesItems d (xs.forM m) (xs.map f) := by
  induction xs with
  | nil => exact .nil
  | cons x xs ih => exact .cons (h x) ih

theorem writes_array {m : Write Unit} {items : List Item} {n : ℕ} (h : WritesItems d m items)
    (hn : items.length = n) : Writes (d + 1) (do array n; m) (.ofItems items) := by
  intro w hw hfits
  have hspell : (Item.ofItems items).spelling =
      headBytes .array (Width.of n) n ++ Item.spellAll items := by
    rw [Item.ofItems, Item.spelling, Token.spelling, hn]
  rw [hspell] at hfits ⊢
  unfold Fits at hfits
  rw [List.length_append] at hfits
  have hopen := open_ok hw .array n (by unfold Fits; omega) .array n
  obtain ⟨w', hok, hwrote⟩ := h (w.inside (headBytes .array (Width.of n) n) .array n) 0 none 0 _
    (by rw [stack_eq, Nat.zero_add, hn]; rfl) (countItem_levels hw) (by
      simp only [Fits, inside, List.length_append]
      omega)
  refine ⟨w', ?_, ?_, hwrote.capacity, ?_⟩
  · rw [bind_apply, show array n w = _ from hopen]
    exact hok
  · rw [hwrote.out, inside, List.append_assoc]
  · rw [hwrote.stack, owing_zero rfl]
    rfl

theorem Writes.run {m : Write Unit} {i : Item} (h : Writes maxDepth m i) {capacity : ℕ}
    (hfits : i.spelling.length ≤ capacity) :
    ∃ w, m (new capacity) = .ok ((), w) ∧ w.out = i.spelling ∧
      ∃ w', finish w = .ok (i.spelling.length, w') := by
  obtain ⟨w, hok, hwrote⟩ := h (new capacity) ⟨rfl, rfl, fun _ => rfl⟩ (by simpa [Fits, new] using hfits)
  have hout : w.out = i.spelling := hwrote.out
  have hdepth : w.nest.settle.depth = 0 := congrArg List.length hwrote.stack
  refine ⟨w, hok, hout, { w with nest := w.nest.settle }, ?_⟩
  simp only [finish, hdepth, ne_eq, not_true_eq_false, if_false, hout]

end CborWriter

end Km43.Cbor
