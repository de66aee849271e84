import Km43.Cbor.Room
import Km43.Cbor.Takes

namespace Km43.Cbor

open Library Library.StepParser CborWriter

theorem Item.Legal.depth_le {d : ℕ} {i : Item} (h : i.Legal d) : i.depth ≤ d := by
  induction d generalizing i with
  | zero => cases i <;> first | exact le_rfl | exact h.elim
  | succ d ih =>
    cases i with
    | array w items =>
      have hall : ∀ is : List Item, (∀ i ∈ is, i.Legal d) → Item.depthAll is ≤ d := by
        intro is his
        induction is with
        | nil => exact Nat.zero_le d
        | cons j is ih' =>
          exact max_le (ih (his j (by simp))) (ih' fun i hi => his i (by simp [hi]))
      exact Nat.succ_le_succ (hall items h.2)
    | map w pairs =>
      have hall : ∀ ps : List (Key × Item), (∀ p ∈ ps, p.2.Legal d) → Item.depthPairs ps ≤ d := by
        intro ps hps
        induction ps with
        | nil => exact Nat.zero_le d
        | cons p ps ih' =>
          exact max_le (ih (hps p (by simp))) (ih' fun q hq => hps q (by simp [hq]))
      exact Nat.succ_le_succ (hall pairs fun p hp => (h.2.2 p hp).2)
    | unsigned | negative | bytes | text | bool => exact Nat.zero_le _

theorem Item.Legal.walked {d : ℕ} {i : Item} (h : i.Legal d) (hd : d ≤ maxDepth) :
    ∃ r, (CborReader.new i.spelling).skip = .ok ((), r) ∧ r.finish = .ok () ∧ r.nest.deepest = i.depth := by
  have hskip := CborReader.skip_new i.spelling
  have hread := (itemStep_exact maxDepth).read (h.mono hd) []
  rw [List.append_nil] at hread
  simp only [hread] at hskip
  obtain ⟨r, hok, hwithin, hopened, hskipped, hrest, hdeep⟩ := hskip
  exact ⟨r, hok, (CborReader.finish_new hwithin hopened hskipped).mpr hrest, hdeep⟩

namespace CborWriter

variable {d : ℕ} {w w' : CborWriter} {i : Item} {calls xs ys : List Call}

theorem writes_i32 (value : Int32) : Writes d (CborWriter.i32 value) (.ofInt value) := by
  unfold CborWriter.i32 Item.ofInt
  split_ifs
  · exact writes_head rfl
  · exact writes_head rfl

theorem writes_text {value : Str} (h : value.raw.length ≤ maxString) :
    Writes d (CborWriter.text value.raw) (.ofText value) := by
  unfold CborWriter.text
  rw [if_neg (Nat.not_lt.mpr h)]
  exact writes_data rfl

theorem writes_raw (hi : i.Legal d) : Writes d (CborWriter.raw i.spelling) i := by
  intro w hw hfits
  have hlevels : w.nest.settle.depth + d = maxDepth := hw.levels
  obtain ⟨walk, hskip, hfinish, hdeep⟩ := hi.walked (by omega)
  have hdepth := hi.depth_le
  have hroom : ¬w.nest.settle.depth + walk.nest.deepest > maxDepth := by omega
  have hemit : emit i.spelling { w with nest := w.nest.settle } = .ok ((), _) := emit_ok _ hfits
  have hlift : ∀ {α : Type} {x : Except CborError α} {a : α}, x = .ok a →
      (liftM x : Write α) { w with nest := w.nest.settle } = .ok (a, { w with nest := w.nest.settle }) := by
    rintro _ _ _ rfl
    rfl
  refine ⟨{ w with out := w.out ++ i.spelling, nest := w.nest.settle.countItem }, ?_, rfl, rfl, rfl⟩
  refine bind_run_ok.mpr ⟨(), _, openItem_ok hw, bind_run_ok.mpr ⟨((), walk), _, hlift hskip,
    bind_run_ok.mpr ⟨(), _, hlift hfinish, bind_run_ok.mpr ⟨_, _, rfl, ?_⟩⟩⟩⟩
  simp only [if_neg hroom]
  exact bind_run_ok.mpr ⟨(), _, hemit, rfl⟩

theorem writes_call {c : Call} (h : c.Spells d i) : Writes d c.write i := by
  cases c with
  | array len | map pairs | key k => exact h.elim
  | u64 value =>
    obtain rfl := h
    exact writes_u64 value.toNat
  | i32 value =>
    obtain rfl := h
    exact writes_i32 value
  | bool value =>
    obtain rfl := h
    exact writes_bool value
  | bytes value =>
    obtain rfl := h
    exact writes_bytes value
  | fill value =>
    obtain rfl := h
    rw [Call.fill_write]
    exact writes_bytes value
  | text value =>
    obtain ⟨rfl, hshort⟩ := h
    exact writes_text hshort
  | raw item =>
    obtain ⟨hi, rfl⟩ := h
    exact writes_raw hi

theorem writeAll_one (c : Call) : writeAll [c] = c.write := by
  rw [writeAll, writeAll, bind_pure_unit]

theorem writes_one {c : Call} (h : c.Spells d i) : Writes d (writeAll [c]) i := by
  rw [writeAll_one]
  exact writes_call h

theorem WritesPairs.both {ps qs : List (Key × Item)} (h : WritesPairs d (writeAll xs) ps)
    (h' : WritesPairs d (writeAll ys) qs) : WritesPairs d (writeAll (xs ++ ys)) (ps ++ qs) := by
  rw [writeAll_append]
  exact h.append h'

theorem WritesPairs.keyed {k : Int64} (hk : 0 ≤ k.toInt) (h : Writes d (writeAll calls) i) :
    WritesPairs d (writeAll (.key k :: calls)) [(Key.ofNat k.toInt.toNat, i)] := by
  have hpair := WritesPairs.pair h k.toInt.toNat
  rwa [Int.toNat_of_nonneg hk] at hpair

theorem writes_mapCalls {n : UInt64} {pairs : List (Key × Item)} (h : WritesPairs d (writeAll calls) pairs)
    (hn : pairs.length = n.toNat) (hasc : Ascends none pairs) :
    Writes (d + 1) (writeAll (.map n :: calls)) (.ofPairs pairs) := writes_map h hn hasc

theorem writes_arrayCalls {n : UInt64} {items : List Item} (h : WritesItems d (writeAll calls) items)
    (hn : items.length = n.toNat) : Writes (d + 1) (writeAll (.array n :: calls)) (.ofItems items) :=
  writes_array h hn

theorem WritesItems.flatMap {α : Type} {f : α → List Call} {g : α → Item} {items : List α}
    (h : ∀ a ∈ items, Writes d (writeAll (f a)) (g a)) :
    WritesItems d (writeAll (items.flatMap f)) (items.map g) := by
  induction items with
  | nil => exact .nil
  | cons a items ih =>
    rw [List.flatMap_cons, writeAll_append]
    exact .cons (h a (by simp)) (ih fun b hb => h b (by simp [hb]))

structure Longer (w w' : CborWriter) : Prop where
  nest : w'.nest = w.nest
  out : w'.out = w.out
  capacity : w.capacity ≤ w'.capacity

theorem longer_steady : Steady Longer where
  nest h := h.nest
  first h := by rw [h.out]
  room h := by
    have hcapacity := h.capacity
    rw [h.out]
    omega
  turned _ h := ⟨rfl, h.out, h.capacity⟩
  grown data h := ⟨h.nest, by rw [h.out], h.capacity⟩

theorem Writes.of_ok (h : Writes d (writeAll calls) i) (hw : w.Ready d) (hok : writeAll calls w = .ok ((), w')) :
    Wrote w w' i.spelling w.nest.settle.countItem.settle.opened := by
  let long : CborWriter := { w with capacity := w.capacity + (w.out.length + i.spelling.length) }
  have hlong : Longer w long := ⟨rfl, rfl, Nat.le_add_right _ _⟩
  have hfits : long.Fits i.spelling := Nat.le_add_left _ _
  have hgrows := writeAll_grows hok (Nat.le.intro hw.levels)
  obtain ⟨w₁, hok₁, hsame⟩ := writeAll_steady longer_steady calls _ _ _ _ hok hlong
  obtain ⟨w₂, hok₂, hwrote⟩ := h long ⟨hw.value, hw.levels, hw.first⟩ hfits
  rw [hok₁] at hok₂
  cases hok₂
  refine ⟨by rw [← hsame.out, hwrote.out], hgrows.capacity, ?_⟩
  rw [stack, ← hsame.nest]
  exact hwrote.stack

theorem WritesPairs.of_ok {n : ℕ} {last : Option KeyRank} {start : ℕ} {base : List Open} {pairs : List (Key × Item)}
    (h : WritesPairs d (writeAll calls) pairs)
    (hstack : w.stack = owing (⟨.map, (n + pairs.length) * 2, last, start⟩ :: base))
    (hlevels : base.length + 1 + d = maxDepth) (hasc : Ascends last pairs) (hok : writeAll calls w = .ok ((), w')) :
    Wrote w w' (Item.spellPairs pairs) (owing (⟨.map, n * 2, lastKey last pairs, start⟩ :: base)) := by
  let long : CborWriter := { w with capacity := w.capacity + (w.out.length + (Item.spellPairs pairs).length) }
  have hlong : Longer w long := ⟨rfl, rfl, Nat.le_add_right _ _⟩
  have hfits : long.Fits (Item.spellPairs pairs) := Nat.le_add_left _ _
  have hdepth : w.stack.length ≤ maxDepth := by
    rw [hstack]
    have hshort := owing_length (⟨.map, (n + pairs.length) * 2, last, start⟩ :: base)
    rw [List.length_cons] at hshort
    omega
  have hgrows := writeAll_grows hok hdepth
  obtain ⟨w₁, hok₁, hsame⟩ := writeAll_steady longer_steady calls _ _ _ _ hok hlong
  obtain ⟨w₂, hok₂, hwrote⟩ := h long n last start base hstack hlevels hasc hfits
  rw [hok₁] at hok₂
  cases hok₂
  refine ⟨by rw [← hsame.out, hwrote.out], hgrows.capacity, ?_⟩
  rw [stack, ← hsame.nest]
  exact hwrote.stack

theorem spliced_in {k : Int64} {n : UInt64} {m : ℕ} {pairs : List (Key × Item)} {body : Bytes} {rest : List Call}
    (h : WritesPairs d (writeAll calls) pairs) (hn : n.toNat = m + 1 + pairs.length) (hasc : Ascends none pairs)
    (hlevels : w.stack.length + 1 + d = maxDepth)
    (hok : writeAll (.map n :: (calls ++ .key k :: .raw body :: rest)) w = .ok ((), w')) :
    ∃ i : Item, i.Legal d ∧ i.spelling = body := by
  obtain ⟨⟨⟩, w₁, h₁, hrest⟩ := bind_run_ok.mp hok
  obtain ⟨-, -, -, hmoved⟩ := box_wrote h₁
  have hstack : w₁.stack = owing (⟨.map, (m + 1 + pairs.length) * 2, none, 0⟩ :: countTop w.stack) := by
    rw [hmoved, stack_inside, hn]
  rw [writeAll_append] at hrest
  obtain ⟨⟨⟩, w₂, h₂, hrest⟩ := bind_run_ok.mp hrest
  have hwrote := h.of_ok hstack (by rw [countTop_length]; omega) hasc h₂
  obtain ⟨⟨⟩, w₃, h₃, hrest⟩ := bind_run_ok.mp hrest
  obtain ⟨-, level, base, j, hlevel, -, -, -, -, rfl⟩ := key_wrote h₃
  rw [hwrote.stack, owing_pos (by simp)] at hlevel
  cases hlevel
  obtain ⟨⟨⟩, w₄, h₄, -⟩ := bind_run_ok.mp hrest
  obtain ⟨i, hi, hspell, -⟩ := raw_counted h₄ (d := d) (by
    rw [stack_eq, owing_pos (by simp), List.length_cons, countTop_length]
    omega)
  exact ⟨i, hi, hspell⟩

theorem spliced_last {k : Int64} {n : UInt64} {pairs : List (Key × Item)} {body : Bytes}
    (h : WritesPairs d (writeAll calls) pairs) (hn : n.toNat = pairs.length + 1) (hasc : Ascends none pairs)
    (hlevels : w.stack.length + 1 + d = maxDepth)
    (hok : writeAll (.map n :: (calls ++ [.key k, .raw body])) w = .ok ((), w')) :
    ∃ i : Item, i.Legal d ∧ i.spelling = body :=
  spliced_in (m := 0) h (by omega) hasc hlevels hok

theorem raws_wrote {items : List Bytes} {last : Option KeyRank} {start : ℕ} {base : List Open}
    (hok : writeAll (items.map .raw) w = .ok ((), w'))
    (hstack : w.stack = owing (⟨.array, items.length, last, start⟩ :: base))
    (hlevels : base.length + 1 + d = maxDepth) :
    ∃ spliced : List Item, spliced.map Item.spelling = items ∧ (∀ i ∈ spliced, i.Legal d) ∧
      Wrote w w' (Item.spellAll spliced) (owing base) := by
  induction items generalizing w with
  | nil =>
    cases hok
    refine ⟨[], rfl, by simp, by simp [Item.spellAll], rfl, ?_⟩
    rw [hstack]
    exact owing_zero rfl base
  | cons item items ih =>
    obtain ⟨⟨⟩, w₁, h₁, hok⟩ := bind_run_ok.mp hok
    rw [List.length_cons, owing_pos (by simp)] at hstack
    obtain ⟨i, hi, hspell, -, -, hwrote⟩ := raw_counted h₁ (d := d) (by rw [hstack]; exact hlevels)
    have hstack₁ : w₁.stack = owing (⟨.array, items.length, last, start⟩ :: base) := by
      rw [hwrote.stack, stack_counted, hstack]
      rfl
    obtain ⟨spliced, hspells, hlegal, hwrote'⟩ := ih hok hstack₁
    refine ⟨i :: spliced, by rw [List.map_cons, hspell, hspells], ?_, ?_, ?_, hwrote'.stack⟩
    · exact List.forall_mem_cons.mpr ⟨hi, hlegal⟩
    · rw [hwrote'.out, hwrote.out, List.append_assoc, Item.spellAll]
    · exact hwrote'.capacity.trans hwrote.capacity

end CborWriter

def arrayOf (items : List Bytes) : Bytes :=
  headBytes .array (Width.of items.length) items.length ++ items.flatten

theorem ofItems_spelling (items : List Item) : (Item.ofItems items).spelling = arrayOf (items.map Item.spelling) := by
  rw [Item.ofItems, Item.spelling, Item.spellAll_eq, arrayOf, List.length_map, List.flatMap_def]
  rfl

theorem Takes.spliced {ε : Type} [FromCbor ε] {items : List Bytes} {n : UInt64} (hn : n.toNat = items.length) :
    Takes (CborReader.ask CborReader.raw : CborReader.Read ε Bytes) (.array n :: items.map .raw) (arrayOf items) := by
  refine ask fun bytes w w' r hf hw hl => ?_
  have hgrows := writeAll_grows hw hf.shallow
  obtain ⟨⟨⟩, w₁, h₁, h₂⟩ := bind_run_ok.mp hw
  obtain ⟨hvalue, hlevels, -, hmoved⟩ := box_wrote h₁
  obtain ⟨d, hd⟩ := Nat.exists_eq_add_of_lt hlevels
  have hstack : w₁.stack = owing (⟨.array, items.length, none, 0⟩ :: countTop w.stack) := by
    rw [hmoved, stack_inside, hn]
  obtain ⟨spliced, rfl, hlegal, hwrote⟩ := raws_wrote (d := d) h₂ hstack (by
    rw [countTop_length]
    omega)
  have hspell : (Item.ofItems spliced).spelling = headBytes .array (Width.of n.toNat) n.toNat ++ Item.spellAll spliced := by
    rw [hn, List.length_map]
    rfl
  have hall : Wrote w w' (Item.ofItems spliced).spelling w.nest.settle.countItem.settle.opened := by
    refine ⟨?_, ?_, ?_⟩
    · rw [hspell, hwrote.out, hmoved, inside, List.append_assoc]
    · rw [hwrote.capacity, hmoved]
      rfl
    · rw [hwrote.stack, stack_counted]
  have hlen : spliced.length < 2 ^ 64 := by
    rw [← List.length_map (f := Item.spelling), ← hn]
    exact n.toNat_lt
  obtain ⟨tail, hrest⟩ := hf.rest (hall.out ▸ hl.out)
  obtain ⟨r', hok, hpast⟩ := CborReader.raw_takes (hf.ready (d := d + 1) hvalue (by omega)) hf.unsettled
    (Item.ofItems_legal hlen hlegal) hrest
  rw [← ofItems_spelling]
  exact ⟨r', hok, hf.moved hgrows (hf.past hall hpast)⟩

theorem writes_spliced {d : ℕ} {items : List Item} {n : UInt64} (hn : n.toNat = items.length)
    (h : ∀ i ∈ items, i.Legal d) :
    Writes (d + 1) (writeAll (.array n :: items.map fun i => .raw i.spelling)) (.ofItems items) := by
  have hitems := WritesItems.flatMap (f := fun i : Item => [.raw i.spelling]) (g := id)
    fun i hi => writes_one (c := .raw i.spelling) ⟨h i hi, rfl⟩
  rw [List.map_id, ← List.map_eq_flatMap] at hitems
  exact writes_arrayCalls hitems hn.symm

end Km43.Cbor
