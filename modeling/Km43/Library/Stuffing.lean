import Mathlib.Tactic

/-!
Consistent overhead byte stuffing on whole lists: what a block-by-block encoder writes, and what
a decoder of zero-delimited frames makes of it.
-/

namespace Km43.Library.Stuffing

abbrev Bytes := List UInt8

def maxBlock : ℕ := 254

def code (block : Bytes) : UInt8 := UInt8.ofNat (block.length + 1)

/-- The encoding of `bs`, where the block under way already holds `block`. -/
def stuffFrom : Bytes → Bytes → Bytes
  | block, [] => code block :: block
  | block, b :: bs =>
    if block.length = maxBlock then
      if b = 0 then code block :: block ++ 1 :: stuffFrom [] bs
      else code block :: block ++ stuffFrom [b] bs
    else if b = 0 then code block :: block ++ stuffFrom [] bs
    else stuffFrom (block ++ [b]) bs

def stuff (bs : Bytes) : Bytes := stuffFrom [] bs

inductive Flaw
  | zeroCode
  | zeroInBlock
  | runsPastEnd
  deriving DecidableEq

/-- Blocks taken off `bs` one by one, each but a full or the last one standing for a zero too. -/
def unstuff (bs : Bytes) : Except Flaw Bytes :=
  match bs with
  | [] => .ok []
  | c :: bs =>
    if c = 0 then .error .zeroCode
    else if bs.length < c.toNat - 1 then .error .runsPastEnd
    else if 0 ∈ bs.take (c.toNat - 1) then .error .zeroInBlock
    else
      let gap : Bytes := if c.toNat - 1 < maxBlock ∧ c.toNat - 1 < bs.length then [0] else []
      (unstuff (bs.drop (c.toNat - 1))).map fun out => bs.take (c.toNat - 1) ++ gap ++ out
termination_by bs.length
decreasing_by simp only [List.length_drop, List.length_cons]; omega

/-- A block under way: what it holds is short of the next code byte and has no zero. -/
structure Block (block : Bytes) : Prop where
  short : block.length ≤ maxBlock
  nonzero : 0 ∉ block

theorem Block.nil : Block [] := ⟨Nat.zero_le _, by simp⟩

theorem Block.snoc {block : Bytes} (h : Block block) {b : UInt8} (hs : block.length ≠ maxBlock)
    (hb : b ≠ 0) : Block (block ++ [b]) where
  short := by
    have := h.short
    simp only [List.length_append, List.length_singleton]
    omega
  nonzero := by
    simp only [List.mem_append, List.mem_singleton, not_or]
    exact ⟨h.nonzero, Ne.symm hb⟩

theorem Block.single {b : UInt8} (hb : b ≠ 0) : Block [b] :=
  Block.nil.snoc (by simp [maxBlock]) hb

theorem Block.code_toNat {block : Bytes} (h : Block block) :
    (code block).toNat = block.length + 1 := by
  have := h.short
  simp only [maxBlock] at this
  simp only [code, UInt8.toNat_ofNat']
  omega

theorem Block.code_ne {block : Bytes} (h : Block block) : code block ≠ 0 := by
  intro hz
  have := h.code_toNat
  rw [hz] at this
  simp at this

/-- Taking one whole block off a frame. -/
theorem Block.unstuff {block : Bytes} (h : Block block) (rest : Bytes) :
    unstuff (code block :: block ++ rest) =
      (Stuffing.unstuff rest).map fun out =>
        block ++ (if block.length < maxBlock ∧ rest ≠ [] then [0] else []) ++ out := by
  have hlen : (code block).toNat - 1 = block.length := by rw [h.code_toNat]; rfl
  rw [List.cons_append, Stuffing.unstuff, if_neg h.code_ne, hlen, if_neg (by simp), List.take_left,
    if_neg h.nonzero, List.drop_left]
  simp only [List.length_append, Nat.lt_add_right_iff_pos, List.length_pos_iff]

theorem stuffFrom_full {block : Bytes} (h : block.length = maxBlock) (b : UInt8) (bs : Bytes) :
    stuffFrom block (b :: bs) = code block :: block ++ stuffFrom [] (b :: bs) := by
  have hlt : ([] : Bytes).length ≠ maxBlock := by simp [maxBlock]
  by_cases hb : b = 0
  · simp only [stuffFrom, h, hb, hlt, if_true, if_false]
    rfl
  · simp only [stuffFrom, h, hb, hlt, if_true, if_false, List.nil_append]

theorem stuffFrom_length_ge (block bs : Bytes) : block.length + 1 ≤ (stuffFrom block bs).length := by
  induction bs generalizing block with
  | nil => simp [stuffFrom]
  | cons b bs ih =>
    have hlong := ih (block ++ [b])
    simp only [List.length_append, List.length_singleton] at hlong
    simp only [stuffFrom]
    split_ifs
    iterate 3
      · simp only [List.length_append, List.length_cons]
        omega
    · omega

theorem stuffFrom_ne_nil (block bs : Bytes) : stuffFrom block bs ≠ [] := by
  have hlen := stuffFrom_length_ge block bs
  intro hn
  simp [hn] at hlen

theorem unstuff_stuffFrom {block : Bytes} (h : Block block) (bs : Bytes) :
    unstuff (stuffFrom block bs) = .ok (block ++ bs) := by
  induction bs generalizing block with
  | nil =>
    have hu := h.unstuff []
    simp only [List.append_nil, ne_eq, not_true_eq_false, and_false, if_false] at hu
    rw [stuffFrom, hu, unstuff]
    simp [Except.map]
  | cons b bs ih =>
    have hlt : ([] : Bytes).length < maxBlock := by simp [maxBlock]
    simp only [stuffFrom]
    split_ifs with hfull hz hz
    · have hone := Block.nil.unstuff (stuffFrom [] bs)
      rw [ih Block.nil] at hone
      simp only [List.nil_append, List.cons_append, hlt, stuffFrom_ne_nil, ne_eq, not_false_eq_true,
        and_self, if_true, Except.map] at hone
      rw [h.unstuff, show (1 : UInt8) :: stuffFrom [] bs = code [] :: stuffFrom [] bs from rfl, hone]
      simp [Except.map, hfull, hz]
    · rw [h.unstuff, ih (Block.single hz)]
      simp [Except.map, hfull]
    · have hs : block.length < maxBlock := lt_of_le_of_ne h.short hfull
      rw [h.unstuff, ih Block.nil]
      simp [Except.map, hs, stuffFrom_ne_nil, hz]
    · rw [ih (h.snoc hfull hz)]
      simp

theorem unstuff_stuff (bs : Bytes) : unstuff (stuff bs) = .ok bs := unstuff_stuffFrom Block.nil bs

theorem stuffFrom_nonzero {block : Bytes} (h : Block block) (bs : Bytes) :
    0 ∉ stuffFrom block bs := by
  have hc : ∀ {block : Bytes}, Block block → 0 ∉ code block :: block := by
    intro block h
    simp only [List.mem_cons, not_or]
    exact ⟨h.code_ne.symm, h.nonzero⟩
  induction bs generalizing block with
  | nil => exact hc h
  | cons b bs ih =>
    simp only [stuffFrom]
    split_ifs with hfull hz hz
    · simp only [List.mem_append, List.mem_cons, not_or]
      exact ⟨by simpa using hc h, by decide, ih Block.nil⟩
    · simp only [List.mem_append, not_or]
      exact ⟨hc h, ih (Block.single hz)⟩
    · simp only [List.mem_append, not_or]
      exact ⟨hc h, ih Block.nil⟩
    · exact ih (h.snoc hfull hz)

theorem stuff_nonzero (bs : Bytes) : 0 ∉ stuff bs := stuffFrom_nonzero Block.nil bs

theorem stuffFrom_length {block : Bytes} (h : Block block) (bs : Bytes) :
    (stuffFrom block bs).length ≤
      block.length + bs.length + (block.length + bs.length) / maxBlock + 1 := by
  induction bs generalizing block with
  | nil =>
    simp only [stuffFrom, List.length_cons, List.length_nil, maxBlock]
    omega
  | cons b bs ih =>
    have hshort := h.short
    simp only [stuffFrom]
    split_ifs with hfull hz hz
    · have := ih Block.nil
      simp only [List.length_append, List.length_cons, List.length_nil, maxBlock] at *
      omega
    · have := ih (Block.single hz)
      simp only [List.length_append, List.length_cons, List.length_nil, maxBlock] at *
      omega
    · have := ih Block.nil
      simp only [List.length_append, List.length_cons, List.length_nil, maxBlock] at *
      omega
    · have := ih (h.snoc hfull hz)
      simp only [List.length_append, List.length_cons, List.length_nil, maxBlock] at *
      omega

/-- At most one byte more for every full block, and one for the last. -/
theorem stuff_length (bs : Bytes) : (stuff bs).length ≤ bs.length + bs.length / maxBlock + 1 := by
  simpa [stuff] using stuffFrom_length Block.nil bs

/-- Bytes that go on filling the block under way. -/
theorem stuffFrom_append {block bs : Bytes} (h : Block (block ++ bs)) (rest : Bytes) :
    stuffFrom block (bs ++ rest) = stuffFrom (block ++ bs) rest := by
  induction bs generalizing block with
  | nil => simp
  | cons b bs ih =>
    have hb : b ≠ 0 := by
      rintro rfl
      exact h.nonzero (by simp)
    have hs : block.length ≠ maxBlock := by
      have hshort := h.short
      simp only [List.length_append, List.length_cons] at hshort
      omega
    rw [List.cons_append, stuffFrom, if_neg hs, if_neg hb, ih (by simpa using h)]
    simp

theorem Block.stuff {block : Bytes} (h : Block block) : stuff block = code block :: block := by
  have happ := @stuffFrom_append [] block (by simpa using h) []
  rwa [List.append_nil, List.nil_append] at happ

theorem Block.stuff_zero {block : Bytes} (h : Block block) (hs : block.length < maxBlock) (rest : Bytes) :
    Stuffing.stuff (block ++ 0 :: rest) = code block :: block ++ Stuffing.stuff rest := by
  rw [Stuffing.stuff, stuffFrom_append (by simpa using h), List.nil_append, stuffFrom,
    if_neg hs.ne, if_pos rfl, Stuffing.stuff]

theorem Block.stuff_full {block : Bytes} (h : Block block) (hs : block.length = maxBlock) {rest : Bytes}
    (hr : rest ≠ []) : Stuffing.stuff (block ++ rest) = code block :: block ++ Stuffing.stuff rest := by
  obtain ⟨b, rest, rfl⟩ := List.exists_cons_of_ne_nil hr
  rw [Stuffing.stuff, stuffFrom_append (by simpa using h), List.nil_append, stuffFrom_full hs,
    Stuffing.stuff]

theorem stuff_ne_nil (bs : Bytes) : stuff bs ≠ [] := stuffFrom_ne_nil [] bs

/-- Whether the last block of an encoding holds as much as a block can. -/
def lastFull (f : Bytes) : Bool :=
  match f with
  | [] => false
  | c :: bs =>
    if c.toNat - 1 < bs.length then lastFull (bs.drop (c.toNat - 1))
    else decide (c.toNat - 1 = maxBlock)
termination_by f.length
decreasing_by simp only [List.length_drop, List.length_cons]; omega

theorem Block.lastFull {block : Bytes} (h : Block block) :
    lastFull (code block :: block) = decide (block.length = maxBlock) := by
  have hlen : (code block).toNat - 1 = block.length := by rw [h.code_toNat]; rfl
  rw [Stuffing.lastFull, hlen, if_neg (lt_irrefl _)]

theorem Block.lastFull_append {block rest : Bytes} (h : Block block) (hr : rest ≠ []) :
    Stuffing.lastFull (code block :: block ++ rest) = Stuffing.lastFull rest := by
  have hlen : (code block).toNat - 1 = block.length := by rw [h.code_toNat]; rfl
  have hpos := List.length_pos_iff.mpr hr
  rw [List.cons_append, Stuffing.lastFull, hlen, if_pos (by simp [hpos]), List.drop_left]

theorem unstuff_cons {c : UInt8} {bs p : Bytes} (h : unstuff (c :: bs) = .ok p) :
    c ≠ 0 ∧ c.toNat - 1 ≤ bs.length ∧ 0 ∉ bs.take (c.toNat - 1) ∧
      ∃ q, unstuff (bs.drop (c.toNat - 1)) = .ok q ∧ p = bs.take (c.toNat - 1) ++
        (if c.toNat - 1 < maxBlock ∧ c.toNat - 1 < bs.length then [0] else []) ++ q := by
  rw [unstuff] at h
  split_ifs at h with hc hl hz hg
  all_goals
    cases hq : unstuff (bs.drop (c.toNat - 1)) with
    | error e => simp [hq, Except.map] at h
    | ok q =>
      simp only [hq, Except.map, Except.ok.injEq] at h
      exact ⟨hc, Nat.not_lt.mp hl, hz, q, rfl, by simp [hg, ← h]⟩

/-- What unstuffs starts with a whole block. -/
theorem unstuff_block {f p : Bytes} (hf : f ≠ []) (h : unstuff f = .ok p) :
    ∃ block rest q, Block block ∧ f = code block :: block ++ rest ∧ unstuff rest = .ok q ∧
      p = block ++ (if block.length < maxBlock ∧ rest ≠ [] then [0] else []) ++ q := by
  obtain ⟨c, bs, rfl⟩ := List.exists_cons_of_ne_nil hf
  obtain ⟨hc, hl, hz, q, hq, rfl⟩ := unstuff_cons h
  have hlt := c.toNat_lt
  have hpos : c.toNat ≠ 0 := fun hn => hc (UInt8.toNat_inj.mp hn)
  have hlen : (bs.take (c.toNat - 1)).length = c.toNat - 1 := by
    rw [List.length_take]
    omega
  have hcode : code (bs.take (c.toNat - 1)) = c := by
    rw [code, hlen, Nat.sub_add_cancel (by omega), UInt8.ofNat_toNat]
  have hdrop : bs.drop (c.toNat - 1) ≠ [] ↔ c.toNat - 1 < bs.length := by
    rw [Ne, List.drop_eq_nil_iff, not_le]
  refine ⟨bs.take (c.toNat - 1), bs.drop (c.toNat - 1), q, ⟨?_, hz⟩, ?_, hq, ?_⟩
  · rw [hlen, maxBlock]
    omega
  · rw [hcode, List.cons_append, List.take_append_drop]
  · simp only [hlen, hdrop]

theorem unstuff_single : unstuff [1] = .ok [] := by
  simp [unstuff, Except.map]

/-- An empty block after a full last one stands for nothing. -/
theorem unstuff_snoc {f p : Bytes} (h : unstuff f = .ok p) (hfull : lastFull f) :
    unstuff (f ++ [1]) = .ok p := by
  induction hk : f.length using Nat.strong_induction_on generalizing f p with
  | _ k ih =>
    have hf : f ≠ [] := by
      rintro rfl
      simp [lastFull] at hfull
    obtain ⟨block, rest, q, hb, rfl, hq, rfl⟩ := unstuff_block hf h
    by_cases hr : rest = []
    · subst hr
      rw [List.append_nil, hb.lastFull, decide_eq_true_eq] at hfull
      rw [unstuff, Except.ok.injEq] at hq
      rw [List.append_nil, hb.unstuff, unstuff_single]
      simp [Except.map, hfull, ← hq]
    · rw [hb.lastFull_append hr] at hfull
      have hsnoc := ih rest.length (by rw [← hk]; simp) hq hfull rfl
      rw [List.append_assoc, hb.unstuff, hsnoc]
      simp [Except.map, hr]

/-- A payload has one encoding, and where that ends in a full block a second one byte longer. -/
theorem unstuff_forms {f p : Bytes} (hf : f ≠ []) (h : unstuff f = .ok p) :
    f = stuff p ∨ f = stuff p ++ [1] ∧ lastFull (stuff p) := by
  induction hk : f.length using Nat.strong_induction_on generalizing f p with
  | _ k ih =>
    obtain ⟨block, rest, q, hb, rfl, hq, rfl⟩ := unstuff_block hf h
    by_cases hr : rest = []
    · subst hr
      rw [unstuff, Except.ok.injEq] at hq
      left
      simp [← hq, hb.stuff]
    · have hrest := ih rest.length (by rw [← hk]; simp) hr hq rfl
      by_cases hs : block.length < maxBlock
      · have hstuff := hb.stuff_zero hs q
        simp only [hs, hr, ne_eq, not_false_eq_true, and_self, if_true, List.append_assoc,
          List.singleton_append] at hstuff ⊢
        rw [hstuff, hb.lastFull_append (stuff_ne_nil q)]
        rcases hrest with he | ⟨he, hfull⟩
        · exact .inl (by rw [he])
        · exact .inr ⟨by rw [he]; simp, hfull⟩
      · have hfull : block.length = maxBlock := le_antisymm hb.short (not_lt.mp hs)
        simp only [hs, false_and, if_false, List.append_nil]
        by_cases hq0 : q = []
        · subst hq0
          have hone : Stuffing.stuff [] = [1] := rfl
          rcases hrest with he | ⟨-, hlast⟩
          · refine .inr ⟨by rw [he, hone, List.append_nil, hb.stuff], ?_⟩
            rw [List.append_nil, hb.stuff, hb.lastFull, decide_eq_true_eq]
            exact hfull
          · simp [hone, lastFull, maxBlock] at hlast
        · have hstuff := hb.stuff_full hfull hq0
          rw [hstuff, hb.lastFull_append (stuff_ne_nil q)]
          rcases hrest with he | ⟨he, hlast⟩
          · exact .inl (by rw [he])
          · exact .inr ⟨by rw [he]; simp, hlast⟩

end Km43.Library.Stuffing
