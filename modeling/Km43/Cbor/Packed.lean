import Km43.Cbor.Entries

namespace Km43.Cbor

open Library Library.StepParser CborReader CborWriter

section

variable {ε α : Type} [FromCbor ε]

structure Packed where
  bytes : Bytes
  rows : ℕ
  deriving DecidableEq

namespace Packed

def empty : Packed := ⟨[], 0⟩

/-- Whether one more was taken: `most` rows at most, of `width` bytes each, and of `cap` bytes in all. -/
def push (most width cap : ℕ) (write : Encoder ε Unit) (p : Packed) : Except ε Bool × Packed :=
  if p.rows ≥ most then (.ok false, p)
  else
    match encodeBody write width with
    | .error why => (.error why, p)
    | .ok one =>
      if p.bytes.length + one.length > cap then (.ok false, p) else (.ok true, ⟨p.bytes ++ one, p.rows + 1⟩)

def copy : ℕ → CborReader → Encoder ε Unit
  | 0, _ => pure ()
  | n + 1, r => do
    let (one, r) ← (ask raw : Read ε Bytes) r
    tell (CborWriter.raw one)
    copy n r

def write (p : Packed) : Encoder ε Unit := do
  tell (CborWriter.array p.rows)
  copy p.rows (.new p.bytes)

structure Holds (p : Packed) (d : ℕ) (items : List Item) : Prop where
  bytes : p.bytes = Item.spellAll items
  rows : p.rows = items.length
  legal : ∀ i ∈ items, i.Legal d

end Packed

def collect (decode : Bytes → Except ε α) : ℕ → CborReader → Except ε (List α)
  | 0, _ => .ok []
  | n + 1, r => do
    let (one, r) ← (ask raw : Read ε Bytes) r
    let a ← decode one
    let rest ← collect decode n r
    .ok (a :: rest)

end

/-- Where a reader stands before `n` items that it can take one by one. -/
structure Queue (d : ℕ) (P : ℕ → CborReader → Prop) : Prop where
  ready : ∀ n r, P (n + 1) r → r.Ready d ∧ r.unsettled = none
  next : ∀ n r r' (i : Item) tail, P (n + 1) r → i.Legal d → r.rest = i.spelling ++ tail → Past r r' i.spelling.length → P n r'

theorem past_rest {r r' : CborReader} {data tail : Bytes} (h : Past r r' data.length) (hrest : r.rest = data ++ tail) :
    r'.rest = tail := by
  have hdrop : r'.rest = r.rest.drop data.length := by
    rw [CborReader.rest, CborReader.rest, h.bytes, h.next, List.drop_drop]
  rw [hdrop, hrest, List.drop_left]

def AtTop (_ : ℕ) (r : CborReader) : Prop := r.Ready maxDepth ∧ r.unsettled = none ∧ r.nest.settle.opened = []

theorem new_atTop (bytes : Bytes) (n : ℕ) : AtTop n (.new bytes) :=
  ⟨⟨⟨Nat.zero_le _, rfl, rfl, by simp [CborReader.new, Nest.new, Nest.depth], rfl⟩, rfl, rfl⟩, rfl, rfl⟩

theorem atTop_queue : Queue maxDepth AtTop := by
  refine ⟨fun n r h => ⟨h.1, h.2.1⟩, ?_⟩
  rintro n r r' i tail ⟨hready, -, htop⟩ - - hpast
  have hcount : r.nest.settle.countItem.opened = [] := by simp only [Nest.countItem, htop]
  have hstack : r'.nest.settle.opened = [] := by
    have hmoved : r'.nest.settle.opened = r.nest.settle.countItem.settle.opened := hpast.stack
    rw [hmoved]
    change r.nest.settle.countItem.opened.dropWhile _ = []
    rw [hcount]
    rfl
  refine ⟨⟨hpast.live, ?_, ?_⟩, hpast.unsettled, hstack⟩
  · simp [Nest.atKey, hstack]
  · rw [CborReader.stack, hstack]
    rfl

def InArray (d n : ℕ) (r : CborReader) : Prop := ∃ level base, AtItems d n r level base

theorem inArray_queue (d : ℕ) : Queue d (InArray d) := by
  constructor
  · rintro n r ⟨level, base, h⟩
    exact ⟨h.ready, h.unsettled⟩
  · rintro n r r' i tail ⟨level, base, h⟩ hi hrest hpast
    have hstep := (itemStep_exact d).read hi tail
    rw [← hrest] at hstep
    exact ⟨_, base, (h.next hstep hpast).1⟩

variable {ε α : Type} [FromCbor ε] {d : ℕ} {P : ℕ → CborReader → Prop}

theorem collect_ok (hq : Queue d P) {decode : Bytes → Except ε α} {items : List Item} {values : List α}
    (h : List.Forall₂ (fun i a => i.Legal d ∧ decode i.spelling = .ok a) items values) {r : CborReader} {tail : Bytes}
    (hr : P items.length r) (hrest : r.rest = Item.spellAll items ++ tail) :
    collect decode items.length r = .ok values := by
  induction h generalizing r with
  | nil => rfl
  | @cons i a items values hi _ ih =>
    obtain ⟨hlegal, hdecode⟩ := hi
    rw [Item.spellAll, List.append_assoc] at hrest
    obtain ⟨hready, hunsettled⟩ := hq.ready _ r hr
    obtain ⟨r', hraw, hpast⟩ := raw_takes hready hunsettled hlegal hrest
    have hask : (ask raw : Read ε Bytes) r = .ok (i.spelling, r') := by
      rw [ask, hraw]
    have hcollect := ih (hq.next _ _ _ _ _ hr hlegal hrest hpast) (past_rest hpast hrest)
    rw [List.length_cons, collect]
    refine bind_ok.mpr ⟨_, hask, bind_ok.mpr ⟨a, hdecode, bind_ok.mpr ⟨values, hcollect, rfl⟩⟩⟩

theorem array_head {i : Item} (hi : i.Legal maxDepth) :
    (∃ w items r, i = .array w items ∧ CborReader.array (.new i.spelling) = .ok (items.length, r) ∧
      InArray 7 items.length r ∧ r.rest = Item.spellAll items) ∨
    i.items? = none ∧ ∃ why, CborReader.array (.new i.spelling) = .error why := by
  have hready := (new_atTop i.spelling 0).1
  have hread : itemStep maxDepth (CborReader.new i.spelling).rest = some (i, []) := by
    have hread := (itemStep_exact maxDepth).read hi []
    rwa [List.append_nil] at hread
  rcases hready.box .array with ⟨w, n, tail, htoken, hlength, hrest, hbox⟩ | ⟨hnot, why, hbox⟩
  · have hfirst := itemStep_first htoken hread
    cases i with
    | array w' items =>
      obtain ⟨rfl, rfl⟩ := Token.array.inj hfirst
      have htail : tail = Item.spellAll items := by
        have hstep := tokenStep_exact.read (x := .array w' items.length) hi.1 (Item.spellAll items)
        have hspell : (CborReader.new (Item.array w' items).spelling).rest =
            (Token.array w' items.length).spelling ++ Item.spellAll items := rfl
        rw [hspell, show Nesting.array.token w' items.length = .array w' items.length from rfl, hstep] at htoken
        exact (Prod.mk.inj (Option.some.inj htoken)).2.symm
      have hin := hready.at_items hlength items.length
      rw [Nesting.per, Nat.mul_one] at hbox hrest
      rw [Nat.mul_one] at hin
      exact .inl ⟨w', items, _, rfl, hbox, ⟨_, _, hin⟩, hrest.trans htail⟩
    | unsigned | negative | bytes | text | map | bool => cases hfirst
  · refine .inr ⟨?_, why, hbox⟩
    cases i with
    | array w items => exact absurd rfl (hnot _ _ hread w items.length)
    | unsigned | negative | bytes | text | map | bool => rfl

theorem collect_array {decode : Bytes → Except ε α} {items : List Item} {values : List α}
    (hlen : items.length < 2 ^ 64)
    (h : List.Forall₂ (fun i a => i.Legal 7 ∧ decode i.spelling = .ok a) items values) :
    ∃ r, CborReader.array (.new (Item.ofItems items).spelling) = .ok (items.length, r) ∧
      collect decode items.length r = .ok values := by
  have hlegal : (Item.ofItems items).Legal maxDepth :=
    Item.ofItems_legal hlen ((List.forall₂_and_left items values).mp h).1
  rcases array_head hlegal with ⟨w, items', r, heq, harray, hin, hrest⟩ | ⟨hnone, -⟩
  · obtain ⟨-, rfl⟩ := Item.array.inj heq
    rw [← List.append_nil (Item.spellAll items)] at hrest
    exact ⟨r, harray, collect_ok (inArray_queue 7) h hin hrest⟩
  · cases hnone

namespace Packed

variable {p : Packed} {items : List Item}

theorem empty_holds : empty.Holds d [] := ⟨rfl, rfl, by simp⟩

theorem push_refused {most width cap : ℕ} {write : Encoder ε Unit} (h : (p.push most width cap write).1 ≠ .ok true) :
    (p.push most width cap write).2 = p := by
  unfold push at h ⊢
  split_ifs at h ⊢ with hrows
  · rfl
  · cases hone : encodeBody write width with
    | error why => rfl
    | ok one =>
      simp only [hone] at h ⊢
      split_ifs at h ⊢ with hcap
      · rfl
      · exact absurd rfl h

theorem push_error {most width cap : ℕ} {write : Encoder ε Unit} {why : ε}
    (h : (p.push most width cap write).1 = .error why) : encodeBody write width = .error why := by
  unfold push at h
  by_cases hrows : p.rows ≥ most
  · rw [if_pos hrows] at h
    cases h
  · rw [if_neg hrows] at h
    cases hone : encodeBody write width with
    | error why' =>
      simp only [hone] at h
      exact congrArg _ (Except.error.inj h)
    | ok one =>
      simp only [hone] at h
      split_ifs at h

theorem push_first {most width cap : ℕ} {write : Encoder ε Unit} {one : Bytes} (hmost : 0 < most)
    (hone : encodeBody write width = .ok one) (hcap : one.length ≤ cap) :
    (empty.push most width cap write).1 = .ok true := by
  have hrows : ¬ empty.rows ≥ most := by
    simp only [empty]
    omega
  have hroom : ¬ empty.bytes.length + one.length > cap := by
    simp only [empty, List.length_nil]
    omega
  rw [push, if_neg hrows, hone]
  simp only
  rw [if_neg hroom]

theorem push_answers {most width cap : ℕ} {write : Encoder ε Unit} {one : Bytes}
    (hone : encodeBody write width = .ok one) : ∃ took, (p.push most width cap write).1 = .ok took := by
  cases hpush : (p.push most width cap write).1 with
  | ok took => exact ⟨took, rfl⟩
  | error why =>
    rw [push_error hpush] at hone
    cases hone

theorem push_took {most width cap : ℕ} {write : Encoder ε Unit} (h : (p.push most width cap write).1 = .ok true) :
    ∃ one, encodeBody write width = .ok one := by
  unfold push at h
  by_cases hrows : p.rows ≥ most
  · rw [if_pos hrows] at h
    cases h
  · rw [if_neg hrows] at h
    cases hone : encodeBody write width with
    | error why =>
      simp only [hone] at h
      cases h
    | ok one => exact ⟨one, rfl⟩

theorem push_taken {most width cap : ℕ} {write : Encoder ε Unit} (hp : p.Holds d items) {i : Item} (hi : i.Legal d)
    (hwrite : ∀ out, encodeBody write width = .ok out ↔ out = i.spelling ∧ i.spelling.length ≤ width)
    (h : (p.push most width cap write).1 = .ok true) : (p.push most width cap write).2.Holds d (items ++ [i]) ∧
      (p.push most width cap write).2.rows ≤ most ∧ (p.push most width cap write).2.bytes.length ≤ cap := by
  unfold push at h ⊢
  split_ifs at h ⊢ with hrows
  · cases h
  cases hone : encodeBody write width with
  | error why =>
    simp only [hone] at h
    cases h
  | ok one =>
    obtain ⟨rfl, -⟩ := (hwrite one).mp hone
    simp only [hone] at h ⊢
    split_ifs at h ⊢ with hcap
    · cases h
    refine ⟨⟨?_, ?_, ?_⟩, by simp only; omega, ?_⟩
    · rw [hp.bytes, Item.spellAll_eq, Item.spellAll_eq, List.flatMap_append, List.flatMap_singleton]
    · rw [hp.rows, List.length_append, List.length_singleton]
    · intro j hj
      rcases List.mem_append.mp hj with hj | hj
      · exact hp.legal j hj
      · rw [List.mem_singleton.mp hj]
        exact hi
    · rw [List.length_append]
      omega

theorem copy_tells {items : List Item} (hlegal : ∀ i ∈ items, i.Legal maxDepth) {r : CborReader} (hr : AtTop 0 r)
    (hrest : r.rest = Item.spellAll items) :
    Tells (copy items.length r : Encoder ε Unit) (items.map fun i => .raw i.spelling) := by
  induction items generalizing r with
  | nil => exact .none
  | cons i items ih =>
    have hspell : r.rest = i.spelling ++ Item.spellAll items := hrest
    obtain ⟨hi, hlegal⟩ := List.forall_mem_cons.mp hlegal
    obtain ⟨r', hraw, hpast⟩ := raw_takes hr.1 hr.2.1 hi hspell
    have hask : (ask raw : Read ε Bytes) r = .ok (i.spelling, r') := by
      rw [ask, hraw]
    have hnext := atTop_queue.next 0 r r' i _ hr hi hspell hpast
    have hcopy := Tells.cons (c := .raw i.spelling) (ih hlegal hnext (past_rest hpast hspell))
    exact .check hask hcopy

theorem Holds.tells (h : p.Holds d items) (hd : d ≤ maxDepth) (hrows : p.rows < 2 ^ 64) :
    Tells (p.write : Encoder ε Unit) (.array (UInt64.ofNat p.rows) :: items.map fun i => .raw i.spelling) := by
  have hcount := Tells.call (ε := ε) (.array (UInt64.ofNat p.rows))
  rw [Call.write, UInt64.toNat_ofNat_of_lt' hrows] at hcount
  have hrest : (CborReader.new p.bytes).rest = Item.spellAll items := h.bytes
  have hcopy := copy_tells (ε := ε) (fun i hi => (h.legal i hi).mono hd) (new_atTop p.bytes 0) hrest
  rw [← h.rows] at hcopy
  exact hcount.append hcopy

end Packed

section

variable {κ : Type} [BodyKey κ]

def writePacked (count : UInt64) (before : List (κ × List Call)) (k : κ) (p : Packed) (after : List (κ × List Call)) :
    Encoder ε Unit := do
  tell (Call.map count).write
  writeEntries before
  tell (keyCall k).write
  p.write
  writeEntries after

theorem encode_packed {before after : List (κ × List Call)} {bs as : List (κ × Item)} {k : κ} {p : Packed}
    {items : List Item} (hbefore : Spelled 7 before bs) (hafter : Spelled 7 after as) (hp : p.Holds 6 items)
    (hrows : p.rows < 2 ^ 64) (hrise : Rising (bs ++ (k, .ofItems items) :: as)) {count : UInt64}
    (hcount : (bs ++ (k, .ofItems items) :: as).length = count.toNat) {dst : ℕ} {out : Bytes} :
    encodeBody (writePacked count before k p after : Encoder ε Unit) dst = .ok out ↔
      out = (bodyItem (bs ++ (k, .ofItems items) :: as)).spelling ∧
        (bodyItem (bs ++ (k, .ofItems items) :: as)).spelling.length ≤ dst := by
  have htells : Tells (writePacked count before k p after : Encoder ε Unit) (.map count :: entryCalls
      (before ++ (k, .array (UInt64.ofNat p.rows) :: items.map fun i => .raw i.spelling) :: after)) := by
    have hcalls : entryCalls (before ++ (k, .array (UInt64.ofNat p.rows) :: items.map fun i => .raw i.spelling) :: after) =
        entryCalls before ++ keyCall k :: ((.array (UInt64.ofNat p.rows) :: items.map fun i => .raw i.spelling) ++
          entryCalls after) := by
      simp [entryCalls]
    rw [hcalls]
    exact .cons ((writeEntries_tells before).append
      (.cons ((hp.tells (by decide) hrows).append (writeEntries_tells after))))
  have hspliced : Writes 7 (writeAll (.array (UInt64.ofNat p.rows) :: items.map fun i => .raw i.spelling))
      (.ofItems items) := by
    refine writes_spliced ?_ hp.legal
    rw [UInt64.toNat_ofNat_of_lt' hrows, hp.rows]
  have hspelled : Spelled 7
      (before ++ (k, .array (UInt64.ofNat p.rows) :: items.map fun i => .raw i.spelling) :: after)
      (bs ++ (k, .ofItems items) :: as) := List.rel_append hbefore (.cons ⟨rfl, hspliced⟩ hafter)
  exact encodeBody_item htells (bodyItem_writes hspelled hrise hcount)

end

end Km43.Cbor
