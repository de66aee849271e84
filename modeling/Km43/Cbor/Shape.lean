import Km43.Cbor.Calls
import Km43.Cbor.ReadsBox
import Km43.Cbor.Typed

namespace Km43.Cbor

open Library CborReader

variable {ε α σ : Type}

def slotted {α σ : Type} (value slot : Option α) (fill : Option α → σ) : Option σ :=
  value.bind fun v => if slot.isSome then none else some (fill (some v))

theorem slotted_some {α σ : Type} {value slot : Option α} {fill : Option α → σ} {s : σ} :
    slotted value slot fill = some s ↔ slot = none ∧ ∃ v, value = some v ∧ fill (some v) = s := by
  cases value <;> cases slot <;> simp [slotted]

theorem slotted_fills {α σ : Type} {has : σ → ℤ → Bool} {known : ℤ → Prop} {s s' : σ} {k : ℤ}
    {value slot : Option α} {fill : Option α → σ} (h : slotted value slot fill = some s')
    (hk : has s k = slot.isSome)
    (hother : ∀ v j, known j → has (fill (some v)) j = if j = k then true else has s j) :
    ¬has s k ∧ ∀ j, known j → (has s' j ↔ has s j ∨ j = k) := by
  obtain ⟨rfl, v, -, rfl⟩ := slotted_some.mp h
  refine ⟨by simp [hk], fun j hj => ?_⟩
  rw [hother v j hj]
  split_ifs with hjk <;> simp [hjk]

def u8Of (i : Item) : Option UInt8 := (i.uint 0xFF).map UInt8.ofNat
def u16Of (i : Item) : Option UInt16 := (i.uint 0xFFFF).map UInt16.ofNat
def u32Of (i : Item) : Option UInt32 := (i.uint 0xFFFFFFFF).map UInt32.ofNat

theorem slotField_reads {Bad : ε → Prop} {d : ℕ} {m : Read ε α} {f : Item → Option α} (hm : Reads Bad d m f)
    {twice : ε} (htwice : Bad twice) (slot : Option α) (fill : Option α → σ) :
    Reads Bad d (slotField m twice slot fill) (fun i => slotted (f i) slot fill) := by
  have hbad : ∀ a why, slotOnce twice slot a = .error why → Bad why := by
    intro a why h
    unfold slotOnce at h
    split_ifs at h
    cases h
    exact htwice
  have h := hm.andThen (slotOnce twice slot) (fun _ slot => fill slot) hbad
  have hspec : (fun i => slotted (f i) slot fill) =
      fun i => (f i).bind fun v => (slotOnce twice slot v).toOption.map fill := by
    funext i
    cases f i <;> cases slot <;> rfl
  rw [hspec]
  exact h

def textValue [FromCbor ε] : Read ε Str := do
  let raw ← ask text
  if h : isUtf8 raw = true then pure ⟨raw, h⟩ else throw (FromCbor.cbor .invalidUtf8)

def Item.str? : Item → Option Str
  | .text _ raw => if h : isUtf8 raw = true then some ⟨raw, h⟩ else none
  | _ => none

def utf8Checked [FromCbor ε] (raw : Bytes) : Except ε Str :=
  if h : isUtf8 raw = true then .ok ⟨raw, h⟩ else .error (FromCbor.cbor .invalidUtf8)

theorem textValue_checked [FromCbor ε] : (textValue : Read ε Str) =
    (ask text >>= fun raw => liftM (utf8Checked (ε := ε) raw)) := by
  unfold textValue utf8Checked
  refine congrArg _ (funext fun raw => ?_)
  split_ifs <;> rfl

theorem textValue_reads [FromCbor ε] {Bad : ε → Prop} {d : ℕ} (hbad : ∀ why, Bad (FromCbor.cbor why)) :
    Reads Bad d textValue Item.str? := by
  have hutf8 : ∀ (raw : Bytes) (why : ε), utf8Checked raw = .error why → Bad why := by
    intro raw why h
    unfold utf8Checked at h
    split_ifs at h
    cases h
    exact hbad _
  have h := (Reads.text (d := d) hbad).checked utf8Checked hutf8
  have hspec : Item.str? = fun i => (i.leaf?.bind fun h => (headText h).toOption).bind fun raw =>
      (utf8Checked (ε := ε) raw).toOption := by
    funext i
    cases i with
    | text w raw =>
      by_cases hraw : isUtf8 raw = true <;> simp [Item.str?, Item.leaf?, headText, utf8Checked, Except.toOption, hraw]
    | unsigned | negative | bytes | array | map | bool => rfl
  rw [hspec, textValue_checked]
  exact h

def AnyOrder (f : ℤ → σ → Item → Option σ) : Prop :=
  ∀ k j, k ≠ j → ∀ s v w, ((f k s v).bind fun s => f j s w) = (f j s w).bind fun s => f k s v

theorem foldPairs_swap {f : ℤ → σ → Item → Option σ} (hf : AnyOrder f) {p q : Key × Item} (hpq : p.1.rank ≠ q.1.rank)
    (rest : List (Key × Item)) (s : σ) : foldPairs f (p :: q :: rest) s = foldPairs f (q :: p :: rest) s := by
  obtain ⟨k, v⟩ := p
  obtain ⟨j, w⟩ := q
  cases hk : k.i64? with
  | none =>
    cases hj : j.i64? with
    | none => simp [foldPairs, hk, hj]
    | some b => cases f b s w <;> simp [foldPairs, hk, hj]
  | some a =>
    cases hj : j.i64? with
    | none => cases f a s v <;> simp [foldPairs, hk, hj]
    | some b =>
      have hne : a ≠ b := by
        intro hab
        rw [Key.i64?_some hk, Key.i64?_some hj] at hab
        exact hpq (Key.value_inj hab)
      have hswap := hf a b hne s v w
      simp only [foldPairs, hk, hj, Option.bind_some, ← Option.bind_assoc]
      rw [hswap]

theorem foldPairs_perm {f : ℤ → σ → Item → Option σ} (hf : AnyOrder f) {ps qs : List (Key × Item)}
    (h : ps.Perm qs) (hfresh : (ranks ps).Nodup) (s : σ) : foldPairs f ps s = foldPairs f qs s := by
  induction h generalizing s with
  | nil => rfl
  | cons p h ih =>
    have hrest : (ranks _).Nodup := (List.nodup_cons.mp hfresh).2
    simp only [foldPairs, ih hrest]
  | swap p q rest =>
    have hne : q.1.rank ≠ p.1.rank := by
      intro heq
      exact (List.nodup_cons.mp hfresh).1 (by simp [heq])
    exact foldPairs_swap hf hne rest s
  | trans h h' ih ih' =>
    have hmid : (ranks _).Nodup := (h.map fun p : Key × Item => p.1.rank).nodup_iff.mp hfresh
    rw [ih hfresh, ih' hmid]

def Unread (known : ℤ → Prop) (pairs : List (Key × Item)) : Prop :=
  ∀ p ∈ pairs, ∃ k, p.1.i64? = some k ∧ ¬known k

theorem foldPairs_unread {f : ℤ → σ → Item → Option σ} {known : ℤ → Prop}
    (hf : ∀ k s v, ¬known k → f k s v = some s) {pairs : List (Key × Item)} (h : Unread known pairs) (s : σ) :
    foldPairs f pairs s = some s := by
  induction pairs with
  | nil => rfl
  | cons p pairs ih =>
    obtain ⟨k, hk, hunknown⟩ := h p (by simp)
    have hrest := ih fun q hq => h q (by simp [hq])
    simp only [foldPairs, hk, Option.bind_some, hf k s p.2 hunknown, hrest]

theorem foldPairs_known {f : ℤ → σ → Item → Option σ} {known : ℤ → Prop} (hf : AnyOrder f)
    (hpass : ∀ k s v, ¬known k → f k s v = some s) {pairs here extra : List (Key × Item)}
    (hpairs : pairs.Perm (here ++ extra)) (hfresh : (ranks pairs).Nodup) (hextra : Unread known extra) (s : σ) :
    foldPairs f pairs s = foldPairs f here s := by
  rw [foldPairs_perm hf hpairs hfresh, foldPairs_append]
  have hunread : ∀ s, foldPairs f extra s = some s := foldPairs_unread hpass hextra
  cases foldPairs f here s with
  | none => rfl
  | some s' => exact hunread s'

def HasKey (pairs : List (Key × Item)) (k : ℤ) : Prop := ∃ p ∈ pairs, p.1.i64? = some k

theorem foldPairs_filled {f : ℤ → σ → Item → Option σ} {known : ℤ → Prop} {filled : σ → ℤ → Prop}
    {pass : ℤ → σ → σ} (hf : Fills f known filled pass) {pairs : List (Key × Item)} {s s' : σ}
    (h : foldPairs f pairs s = some s') {j : ℤ} (hj : known j) : filled s' j ↔ filled s j ∨ HasKey pairs j := by
  induction pairs generalizing s with
  | nil =>
    obtain rfl := Option.some.inj h
    simp [HasKey]
  | cons p pairs ih =>
    obtain ⟨k, hk, h⟩ := Option.bind_eq_some_iff.mp h
    obtain ⟨s₁, hs₁, h⟩ := Option.bind_eq_some_iff.mp h
    rw [ih h]
    have hcons : HasKey (p :: pairs) j ↔ j = k ∨ HasKey pairs j := by
      simp only [HasKey, List.mem_cons, or_and_right, exists_or, exists_eq_left, hk,
        Option.some.injEq]
      rw [eq_comm]
    rw [hcons]
    by_cases hknown : known k
    · rw [(hf.fills k s p.2 s₁ hknown hs₁).2 j hj, or_assoc]
    · rw [hf.passes k s p.2 hknown] at hs₁
      obtain rfl := Option.some.inj hs₁
      have hne : j ≠ k := by
        rintro rfl
        exact hknown hj
      rw [hf.passed k s hknown j hj]
      simp [hne]

theorem foldPairs_kept {f : ℤ → σ → Item → Option σ} {P : σ → Prop} (hf : ∀ k s i s', f k s i = some s' → P s → P s')
    {pairs : List (Key × Item)} {s s' : σ} (h : foldPairs f pairs s = some s') (hs : P s) : P s' := by
  induction pairs generalizing s with
  | nil =>
    obtain rfl := Option.some.inj h
    exact hs
  | cons p pairs ih =>
    obtain ⟨k, -, h⟩ := Option.bind_eq_some_iff.mp h
    obtain ⟨s₁, hs₁, h⟩ := Option.bind_eq_some_iff.mp h
    exact ih h (hf k s p.2 s₁ hs₁ hs)

section

variable {has : σ → ℤ → Bool} {fill : ℤ → Item → Option (σ → σ)} {known : ℤ → Prop} [DecidablePred known]

def slotStep (has : σ → ℤ → Bool) (fill : ℤ → Item → Option (σ → σ)) (known : ℤ → Prop) [DecidablePred known]
    (k : ℤ) (s : σ) (i : Item) : Option σ :=
  if known k then if has s k then none else (fill k i).map fun put => put s else some s

structure OwnSlots (has : σ → ℤ → Bool) (fill : ℤ → Item → Option (σ → σ)) (known : ℤ → Prop) : Prop where
  filled : ∀ k j i put s, known k → known j → fill k i = some put → has (put s) j = (decide (j = k) || has s j)
  swap : ∀ k j i i' put put' s, known k → known j → k ≠ j → fill k i = some put → fill j i' = some put' →
    put (put' s) = put' (put s)

theorem slotStep_unknown {k : ℤ} (hk : ¬known k) (s : σ) (i : Item) : slotStep has fill known k s i = some s :=
  if_neg hk

theorem slotStep_some {k : ℤ} (hk : known k) {s s' : σ} {i : Item} : slotStep has fill known k s i = some s' ↔
    has s k = false ∧ ∃ put, fill k i = some put ∧ put s = s' := by
  rw [slotStep, if_pos hk]
  cases has s k <;> simp

theorem slotStep_fills (h : OwnSlots has fill known) :
    Fills (slotStep has fill known) known (fun s k => has s k) fun _ s => s := by
  refine ⟨fun k s i s' hk hs => ?_, fun k s i hk => slotStep_unknown hk s i, fun _ _ _ _ _ => Iff.rfl⟩
  obtain ⟨hempty, put, hput, rfl⟩ := (slotStep_some hk).mp hs
  refine ⟨by simp [hempty], fun j hj => ?_⟩
  rw [h.filled k j i put s hk hj hput, Bool.or_eq_true, decide_eq_true_iff, or_comm]

theorem slotStep_order (h : OwnSlots has fill known) : AnyOrder (slotStep has fill known) := by
  intro k j hkj s v w
  by_cases hk : known k
  · by_cases hj : known j
    · simp only [slotStep, if_pos hk, if_pos hj]
      cases hv : fill k v with
      | none =>
        cases hw : fill j w with
        | none => cases has s k <;> cases has s j <;> rfl
        | some put' =>
          have hother := h.filled j k w put' s hj hk hw
          rw [decide_eq_false hkj, Bool.false_or] at hother
          cases hsk : has s k <;> cases hsj : has s j <;> simp [hother, hsk]
      | some put =>
        have hother := h.filled k j v put s hk hj hv
        rw [decide_eq_false (Ne.symm hkj), Bool.false_or] at hother
        cases hw : fill j w with
        | none => cases hsk : has s k <;> cases hsj : has s j <;> simp [hother, hsj]
        | some put' =>
          have hother' := h.filled j k w put' s hj hk hw
          rw [decide_eq_false hkj, Bool.false_or] at hother'
          have hswap := h.swap k j v w put put' s hk hj hkj hv hw
          cases hsk : has s k <;> cases hsj : has s j <;> simp [hother, hother', hsk, hsj, hswap]
    · simp only [slotStep_unknown hj, Option.bind_some, Option.bind_fun_some]
  · simp only [slotStep_unknown hk, Option.bind_some, Option.bind_fun_some]

theorem slotStep_reads {Bad : ε → Prop} {d : ℕ} {m : Read ε α} {f : Item → Option α} (hm : Reads Bad d m f)
    {twice : ε} (htwice : Bad twice) {k : ℤ} (hk : known k) {s : σ} {slot : Option α} {put : Option α → σ} {filled : α → σ → σ}
    (hslot : has s k = slot.isSome) (hfill : ∀ i, fill k i = (f i).map filled)
    (hput : ∀ v, filled v s = put (some v)) :
    Reads Bad d (slotField m twice slot put) (slotStep has fill known k s) := by
  have hspec : slotStep has fill known k s = fun i => slotted (f i) slot put := by
    funext i
    rw [slotStep, if_pos hk, hslot, hfill i]
    cases f i <;> cases slot <;> simp [slotted, hput]
  rw [hspec]
  exact slotField_reads hm htwice slot put

theorem slotStep_keeps [FromCbor ε] {Bad : ε → Prop} {d : ℕ} (hbad : ∀ why, Bad (FromCbor.cbor why)) {twice : ε}
    (htwice : Bad twice) {k : ℤ} (hk : known k) {s : σ} {slot : Option Bytes} {put : Option Bytes → σ}
    {filled : Bytes → σ → σ} (hslot : has s k = slot.isSome) (hfill : ∀ i, fill k i = some (filled i.spelling))
    (hput : ∀ v, filled v s = put (some v)) :
    Watched Bad d (slotField (ask raw) twice slot put) (slotStep has fill known k s) (has s k)
      fun item => put (some item) := by
  constructor
  · intro hmet r
    rw [hslot] at hmet
    have htwice' : ∀ item, slotOnce twice slot item = .error twice := fun item => if_pos hmet
    rw [slotField, bind_apply, ask]
    cases CborReader.raw r with
    | error why => exact ⟨_, rfl, hbad why⟩
    | ok p =>
      dsimp only
      rw [htwice']
      exact ⟨twice, rfl, htwice⟩
  · intro hmet r hr
    rw [hslot] at hmet
    have hfirst : ∀ item, slotOnce twice slot item = .ok (some item) := fun item => if_neg hmet
    rw [slotField, bind_apply, hr.raw_passing, passing, passing]
    cases CborReader.skip r with
    | error why => rfl
    | ok p =>
      dsimp only
      rw [hfirst]
      rfl
  · intro hmet i
    rw [slotStep, if_pos hk, if_neg hmet, hfill i, Option.map_some, hput]

end

end Km43.Cbor
