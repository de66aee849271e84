import Km43.Cbor.Entries

namespace Km43.Cbor

open Library Library.StepParser CborReader

theorem slotField_ok {ε α σ : Type} {read : Read ε α} {twice : ε} {slot : Option α} {fill : Option α → σ}
    {r r' : CborReader} {s : σ} : slotField read twice slot fill r = .ok (s, r') ↔
      ∃ v, read r = .ok (v, r') ∧ slot = .none ∧ s = fill (some v) := by
  unfold slotField
  rw [bind_apply]
  cases read r with
  | error why => simp
  | ok p =>
    obtain ⟨v, r₁⟩ := p
    cases slot with
    | some w =>
      constructor
      · rintro ⟨⟩
      · rintro ⟨_, -, ⟨⟩, -⟩
    | none =>
      constructor
      · rintro ⟨⟩
        exact ⟨v, rfl, rfl, rfl⟩
      · rintro ⟨_, ⟨⟩, -, rfl⟩
        rfl

namespace Table

variable {ε κ : Type} [FromCbor ε] {t : Table ε κ}

/-- How an arm comes by its value: read as it stands, or taken as the bytes of a whole item and judged at once. -/
inductive Arm (t : Table ε κ) (d : ℕ) (item : ∀ k, Item → Option (t.Value k)) (k : κ)
  | typed (reads : Reads (fun _ => True) d (t.read k) (item k))
  | kept (check : Bytes → Except ε (t.Value k)) (read : t.read k = checkedRead (ask raw) check)
      (takes : ∀ i, item k i = (check i.spelling).toOption)

namespace Arm

variable {d : ℕ} {item : ∀ k, Item → Option (t.Value k)} {k : κ}

/-- The arm with its judgement kept for later: a value that failed it is held as none. -/
def late : t.Arm d item k → Read ε (Option (t.Value k))
  | typed _ => do
    let v ← t.read k
    pure (some v)
  | kept check _ _ => do
    let bytes ← ask raw
    pure (check bytes).toOption

def lateItem : t.Arm d item k → Item → Option (Option (t.Value k))
  | typed _, i => (item k i).map some
  | kept _ _ _, i => some (item k i)

theorem late_ok (arm : t.Arm d item k) {r r' : CborReader} {v : t.Value k} :
    t.read k r = .ok (v, r') ↔ arm.late r = .ok (some v, r') := by
  cases arm with
  | typed _ =>
    rw [late, bind_run_ok]
    constructor
    · intro h
      exact ⟨v, r', h, rfl⟩
    · rintro ⟨a, t', h, ⟨⟩⟩
      exact h
  | kept check hread _ =>
    rw [hread, late, checkedRead, bind_run_ok, bind_run_ok]
    apply exists_congr
    intro bytes
    apply exists_congr
    intro t'
    apply and_congr_right
    intro _
    rw [lift_ok]
    cases check bytes with
    | error why =>
      constructor
      · rintro ⟨⟨⟩, -⟩
      · rintro ⟨⟩
    | ok a =>
      constructor
      · rintro ⟨⟨⟩, rfl⟩
        rfl
      · rintro ⟨⟩
        exact ⟨rfl, rfl⟩

theorem lateItem_some (arm : t.Arm d item k) {i : Item} {v : t.Value k} :
    arm.lateItem i = some (some v) ↔ item k i = some v := by
  cases arm with
  | typed _ => simp [lateItem]
  | kept _ _ _ => simp [lateItem]

end Arm

variable {d : ℕ} {item : ∀ k, Item → Option (t.Value k)}

def late (arms : ∀ k, t.Arm d item k) : Table ε κ where
  Value k := Option (t.Value k)
  read k := (arms k).late
  twice := t.twice

def lateItem (arms : ∀ k, t.Arm d item k) (k : κ) : Item → Option ((t.late arms).Value k) := (arms k).lateItem

variable {arms : ∀ k, t.Arm d item k}

theorem kept_watched {k : κ} (check : Bytes → Except ε (t.Value k)) (slot : Option (Option (t.Value k)))
    {σ : Type} (fill : Option (Option (t.Value k)) → σ) :
    Watched (fun _ => True) d
      (slotField (do let bytes ← ask raw; pure (check bytes).toOption : Read ε _) (t.twice k) slot fill)
      (fun i => slotted (some (check i.spelling).toOption) slot fill) slot.isSome
      (fun bytes => fill (some (check bytes).toOption)) := by
  refine ⟨?_, ?_, ?_⟩
  · intro hfull r
    obtain ⟨v, rfl⟩ := Option.isSome_iff_exists.mp hfull
    unfold slotField
    rw [bind_assoc, bind_apply]
    cases (ask raw : Read ε Bytes) r with
    | error why => exact ⟨why, rfl, trivial⟩
    | ok p => exact ⟨t.twice k, rfl, trivial⟩
  · intro hempty r hr
    obtain rfl : slot = .none := by simpa using hempty
    unfold slotField
    rw [bind_assoc, bind_apply, hr.raw_passing]
    unfold passing
    cases skip r with
    | error why => rfl
    | ok p => rfl
  · intro hempty i
    obtain rfl : slot = .none := by simpa using hempty
    rfl

def Judged (late : (t.late arms).Slots) (s : t.Slots) : Prop := ∀ k, late k = (s k).map some

theorem Judged.empty {late : (t.late arms).Slots} {s : t.Slots} (h : Judged late s) {k : κ} :
    late k = .none ↔ s k = .none := by
  rw [h k]
  exact Option.map_eq_none_iff

variable [DecidableEq κ]

theorem Judged.update {late : (t.late arms).Slots} {s : t.Slots} (h : Judged late s) (k : κ) (v : t.Value k) :
    Judged (Function.update late k (some (some v))) (Function.update s k (some v)) := by
  intro j
  by_cases hj : j = k
  · subst hj
    rw [Function.update_self, Function.update_self]
    rfl
  · rw [Function.update_of_ne hj, Function.update_of_ne hj]
    exact h j

variable [BodyKey κ]

theorem late_watches : Watches (fun _ => True) d (t.late arms).step (take (lateItem arms)) (t.late arms).Known
    (t.late arms).Filled fun _ s => s := by
  constructor
  · rintro n s ⟨k, rfl⟩
    have hstep : (t.late arms).step (BodyKey.number k) s =
        slotField (arms k).late (t.twice k) (s k) (Function.update s k) := by
      rw [step, (BodyKey.of_iff _ _).mpr rfl]
      rfl
    have htake : take (lateItem arms) (BodyKey.number k) s =
        fun i => slotted ((arms k).lateItem i) (s k) (Function.update s k) := by
      funext i
      exact take_known k s i
    rw [hstep, htake]
    cases arms k with
    | typed hreads => exact .inl (slotField_reads (hreads.mapped some) trivial (s k) _)
    | kept check hread htakes =>
      have hitem : (fun i => slotted ((Arm.kept (d := d) check hread htakes).lateItem i) (s k) (Function.update s k)) =
          fun i => slotted (some (check i.spelling).toOption) (s k) (Function.update s k) := by
        funext i
        rw [Arm.lateItem, htakes]
      have hmet : (t.late arms).Filled s (BodyKey.number k) = ((s k).isSome = true) := propext filled_number
      have hwatched := kept_watched (t := t) (d := d) check (s k) (Function.update s k)
      rw [hitem, hmet]
      exact .inr ⟨_, hwatched⟩
  · intro n s hn
    unfold step
    cases h : BodyKey.of (κ := κ) n with
    | none => rfl
    | some k => exact absurd ⟨k, (BodyKey.of_iff _ _).mp h⟩ hn

theorem late_decodes {arms : ∀ k, t.Arm 7 item k} : (t.late arms).Decodes (lateItem arms) :=
  decodes_of (Reads.watchedMapFrom (fun _ => trivial) late_watches fills fun n _ => none_filled n)

theorem step_known {k : κ} {s s' : t.Slots} {r r' : CborReader} : t.step (BodyKey.number k) s r = .ok (s', r') ↔
    ∃ v, t.read k r = .ok (v, r') ∧ s k = .none ∧ s' = Function.update s k (some v) := by
  have hstep : t.step (BodyKey.number k) s = slotField (t.read k) (t.twice k) (s k) (Function.update s k) := by
    rw [step, (BodyKey.of_iff _ _).mpr rfl]
  rw [hstep, slotField_ok]

theorem step_unknown {n : ℤ} (hn : ¬t.Known n) (s : t.Slots) : t.step n s = passOver s := by
  unfold step
  cases h : BodyKey.of (κ := κ) n with
  | none => rfl
  | some k => exact absurd ⟨k, (BodyKey.of_iff _ _).mp h⟩ hn

theorem passOver_ok {σ : Type} {s s' : σ} {r r' : CborReader} : (passOver s : Read ε σ) r = .ok (s', r') ↔
    (ask skip : Read ε Unit) r = .ok ((), r') ∧ s' = s := by
  unfold passOver
  rw [bind_apply]
  cases (ask skip : Read ε Unit) r with
  | error why => simp
  | ok p =>
    obtain ⟨⟨⟩, r₁⟩ := p
    constructor
    · rintro ⟨⟩
      exact ⟨rfl, rfl⟩
    · rintro ⟨⟨⟩, rfl⟩
      rfl

theorem pairs_keep {n : ℕ} {s s' : t.Slots} {r r' : CborReader} (h : pairLoop t.step n s r = .ok (s', r')) {k : κ}
    {v : t.Value k} (hk : s k = some v) : s' k = some v := by
  induction n generalizing s r with
  | zero =>
    cases h
    exact hk
  | succ n ih =>
    obtain ⟨number, r₁, -, h⟩ := bind_run_ok.mp h
    obtain ⟨s₁, r₂, hstep, h⟩ := bind_run_ok.mp h
    refine ih h ?_
    by_cases hknown : t.Known number
    · obtain ⟨j, rfl⟩ := hknown
      obtain ⟨value, -, hempty, rfl⟩ := step_known.mp hstep
      have hne : k ≠ j := by
        rintro rfl
        rw [hk] at hempty
        cases hempty
      rw [Function.update_of_ne hne]
      exact hk
    · rw [step_unknown hknown] at hstep
      obtain ⟨-, rfl⟩ := passOver_ok.mp hstep
      exact hk

theorem pairs_late {n : ℕ} {late : (t.late arms).Slots} {s out : t.Slots} {r r' : CborReader} (hs : Judged late s) :
    pairLoop t.step n s r = .ok (out, r') ↔
      ∃ lateOut, pairLoop (t.late arms).step n late r = .ok (lateOut, r') ∧ Judged lateOut out := by
  induction n generalizing late s r with
  | zero =>
    constructor
    · rintro ⟨⟩
      exact ⟨late, rfl, hs⟩
    · rintro ⟨lateOut, ⟨⟩, hout⟩
      have hsame : s = out := by
        funext k
        exact Option.map_injective (Option.some_injective _) ((hs k).symm.trans (hout k))
      rw [hsame]
      rfl
  | succ n ih =>
    simp only [pairLoop, bind_run_ok]
    constructor
    · rintro ⟨number, r₁, hkey, s₁, r₂, hstep, hloop⟩
      by_cases hknown : t.Known number
      · obtain ⟨k, rfl⟩ := hknown
        obtain ⟨v, hread, hempty, rfl⟩ := step_known.mp hstep
        obtain ⟨lateOut, hlate, hout⟩ := (ih (hs.update k v)).mp hloop
        have hlateStep := (step_known (t := t.late arms)).mpr ⟨some v, (arms k).late_ok.mp hread, hs.empty.mpr hempty, rfl⟩
        exact ⟨lateOut, ⟨_, r₁, hkey, _, r₂, hlateStep, hlate⟩, hout⟩
      · rw [step_unknown hknown] at hstep
        obtain ⟨hskip, rfl⟩ := passOver_ok.mp hstep
        obtain ⟨lateOut, hlate, hout⟩ := (ih hs).mp hloop
        have hpass : (t.late arms).step number late r₁ = .ok (late, r₂) := by
          rw [step_unknown (t := t.late arms) hknown]
          exact passOver_ok.mpr ⟨hskip, rfl⟩
        exact ⟨lateOut, ⟨_, r₁, hkey, _, r₂, hpass, hlate⟩, hout⟩
    · rintro ⟨lateOut, ⟨number, r₁, hkey, late₁, r₂, hstep, hloop⟩, hout⟩
      by_cases hknown : t.Known number
      · obtain ⟨k, rfl⟩ := hknown
        obtain ⟨v, hread, hempty, rfl⟩ := (step_known (t := t.late arms)).mp hstep
        have hheld := pairs_keep hloop (Function.update_self k (some v) late)
        -- A value that failed its judgement would be held to the end.
        cases v with
        | none =>
          rw [hout k] at hheld
          obtain ⟨w, -, hw⟩ := Option.map_eq_some_iff.mp hheld
          cases hw
        | some v =>
          have hstep' := (step_known (t := t)).mpr ⟨v, (arms k).late_ok.mpr hread, hs.empty.mp hempty, rfl⟩
          exact ⟨_, r₁, hkey, _, r₂, hstep', (ih (hs.update k v)).mpr ⟨lateOut, hloop, hout⟩⟩
      · rw [step_unknown (t := t.late arms) hknown] at hstep
        obtain ⟨hskip, rfl⟩ := passOver_ok.mp hstep
        have hpass : t.step number s r₁ = .ok (s, r₂) := by
          rw [step_unknown hknown]
          exact passOver_ok.mpr ⟨hskip, rfl⟩
        exact ⟨_, r₁, hkey, _, r₂, hpass, (ih hs).mpr ⟨lateOut, hloop, hout⟩⟩

omit [DecidableEq κ] in
theorem slotOf_late {ps : List (Key × Item)} {late : (t.late arms).Slots} {s : t.Slots} (hs : Judged late s) (k : κ) :
    SlotOf (lateItem arms) ps late k ↔ SlotOf item ps s k := by
  unfold SlotOf
  cases valueAt ps (BodyKey.number k : ℤ) with
  | none => exact hs.empty
  | some i =>
    have hlate := hs k
    cases hk : s k with
    | none =>
      rw [hk] at hlate
      rw [hs.empty.mpr hk]
      exact ⟨fun h => absurd h.2 (by simp), fun h => absurd h.2 (by simp)⟩
    | some v =>
      rw [hk, Option.map_some] at hlate
      rw [hlate]
      exact ⟨fun h => ⟨(arms k).lateItem_some.mp h.1, rfl⟩, fun h => ⟨(arms k).lateItem_some.mpr h.1, rfl⟩⟩

theorem arms_decode (arms : ∀ k, t.Arm 7 item k) : t.Decodes item := by
  intro payload s
  have hjudged : @Judged _ _ _ t 7 item arms (fun k => (s k).map some) s := fun _ => rfl
  have hbody : decodeBody t.slots payload = .ok s ↔
      ∃ late, decodeBody (t.late arms).slots payload = .ok late ∧ Judged late s := by
    unfold decodeBody slots pairs
    simp only [bind_ok, bind_run_ok, Prod.exists, Except.ok.injEq]
    constructor
    · rintro ⟨out, r, ⟨n, r₁, hmap, hpairs⟩, u, hfinish, rfl⟩
      have hnone : Judged (t.late arms).none t.none := fun _ => rfl
      obtain ⟨late, hlate, hout⟩ := (pairs_late hnone).mp hpairs
      exact ⟨late, ⟨_, r, ⟨n, r₁, hmap, hlate⟩, u, hfinish, rfl⟩, hout⟩
    · rintro ⟨late, ⟨out, r, ⟨n, r₁, hmap, hpairs⟩, u, hfinish, rfl⟩, hout⟩
      exact ⟨_, r, ⟨n, r₁, hmap, (pairs_late fun _ => rfl).mpr ⟨_, hpairs, hout⟩⟩, u, hfinish, rfl⟩
  rw [hbody]
  constructor
  · rintro ⟨late, hlate, hs⟩
    obtain ⟨w, ps, hi, hspell, hkeyed, hslots⟩ := (late_decodes payload late).mp hlate
    exact ⟨w, ps, hi, hspell, hkeyed, fun k => (slotOf_late hs k).mp (hslots k)⟩
  · rintro ⟨w, ps, hi, hspell, hkeyed, hslots⟩
    refine ⟨_, (late_decodes payload _).mpr ⟨w, ps, hi, hspell, hkeyed, fun k => ?_⟩, hjudged⟩
    exact (slotOf_late hjudged k).mpr (hslots k)

end Table

end Km43.Cbor
