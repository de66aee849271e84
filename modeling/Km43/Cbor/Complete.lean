import Km43.Cbor.Carried
import Km43.Cbor.Cells

namespace Km43.Cbor

open Library CborReader CborWriter

namespace Codec

variable {ε α : Type} [FromCbor ε]

theorem bool_reads (d : ℕ) : Reads (fun _ : ε => True) d (ask CborReader.bool) Item.bool? := .bool fun _ => trivial

theorem bool_writes (d : ℕ) (b : Bool) (_ : True) : Writes d (writeAll [.bool b]) (.bool b) := writes_one rfl

theorem bool_legal (d : ℕ) (b : Bool) (_ : True) : (Item.bool b).Legal d := Item.bool_legal

theorem bool_back (b : Bool) (_ : True) : (Item.bool b).bool? = some b := rfl

def bool : Codec ε Bool where
  read := ask CborReader.bool
  calls b := [.bool b]
  may _ := True
  item := Item.bool?
  spell := .bool
  reads := bool_reads
  writes := bool_writes
  legal := bool_legal
  back := bool_back
  sound := any

end Codec

theorem Tells.entry {ε κ : Type} [FromCbor ε] [BodyKey κ] (k : κ) (c : Call) :
    Tells ((do tell (CborWriter.key (BodyKey.number k)); tell c.write) : Encoder ε Unit) [keyCall k, c] := by
  rw [← keyCall_toInt k]
  exact .cons (c := keyCall k) (.call c)

theorem Tells.entryCons {ε κ : Type} [FromCbor ε] [BodyKey κ] (k : κ) (c : Call) {m : Encoder ε Unit} {xs : List Call}
    (h : Tells m xs) : Tells (do tell (CborWriter.key (BodyKey.number k)); tell c.write; m) (keyCall k :: c :: xs) := by
  rw [← keyCall_toInt k]
  exact .cons (c := keyCall k) (.cons h)

section

variable {ε κ : Type} [FromCbor ε] {Value : κ → Type} {codec : ∀ k, Codec ε (Value k)}
  {all : List κ} {v : ∀ k, Value k} {twice : κ → ε}

def fullItems (codec : ∀ k, Codec ε (Value k)) (all : List κ) (v : ∀ k, Value k) : List (κ × Item) :=
  all.map fun k => (k, (codec k).spell (v k))

def fullCalls (codec : ∀ k, Codec ε (Value k)) (all : List κ) (v : ∀ k, Value k) : List (κ × List Call) :=
  all.map fun k => (k, (codec k).calls (v k))

theorem fullItems_spelled (hmay : ∀ k, (codec k).may (v k)) (d : ℕ) :
    Spelled d (fullCalls codec all v) (fullItems codec all v) := by
  unfold Spelled fullCalls fullItems
  rw [List.forall₂_map_left_iff, List.forall₂_map_right_iff, List.forall₂_same]
  intro k _
  exact ⟨rfl, (codec k).writes d _ (hmay k)⟩

theorem fullItems_rising [BodyKey κ] (h : InOrder all) : Rising (fullItems codec all v) := List.pairwise_map.mpr h.rising

theorem fullItems_legal (hmay : ∀ k, (codec k).may (v k)) (d : ℕ) : ∀ e ∈ fullItems codec all v, e.2.Legal d := by
  intro e he
  obtain ⟨k, -, rfl⟩ := List.mem_map.mp he
  exact (codec k).legal d _ (hmay k)

theorem fullItems_taken (hmay : ∀ k, (codec k).may (v k)) :
    ∀ e ∈ fullItems codec all v, (codec e.1).item e.2 = some (v e.1) ∧ (some (v e.1)).isSome := by
  intro e he
  obtain ⟨k, -, rfl⟩ := List.mem_map.mp he
  exact ⟨(codec k).back _ (hmay k), rfl⟩

theorem fullItems_rest [BodyKey κ] (h : InOrder all) {k : κ} (hk : k ∉ (fullItems codec all v).map Prod.fst) :
    some (v k) = none :=
  absurd (List.mem_map.mpr ⟨(k, (codec k).spell (v k)), List.mem_map.mpr ⟨k, h.complete k, rfl⟩, rfl⟩) hk

theorem full_decodes [DecidableEq κ] [BodyKey κ] (codec : ∀ k, Codec ε (Value k)) (twice : κ → ε) :
    (Table.ofCodecs codec twice).Decodes fun k => (codec k).item := Table.decodes fun k => (codec k).reads 7

theorem fullItems_decode [DecidableEq κ] [BodyKey κ] (h : InOrder all) (hmay : ∀ k, (codec k).may (v k)) :
    decodeBody (Table.ofCodecs codec twice).slots (bodyItem (fullItems codec all v)).spelling =
      .ok fun k => some (v k) :=
  (full_decodes codec twice).entries (fullItems_rising h) (fullItems_legal hmay 7) (fullItems_taken hmay)
    fun _ => fullItems_rest h

theorem stands_full [BodyKey κ] (codec : ∀ k, Codec ε (Value k)) (twice : κ → ε) (v : ∀ k, Value k) (payload : Bytes) :
    Table.Stands (t := Table.ofCodecs codec twice) (fun k => (codec k).item)
      (fun k => some (v k)) payload ↔
    ∃ w ps, (Item.map w ps).Legal maxDepth ∧ (Item.map w ps).spelling = payload ∧ Keyed ps ∧
      ∀ k, Holds ps (BodyKey.number k) (codec k).item (v k) :=
  Table.stands_iff fun _ _ _ => forall_congr' fun _ => Table.slotOf_holds rfl

theorem fullItems_length [BodyKey κ] {width : κ → ℕ} (hfew : all.length < 256)
    (h : ∀ k, (Key.ofNat (BodyKey.number k)).spelling.length + ((codec k).spell (v k)).spelling.length ≤ width k) :
    (bodyItem (fullItems codec all v)).spelling.length ≤ 2 + (all.map width).sum := by
  have hhead : (Token.map (Width.of (keyedPairs (fullItems codec all v)).length)
      (keyedPairs (fullItems codec all v)).length).spelling.length ≤ 2 := by
    have hlen : (keyedPairs (fullItems codec all v)).length = all.length := by simp [keyedPairs, fullItems]
    rw [hlen]
    exact (headBytes_le .map).2.2.2.1 (Nat.le_of_lt_succ hfew)
  have hpairs : (Item.spellPairs (keyedPairs (fullItems codec all v))).length ≤ (all.map width).sum := by
    clear hhead hfew
    induction all with
    | nil => exact le_rfl
    | cons k all ih =>
      have hk := h k
      change (Item.spellPairs ((Key.ofNat (BodyKey.number k), (codec k).spell (v k)) ::
        keyedPairs (fullItems codec all v))).length ≤ width k + (all.map width).sum
      rw [Item.spellPairs, List.length_append, List.length_append]
      omega
  rw [bodyItem, Item.ofPairs, Item.spelling, List.length_append]
  exact Nat.add_le_add hhead hpairs

end

def OnlyKeys (κ : Type) [BodyKey κ] (pairs : List (Key × Item)) : Prop :=
  ∀ p ∈ pairs, ∃ k : κ, p.1.i64? = some (BodyKey.number k : ℤ)

namespace Table

variable {ε κ : Type} [DecidableEq κ] [BodyKey κ] (t : Table ε κ)

def closedStep [FromCbor ε] (unknown : ℤ → ε) (n : ℤ) (s : t.Slots) : Read ε t.Slots :=
  match BodyKey.of (κ := κ) n with
  | some k => slotField (t.read k) (t.twice k) (s k) (Function.update s k)
  | .none => throw (unknown n)

def closedPairs [FromCbor ε] (unknown : ℤ → ε) (n : ℕ) : Read ε t.Slots := pairLoop (t.closedStep unknown) n t.none

variable {t} {item : ∀ k, Item → Option (t.Value k)}

def closedTake (item : ∀ k, Item → Option (t.Value k)) (n : ℤ) (s : t.Slots) (i : Item) : Option t.Slots :=
  (BodyKey.of (κ := κ) n).bind fun _ => take item n s i

theorem closedTake_known (k : κ) (s : t.Slots) (i : Item) :
    closedTake item (BodyKey.number k) s i = take item (BodyKey.number k) s i := by
  rw [closedTake, (BodyKey.of_iff _ _).mpr rfl, Option.bind_some]

theorem closed_fold {pairs : List (Key × Item)} {s s' : t.Slots} :
    foldPairs (closedTake item) pairs s = some s' ↔ foldPairs (take item) pairs s = some s' ∧ OnlyKeys κ pairs := by
  induction pairs generalizing s with
  | nil => simp [foldPairs, OnlyKeys]
  | cons p pairs ih =>
    obtain ⟨key, v⟩ := p
    rw [OnlyKeys, List.forall_mem_cons]
    constructor
    · intro h
      obtain ⟨n, hkey, hstep⟩ := Option.bind_eq_some_iff.mp h
      obtain ⟨s₁, hclosed, hfold⟩ := Option.bind_eq_some_iff.mp hstep
      obtain ⟨k, hk, htake⟩ := Option.bind_eq_some_iff.mp hclosed
      obtain rfl := (BodyKey.of_iff n k).mp hk
      obtain ⟨hfold, hrest⟩ := ih.mp hfold
      exact ⟨Option.bind_eq_some_iff.mpr ⟨_, hkey, Option.bind_eq_some_iff.mpr ⟨s₁, htake, hfold⟩⟩, ⟨k, hkey⟩, hrest⟩
    · rintro ⟨h, ⟨k, hk⟩, hrest⟩
      obtain ⟨n, hkey, hstep⟩ := Option.bind_eq_some_iff.mp h
      obtain rfl : n = BodyKey.number k := Option.some.inj (hkey.symm.trans hk)
      obtain ⟨s₁, htake, hfold⟩ := Option.bind_eq_some_iff.mp hstep
      refine Option.bind_eq_some_iff.mpr ⟨_, hkey, Option.bind_eq_some_iff.mpr ⟨s₁, ?_, ih.mpr ⟨hfold, hrest⟩⟩⟩
      rw [closedTake_known, htake]

theorem closed_fills : Fills (closedTake item) (fun _ => True) t.Filled fun _ s => s := by
  refine ⟨?_, fun _ _ _ h => absurd trivial h, fun _ _ h => absurd trivial h⟩
  intro n s i s' _ h
  obtain ⟨k, hk, h⟩ := Option.bind_eq_some_iff.mp h
  obtain rfl := (BodyKey.of_iff n k).mp hk
  obtain ⟨hempty, hfilled⟩ := fills.fills _ s i s' ⟨k, rfl⟩ h
  refine ⟨hempty, fun j _ => ?_⟩
  by_cases hj : t.Known j
  · exact hfilled j hj
  · -- a number that is no key's is never filled
    have hnone : ∀ s : t.Slots, ¬t.Filled s j := by
      rintro s ⟨k', hk', -⟩
      exact hj ⟨k', hk'⟩
    have hne : j ≠ BodyKey.number k := fun h => hj ⟨k, h⟩
    simp [hnone, hne]

variable [FromCbor ε] {d : ℕ} {unknown : ℤ → ε}

theorem closed_steps (hreads : ∀ k, Reads (fun _ => True) d (t.read k) (item k)) :
    Steps (fun _ => True) d (t.closedStep unknown) (closedTake item) (fun _ => True) fun _ s => s := by
  refine ⟨?_, fun _ _ h => absurd trivial h⟩
  intro n s _
  unfold closedStep closedTake
  cases hn : BodyKey.of (κ := κ) n with
  | none => exact ⟨fun _ _ => trivial, fun _ _ => .inr ⟨fun _ _ _ => rfl, trivial⟩⟩
  | some k =>
    obtain rfl := (BodyKey.of_iff n k).mp hn
    have htake : (fun i => (some k).bind fun _ => take item (BodyKey.number k) s i) =
        fun i => slotted (item k i) (s k) (Function.update s k) := by
      funext i
      exact take_known k s i
    rw [htake]
    exact slotField_reads (hreads k) trivial (s k) _

end Table

end Km43.Cbor
