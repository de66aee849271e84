import Km43.Cbor.Cells

namespace Km43.Cbor

open Library CborReader CborWriter

section

variable {κ α β : Type}

def entryOf (k : κ) (slot : Option α) (f : α → β) : List (κ × β) := slot.toList.map fun a => (k, f a)

@[simp] theorem entry_none (k : κ) (f : α → β) : entryOf k none f = [] := rfl

@[simp] theorem entry_some (k : κ) (a : α) (f : α → β) : entryOf k (some a) f = [(k, f a)] := rfl

theorem entry_mem {k : κ} {slot : Option α} {f : α → β} {e : κ × β} :
    e ∈ entryOf k slot f ↔ ∃ a, slot = some a ∧ e = (k, f a) := by
  cases slot <;> simp [entryOf]

theorem entry_length (k : κ) (slot : Option α) (f : α → β) : (entryOf k slot f).length = slot.isSome.toNat := by
  cases slot <;> rfl

theorem entry_spelling (k : κ) (slot : Option α) {f : α → Item} {c : ℕ} (h : ∀ a, (f a).spelling.length ≤ c) :
    ((entryOf k slot f).map fun e => 1 + e.2.spelling.length).sum ≤ 1 + c := by
  cases slot with
  | none => exact Nat.zero_le _
  | some a => simpa using h a

end

section

variable {ε κ α β : Type} [FromCbor ε] [BodyKey κ]

theorem ofInt_length (value : Int32) : (Item.ofInt value).spelling.length ≤ 5 := by
  have hlow := value.le_toInt
  have hhigh := value.toInt_lt
  unfold Item.ofInt
  split_ifs
  · exact (headBytes_le .negative).2.1 (by omega)
  · exact (headBytes_le .unsigned).2.1 (by omega)

omit [BodyKey κ] in
theorem Spelled.maybe {d : ℕ} (k : κ) {slot : Option α} {calls : α → List Call} {item : α → Item}
    (h : ∀ a, slot = some a → Writes d (writeAll (calls a)) (item a)) :
    Spelled d (entryOf k slot calls) (entryOf k slot item) := by
  cases slot with
  | none => exact .nil
  | some a => exact .cons ⟨rfl, h a rfl⟩ .nil

theorem key_tells (k : κ) : Tells (tell (CborWriter.key (BodyKey.number k)) : Encoder ε Unit) [keyCall k] := by
  have hcall := Tells.call (ε := ε) (keyCall k)
  rwa [keyCall, Call.write, keyCall_toInt] at hcall

theorem Tells.maybe (k : κ) {slot : Option α} {m : α → Encoder ε Unit} {calls : α → List Call}
    (h : ∀ a, slot = some a → Tells (m a) (calls a)) :
    Tells (Cbor.whenSome slot fun a => do
      tell (CborWriter.key (BodyKey.number k))
      m a) (entryCalls (entryOf k slot calls)) := by
  cases slot with
  | none => exact .none
  | some a =>
    rw [entryCalls, entryOf, Option.toList_some, List.map_singleton, List.flatMap_singleton]
    exact (key_tells k).append (h a rfl)

theorem entryCalls_append (xs ys : List (κ × List Call)) : entryCalls (xs ++ ys) = entryCalls xs ++ entryCalls ys :=
  List.flatMap_append

end

section

variable {κ : Type} [BodyKey κ] {items : List (κ × Item)}

theorem key_i64 (k : κ) : (Key.ofNat (BodyKey.number k)).i64? = some (BodyKey.number k : ℤ) := by
  have hsmall := BodyKey.small k
  exact Key.ofNat_i64 (by unfold i64Max; omega)

theorem keyedPairs_keyed (items : List (κ × Item)) : Keyed (keyedPairs items) := by
  intro p hp
  obtain ⟨e, -, rfl⟩ := List.mem_map.mp hp
  rw [key_i64]
  rfl

theorem keyedPairs_value (hfresh : (ranks (keyedPairs items)).Nodup) (n : ℤ) (i : Item) :
    valueAt (keyedPairs items) n = some i ↔ ∃ e ∈ items, (BodyKey.number e.1 : ℤ) = n ∧ e.2 = i := by
  rw [valueAt_some hfresh]
  constructor
  · rintro ⟨k, hk, hmem⟩
    obtain ⟨e, he, heq⟩ := List.mem_map.mp hmem
    obtain ⟨rfl, rfl⟩ := Prod.mk.inj heq
    rw [key_i64, Option.some.injEq] at hk
    exact ⟨e, he, hk, rfl⟩
  · rintro ⟨e, he, rfl, rfl⟩
    exact ⟨_, key_i64 e.1, List.mem_map_of_mem he⟩

end

variable {ε : Type} [FromCbor ε]

theorem skip_raw {r r' : CborReader} {one : Bytes} (h : CborReader.raw r = .ok (one, r')) :
    CborReader.skip r = .ok ((), r') := by
  obtain ⟨⟨⟨⟩, walked⟩, hskip, h⟩ := bind_ok.mp h
  rw [hskip]
  cases hslice : slice walked.bytes r.next walked.next with
  | none =>
    simp only [hslice] at h
    cases h
  | some taken =>
    simp only [hslice] at h
    cases h
    rfl

namespace Takes

theorem passed (one : Bytes) : Takes (CborReader.ask skip : Read ε Unit) [.raw one] () := by
  apply ask
  intro bytes w w' r hf hw hl
  obtain ⟨r', hraw, hf'⟩ := raw (ε := CborError) one bytes w w' r hf hw hl
  rw [ask_cbor] at hraw
  exact ⟨r', skip_raw hraw, hf'⟩

theorem allPassed (rows : List Bytes) :
    Takes (itemLoop (fun _ => CborReader.ask skip) rows.length () : Read ε Unit) (rows.map .raw) () := by
  induction rows with
  | nil => exact itemsDone
  | cons one rows ih => exact items (passed one) ih

end Takes

namespace Table

variable {κ : Type} [DecidableEq κ] [BodyKey κ] {t : Table ε κ}

def overlay (keys : List κ) (s s₀ : t.Slots) : t.Slots := fun k => if k ∈ keys then s k else s₀ k

omit [FromCbor ε] [BodyKey κ] in
theorem overlay_cons {keys : List κ} {s s₀ : t.Slots} {j : κ} (hj : j ∉ keys) :
    overlay keys s (Function.update s₀ j (s j)) = overlay (j :: keys) s s₀ := by
  funext k
  unfold overlay
  by_cases hk : k ∈ keys
  · simp [hk]
  · by_cases hkj : k = j
    · subst hkj
      simp [hk]
    · simp [hk, hkj]

omit [FromCbor ε] [BodyKey κ] in
theorem overlay_none {keys : List κ} {s : t.Slots} (hrest : ∀ k, k ∉ keys → s k = .none) :
    overlay keys s t.none = s := by
  funext k
  unfold overlay
  split_ifs with hk
  · rfl
  · exact (hrest k hk).symm

theorem step_takes {k : κ} {s₀ : t.Slots} {calls : List Call} {v : t.Value k} (h : Takes (t.read k) calls v)
    (hempty : s₀ k = .none) : Takes (t.step (BodyKey.number k) s₀) calls (Function.update s₀ k (some v)) := by
  have hstep : t.step (BodyKey.number k) s₀ = slotField (t.read k) (t.twice k) .none (Function.update s₀ k) := by
    rw [step, (BodyKey.of_iff _ _).mpr rfl]
    simp only [hempty]
  rw [hstep]
  exact .slotField h

theorem pairs_take {entries : List (κ × List Call)} {s : t.Slots} (hkeys : (entries.map Prod.fst).Nodup)
    (hvalue : ∀ e ∈ entries, ∃ v, s e.1 = some v ∧ Takes (t.read e.1) e.2 v)
    (hrest : ∀ k, k ∉ entries.map Prod.fst → s k = .none) :
    Takes (t.pairs entries.length) (entryCalls entries) s := by
  have hloop : ∀ (entries : List (κ × List Call)) (s₀ : t.Slots), (entries.map Prod.fst).Nodup →
      (∀ e ∈ entries, ∃ v, s e.1 = some v ∧ Takes (t.read e.1) e.2 v) → (∀ e ∈ entries, s₀ e.1 = .none) →
      Takes (pairLoop t.step entries.length s₀) (entryCalls entries) (overlay (entries.map Prod.fst) s s₀) := by
    intro entries
    induction entries with
    | nil =>
      intro s₀ _ _ _
      exact .pairsDone
    | cons e entries ih =>
      intro s₀ hkeys hvalue hempty
      obtain ⟨he, hkeys⟩ := List.nodup_cons.mp hkeys
      obtain ⟨⟨v, hv, htakes⟩, hvalue⟩ := List.forall_mem_cons.mp hvalue
      obtain ⟨hfirst, hempty⟩ := List.forall_mem_cons.mp hempty
      have hstep := step_takes htakes hfirst
      rw [← keyCall_toInt, ← hv] at hstep
      have hnext := ih (Function.update s₀ e.1 (s e.1)) hkeys hvalue fun f hf => by
        rw [Function.update_of_ne (ne_of_mem_of_not_mem (List.mem_map_of_mem hf) he), hempty f hf]
      rw [List.map_cons, ← overlay_cons he]
      exact .pairs hstep hnext
  have hall := hloop entries t.none hkeys hvalue fun _ _ => rfl
  rwa [overlay_none hrest] at hall

end Table

end Km43.Cbor
