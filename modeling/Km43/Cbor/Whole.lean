import Km43.Cbor.Shape
import Km43.Cbor.Splice
import Km43.Cbor.Takes

namespace Km43.Cbor

open Library Library.StepParser CborReader CborWriter

variable {ε α : Type} [FromCbor ε]

def decodeBody (m : Read ε α) (payload : Bytes) : Except ε α := do
  let (a, cbor) ← m (.new payload)
  cbor.finish.mapError FromCbor.cbor
  .ok a

def encodeBody (m : Encoder ε Unit) (dst : ℕ) : Except ε Bytes := do
  let (_, cbor) ← m (.new dst)
  let (_, cbor) ← cbor.finish.mapError FromCbor.cbor
  .ok cbor.out

def whenSome {α : Type} (slot : Option α) (m : α → Encoder ε Unit) : Encoder ε Unit :=
  match slot with
  | some value => m value
  | none => pure ()

omit [FromCbor ε] in
theorem Tells.whenSome {α : Type} {m : α → Encoder ε Unit} {calls : α → List Call} (h : ∀ a, Tells (m a) (calls a))
    (slot : Option α) : Tells (Cbor.whenSome slot m) (slot.toList.flatMap calls) := by
  cases slot with
  | none => exact .none
  | some a =>
    rw [Option.toList_some, List.flatMap_singleton]
    exact h a

theorem Item.spelling_inj {d : ℕ} {i j : Item} (hi : i.Legal d) (hj : j.Legal d) (h : i.spelling = j.spelling) :
    i = j := by
  have hread := (itemStep_exact d).read hi []
  rw [h, (itemStep_exact d).read hj [], Option.some.injEq, Prod.mk.injEq] at hread
  exact hread.1.symm

theorem Takes.textValue (v : Str) : Takes (Cbor.textValue : Read ε Str) [.text v] v := by
  have hdone : Takes (if h : isUtf8 v.raw = true then Pure.pure (⟨v.raw, h⟩ : Str)
      else throw (FromCbor.cbor .invalidUtf8) : Read ε Str) [] v := by
    rw [dif_pos v.utf8]
    exact .pure v
  exact (Takes.text v).bind hdone

theorem u32Of_ofNat (n : UInt32) : u32Of (.ofNat n.toNat) = some n := by
  have hn := n.toNat_lt
  rw [u32Of, Item.ofNat, Item.uint, if_pos (by omega), Option.map_some, UInt32.ofNat_toNat]

theorem u16Of_ofNat (n : UInt16) : u16Of (.ofNat n.toNat) = some n := by
  have hn := n.toNat_lt
  rw [u16Of, Item.ofNat, Item.uint, if_pos (by omega), Option.map_some, UInt16.ofNat_toNat]

theorem u8Of_ofNat (n : UInt8) : u8Of (.ofNat n.toNat) = some n := by
  have hn := n.toNat_lt
  rw [u8Of, Item.ofNat, Item.uint, if_pos (by omega), Option.map_some, UInt8.ofNat_toNat]

theorem str_ofText (s : Str) : (Item.ofText s).str? = some s := by
  rw [Item.ofText, Item.str?, dif_pos s.utf8]

section

variable {Bad : ε → Prop} {m : Read ε α} {f : Item → Option α}

theorem decodeBody_cases (hbad : ∀ why, Bad (FromCbor.cbor why)) (hm : Reads Bad maxDepth m f) (payload : Bytes) :
    (∃ i a, i.Legal maxDepth ∧ i.spelling = payload ∧ f i = some a ∧ decodeBody m payload = .ok a) ∨
    ((∀ i, i.Legal maxDepth → i.spelling = payload → f i = none) ∧
      ∃ why, decodeBody m payload = .error why ∧ Bad why) := by
  rcases hm.run payload with ⟨i, a, hi, hb, hf, r, hok, hfinish⟩ | ⟨hnone, hrefused⟩
  · refine .inl ⟨i, a, hi, hb, hf, ?_⟩
    simp only [decodeBody, hok, hfinish, Except.mapError, bind, Except.bind]
  · refine .inr ⟨hnone, ?_⟩
    rcases hrefused with ⟨why, hr, hwhy⟩ | ⟨a, r, hok, why, hfinish⟩
    · exact ⟨why, by simp only [decodeBody, hr, bind, Except.bind], hwhy⟩
    · exact ⟨_, by simp only [decodeBody, hok, hfinish, Except.mapError, bind, Except.bind], hbad why⟩

theorem decodeBody_ok (hm : Reads (fun _ => True) maxDepth m f) {payload : Bytes} {a : α} :
    decodeBody m payload = .ok a ↔ ∃ i, i.Legal maxDepth ∧ i.spelling = payload ∧ f i = some a := by
  rcases decodeBody_cases (fun _ => trivial) hm payload with ⟨i, b, hi, hb, hf, hok⟩ | ⟨hnone, why, herror, -⟩
  · constructor
    · intro h
      rw [hok, Except.ok.injEq] at h
      exact ⟨i, hi, hb, h ▸ hf⟩
    · rintro ⟨j, hj, hjb, hja⟩
      obtain rfl := Item.spelling_inj hi hj (hb.trans hjb.symm)
      rw [hok, Option.some.inj (hf.symm.trans hja)]
  · constructor
    · intro h
      rw [herror] at h
      cases h
    · rintro ⟨j, hj, hjb, hja⟩
      rw [hnone j hj hjb] at hja
      cases hja

theorem decodeBody_item (hm : Reads (fun _ => True) maxDepth m f) {i : Item} (hi : i.Legal maxDepth) {a : α}
    (hf : f i = some a) : decodeBody m i.spelling = .ok a := (decodeBody_ok hm).mpr ⟨i, hi, rfl, hf⟩

end

section

variable {m : Encoder ε Unit} {calls : List Call} {dst : ℕ} {out : Bytes}

theorem encodeBody_ok (ht : Tells m calls) : encodeBody m dst = .ok out ↔
    ∃ w w' len, writeAll calls (.new dst) = .ok ((), w) ∧ CborWriter.finish w = .ok (len, w') ∧ w.out = out := by
  constructor
  · intro h
    obtain ⟨⟨⟨⟩, w⟩, hw, h⟩ := bind_ok.mp h
    obtain ⟨⟨len, w'⟩, hf, h⟩ := bind_ok.mp h
    cases h
    exact ⟨w, w', len, (ht _ _).mp hw, mapError_ok.mp hf, (finish_out (mapError_ok.mp hf)).symm⟩
  · rintro ⟨w, w', len, hw, hf, rfl⟩
    refine bind_ok.mpr ⟨((), w), (ht _ _).mpr hw, bind_ok.mpr ⟨(len, w'), mapError_ok.mpr hf, ?_⟩⟩
    exact congrArg Except.ok (finish_out hf)

theorem encodeBody_check {x : Except ε Unit} :
    encodeBody (do (liftM x : Encoder ε Unit); m) dst = .ok out ↔ x = .ok () ∧ encodeBody m dst = .ok out := by
  cases x with
  | error why =>
    constructor
    · intro h
      cases h
    · rintro ⟨h, -⟩
      cases h
  | ok u => exact (and_iff_right rfl).symm

theorem encodeBody_item (ht : Tells m calls) {i : Item} (hi : Writes maxDepth (writeAll calls) i) :
    encodeBody m dst = .ok out ↔ out = i.spelling ∧ i.spelling.length ≤ dst := by
  rw [encodeBody_ok ht]
  constructor
  · rintro ⟨w, w', len, hw, -, rfl⟩
    have hwrote := hi.of_ok ⟨rfl, rfl, fun _ => rfl⟩ hw
    have hout : w.out = i.spelling := hwrote.out
    have hwithin := (writeAll_grows hw (Nat.zero_le _)).within (Nat.zero_le _)
    rw [hout, hwrote.capacity] at hwithin
    exact ⟨hout, hwithin⟩
  · rintro ⟨rfl, hfits⟩
    obtain ⟨w, hw, hout, w', hf⟩ := hi.run hfits
    exact ⟨w, w', _, hw, hf, hout⟩

end

structure Schema where
  typed : ℤ → Item → Prop
  required : List ℤ
  beside : List (ℤ × ℤ)

namespace Schema

variable (schema : Schema)

structure Typed (body : Bytes) (w : Width) (pairs : List (Key × Item)) : Prop where
  legal : (Item.map w pairs).Legal maxDepth
  spelling : (Item.map w pairs).spelling = body
  typed : ∀ p ∈ pairs, ∃ k, p.1.i64? = some k ∧ schema.typed k p.2

def Complete (has : ℤ → Prop) : Prop :=
  (∀ k ∈ schema.required, has k) ∧ ∀ b ∈ schema.beside, has b.1 → has b.2

def Sound (body : Bytes) : Prop :=
  ∃ w pairs, schema.Typed body w pairs ∧ schema.Complete (HasKey pairs)

variable {schema}

theorem Typed.unique {body : Bytes} {w w' : Width} {pairs pairs' : List (Key × Item)} (h : schema.Typed body w pairs)
    (h' : schema.Typed body w' pairs') : pairs = pairs' := by
  have hitem := Item.spelling_inj h.legal h'.legal (h.spelling.trans h'.spelling.symm)
  exact (Item.map.inj hitem).2

end Schema

section

variable {σ β : Type} {has : σ → ℤ → Bool} {fill : ℤ → Item → Option (σ → σ)} {known : ℤ → Prop}
  [DecidablePred known]

theorem slotStep_folds (h : OwnSlots has fill known) {pairs : List (Key × Item)} (hfresh : (ranks pairs).Nodup) {s : σ}
    (hempty : ∀ p ∈ pairs, ∀ k, p.1.i64? = some k → known k → has s k = false) :
    (∃ s', foldPairs (slotStep has fill known) pairs s = some s') ↔
      ∀ p ∈ pairs, ∃ k, p.1.i64? = some k ∧ (known k → (fill k p.2).isSome) := by
  induction pairs generalizing s with
  | nil => simp [foldPairs]
  | cons p pairs ih =>
    obtain ⟨hp, hfresh⟩ := List.nodup_cons.mp hfresh
    have hrest : ∀ q ∈ pairs, ∀ k, q.1.i64? = some k → known k → has s k = false := by
      intro q hq
      exact hempty q (by simp [hq])
    cases hk : p.1.i64? with
    | none =>
      constructor
      · rintro ⟨s', hs'⟩
        simp [foldPairs, hk] at hs'
      · intro htyped
        obtain ⟨k, hk', -⟩ := htyped p (by simp)
        rw [hk] at hk'
        cases hk'
    | some k =>
      have hcons : (∀ q ∈ p :: pairs, ∃ k, q.1.i64? = some k ∧ (known k → (fill k q.2).isSome)) ↔
          (known k → (fill k p.2).isSome) ∧
            ∀ q ∈ pairs, ∃ k, q.1.i64? = some k ∧ (known k → (fill k q.2).isSome) := by
        simp only [List.forall_mem_cons, hk, Option.some.injEq, exists_eq_left']
      rw [hcons]
      by_cases hknown : known k
      · have hslot : has s k = false := hempty p (by simp) k hk hknown
        cases hput : fill k p.2 with
        | none => simp [foldPairs, hk, slotStep, hknown, hslot, hput]
        | some put =>
          have hother : ∀ q ∈ pairs, ∀ j, q.1.i64? = some j → known j → has (put s) j = false := by
            intro q hq j hj hjk
            rw [h.filled k j p.2 put s hknown hjk hput, hrest q hq j hj hjk, Bool.or_false, decide_eq_false_iff_not]
            rintro rfl
            have hrank : q.1.rank = p.1.rank := Key.value_inj ((Key.i64?_some hj).symm.trans (Key.i64?_some hk))
            exact hp (List.mem_map.mpr ⟨q, hq, hrank⟩)
          rw [← ih hfresh hother]
          simp [foldPairs, hk, slotStep, hknown, hslot, hput]
      · rw [← ih hfresh hrest]
        simp [foldPairs, hk, slotStep, hknown]

theorem slotStep_value (get : σ → Option β) (value : Item → Option β) {k : ℤ} (hk : known k)
    (hhas : ∀ s, has s k = (get s).isSome) (hown : ∀ i put s, fill k i = some put → get (put s) = value i)
    (hother : ∀ j i put s, known j → j ≠ k → fill j i = some put → get (put s) = get s) {pairs : List (Key × Item)}
    {s s' : σ} (h : foldPairs (slotStep has fill known) pairs s = some s') {b : β} :
    get s' = some b ↔ get s = some b ∨ ∃ p ∈ pairs, p.1.i64? = some k ∧ value p.2 = some b := by
  induction pairs generalizing s with
  | nil =>
    obtain rfl := Option.some.inj h
    simp
  | cons p pairs ih =>
    obtain ⟨j, hj, h⟩ := Option.bind_eq_some_iff.mp h
    obtain ⟨s₁, hs₁, h⟩ := Option.bind_eq_some_iff.mp h
    rw [ih h]
    by_cases hjk : j = k
    · subst hjk
      obtain ⟨hempty, put, hput, rfl⟩ := (slotStep_some hk).mp hs₁
      have hnone : get s = none := by
        rw [hhas, Option.isSome_eq_false_iff, Option.isNone_iff_eq_none] at hempty
        exact hempty
      rw [hown p.2 put s hput]
      simp [hnone, hj]
    · have hsame : get s₁ = get s := by
        by_cases hknown : known j
        · obtain ⟨-, put, hput, rfl⟩ := (slotStep_some hknown).mp hs₁
          exact hother j p.2 put s hknown hjk hput
        · rw [slotStep_unknown hknown] at hs₁
          rw [Option.some.inj hs₁]
      rw [hsame]
      simp [hj, hjk]

end

section

variable {ε α β : Type} [FromCbor ε]

def WriterOnly (m : Encoder ε α) : Prop := ∀ w why, m w = .error why → ∃ refused : CborError, why = FromCbor.cbor refused

namespace WriterOnly

theorem tell (m : Write α) : WriterOnly (Cbor.tell m : Encoder ε α) := by
  intro w why h
  unfold Cbor.tell at h
  cases hm : m w with
  | ok done =>
    rw [hm] at h
    cases h
  | error refused =>
    rw [hm] at h
    cases h
    exact ⟨refused, rfl⟩

theorem pure (a : α) : WriterOnly (Pure.pure a : Encoder ε α) := by
  rintro w why ⟨⟩

theorem bind {m : Encoder ε α} {k : α → Encoder ε β} (hm : WriterOnly m) (hk : ∀ a, WriterOnly (k a)) :
    WriterOnly (m >>= k) := by
  intro w why h
  rw [bind_apply] at h
  cases hrun : m w with
  | ok done =>
    rw [hrun] at h
    exact hk _ _ _ h
  | error refused =>
    rw [hrun] at h
    cases h
    exact hm w _ hrun

theorem forM {f : α → Encoder ε Unit} {items : List α} (h : ∀ a ∈ items, WriterOnly (f a)) :
    WriterOnly (items.forM f) := by
  induction items with
  | nil => exact .pure ()
  | cons a items ih =>
    apply WriterOnly.bind (h a List.mem_cons_self)
    intro _
    exact ih fun b hb => h b (List.mem_cons_of_mem _ hb)

theorem body {m : Encoder ε Unit} (hm : WriterOnly m) {dst : ℕ} {why : ε} (h : encodeBody m dst = .error why) :
    ∃ refused : CborError, why = FromCbor.cbor refused := by
  rcases bind_error.mp h with hrun | ⟨⟨⟨⟩, w⟩, -, h⟩
  · exact hm _ _ hrun
  · rcases bind_error.mp h with hfinish | ⟨_, -, h⟩
    · cases hw : CborWriter.finish w with
      | ok done =>
        rw [hw] at hfinish
        cases hfinish
      | error refused =>
        rw [hw] at hfinish
        cases hfinish
        exact ⟨refused, rfl⟩
    · cases h

end WriterOnly

end

end Km43.Cbor
