import Km43.Cbor.Mirror
import Km43.Cbor.Typed

namespace Km43.Cbor

open Library CborWriter CborReader

variable {ε α β σ : Type} {bytes : Bytes} {w w' w'' : CborWriter} {r : CborReader}

/-- A reader in the bytes that a writer with room for no more than a slice holds went on to finish. -/
structure Follows (bytes : Bytes) (w : CborWriter) (r : CborReader) : Prop extends Mirrors bytes w r where
  shallow : w.stack.length ≤ maxDepth
  capacity : w.capacity < 2 ^ 64

/-- The finished bytes go on from where the writer stands, and pay for what it owes. -/
structure Leads (w : CborWriter) (bytes : Bytes) : Prop where
  out : w.out <+: bytes
  pays : w.out.length + owed w.stack ≤ bytes.length

theorem Grows.leads (h : Grows w w') (hl : Leads w' bytes) : Leads w bytes :=
  ⟨h.out.trans hl.out, h.pays.trans hl.pays⟩

theorem Follows.moved (h : Follows bytes w r) (hg : Grows w w') {r' : CborReader}
    (hm : Mirrors bytes w' r') : Follows bytes w' r' :=
  ⟨hm, hg.shallow h.shallow, hg.capacity.trans_lt h.capacity⟩

def Takes (m : Read ε α) (calls : List Call) (a : α) : Prop :=
  ∀ (bytes : Bytes) (w w' : CborWriter) (r : CborReader), Follows bytes w r →
    writeAll calls w = .ok ((), w') → Leads w' bytes → ∃ r', m r = .ok (a, r') ∧ Follows bytes w' r'

theorem writeAll_append (xs ys : List Call) :
    writeAll (xs ++ ys) = (do writeAll xs; writeAll ys) := by
  induction xs with
  | nil => simp [writeAll]
  | cons x xs ih => simp only [List.cons_append, writeAll, ih, bind_assoc]

namespace Takes

variable {m : Read ε α} {xs ys : List Call} {a : α} {b : β}

theorem pure (a : α) : Takes (Pure.pure a : Read ε α) [] a := by
  intro bytes w w' r hf hw _
  cases hw
  exact ⟨r, rfl, hf⟩

theorem bind {k : α → Read ε β} (hm : Takes m xs a) (hk : Takes (k a) ys b) :
    Takes (m >>= k) (xs ++ ys) b := by
  intro bytes w w' r hf hw hl
  rw [writeAll_append] at hw
  obtain ⟨⟨⟩, w₁, h₁, h₂⟩ := bind_run_ok.mp hw
  have hg := writeAll_grows h₁ hf.shallow
  have hg' := writeAll_grows h₂ (hg.shallow hf.shallow)
  obtain ⟨r₁, hr₁, hf₁⟩ := hm bytes w w₁ r hf h₁ (hg'.leads hl)
  obtain ⟨r', hr', hf'⟩ := hk bytes w₁ w' r₁ hf₁ h₂ hl
  exact ⟨r', by rw [bind_apply, hr₁]; exact hr', hf'⟩

theorem check {x : Except ε α} (hx : x = .ok a) : Takes (liftM x : Read ε α) [] a := by
  intro bytes w w' r hf hw _
  cases hw
  exact ⟨r, by rw [liftExcept_apply, hx]; rfl, hf⟩

theorem call (c : Call) : Takes c.read [c] c.reading := by
  intro bytes w w' r hf hw hl
  obtain ⟨⟨⟩, w₁, h₁, h₂⟩ := bind_run_ok.mp hw
  cases h₂
  have hdid := Call.did h₁ hf.shallow
  obtain ⟨r', hr', hm⟩ := hdid.mirrors hf.toMirrors hf.capacity hl.out hl.pays
  exact ⟨r', hr', hf.moved hdid.grows hm⟩

theorem ask [FromCbor ε] {m : Read CborError α} (hm : Takes m xs a) :
    Takes (CborReader.ask m : Read ε α) xs a := by
  intro bytes w w' r hf hw hl
  obtain ⟨r', hr', hf'⟩ := hm bytes w w' r hf hw hl
  exact ⟨r', by rw [CborReader.ask, hr'], hf'⟩

theorem typed {Bad : ε → Prop} {f : Item → Option α} {c : Call} (hm : ∀ d, Reads Bad d m f)
    (hc : c.isValue = true) (hf : ∀ d i, c.Spells d i → f i = some a) : Takes m [c] a := by
  intro bytes w w' r hfollows hw hl
  obtain ⟨⟨⟩, w₁, h₁, h₂⟩ := bind_run_ok.mp hw
  cases h₂
  have hdid := Call.did h₁ hfollows.shallow
  have hgrows := hdid.grows
  cases hdid with
  | @item _ d i levels spells counted =>
    obtain ⟨hvalue, hfits, hwrote⟩ := counted
    have hlead : w.out ++ i.spelling <+: bytes := by
      rw [← hwrote.out]
      exact hl.out
    obtain ⟨tail, hrest⟩ := hfollows.rest hlead
    obtain ⟨r', hok, hpast⟩ := (hm d).takes (hfollows.ready hvalue levels)
      (spells.legal hfits hfollows.capacity) hrest (hf d i spells)
    exact ⟨r', hok, hfollows.moved hgrows (hfollows.past hwrote hpast)⟩
  | box opens value levels fits moved => cases c <;> first | exact opens.elim | cases hc
  | key sign stack kind remaining above fits moved => cases hc

theorem untold {m : Read CborError α} {g : α → Reading} (hg : Function.Injective g)
    (h : Takes (g <$> m) xs (g a)) : Takes m xs a := by
  intro bytes w w' r hf hw hl
  obtain ⟨r', hr', hf'⟩ := h bytes w w' r hf hw hl
  rw [map_eq_pure_bind] at hr'
  obtain ⟨a', t, ha, hpure⟩ := bind_run_ok.mp hr'
  obtain ⟨he, rfl⟩ := Prod.mk.inj (Except.ok.inj hpure)
  exact ⟨t, by rw [ha, hg he], hf'⟩

section

variable [FromCbor ε]

theorem array (n : UInt64) : Takes (CborReader.ask CborReader.array : Read ε ℕ) [.array n] n.toNat :=
  ask (untold (fun _ _ h => Reading.count.inj h) (call (.array n)))

theorem map (n : UInt64) : Takes (CborReader.ask CborReader.map : Read ε ℕ) [.map n] n.toNat :=
  ask (untold (fun _ _ h => Reading.count.inj h) (call (.map n)))

theorem key (k : Int64) : Takes (CborReader.ask CborReader.key : Read ε ℤ) [.key k] k.toInt :=
  ask (untold (fun _ _ h => Reading.key.inj h) (call (.key k)))

theorem u64 (v : UInt64) : Takes (CborReader.ask CborReader.u64 : Read ε ℕ) [.u64 v] v.toNat :=
  ask (untold (fun _ _ h => Reading.unsigned.inj h) (call (.u64 v)))

theorem bool (v : Bool) : Takes (CborReader.ask CborReader.bool : Read ε Bool) [.bool v] v :=
  ask (untold (fun _ _ h => Reading.bool.inj h) (call (.bool v)))

theorem i32 (v : Int32) : Takes (CborReader.ask CborReader.i32 : Read ε Int32) [.i32 v] v :=
  ask (untold (fun _ _ h => Reading.signed.inj h) (call (.i32 v)))

theorem bytesValue (v : Bytes) : Takes (CborReader.ask CborReader.bytesValue : Read ε Bytes) [.bytes v] v :=
  ask (untold (fun _ _ h => Reading.bytes.inj h) (call (.bytes v)))

theorem filled (v : Bytes) : Takes (CborReader.ask CborReader.bytesValue : Read ε Bytes) [.fill v] v :=
  ask (untold (fun _ _ h => Reading.bytes.inj h) (call (.fill v)))

theorem text (v : Str) : Takes (CborReader.ask CborReader.text : Read ε Bytes) [.text v] v.raw :=
  ask (untold (fun _ _ h => Reading.text.inj h) (call (.text v)))

theorem raw (v : Bytes) : Takes (CborReader.ask CborReader.raw : Read ε Bytes) [.raw v] v :=
  ask (untold (fun _ _ h => Reading.raw.inj h) (call (.raw v)))

theorem mapped {f : α → β} (h : Takes m xs a) : Takes (f <$> m) xs (f a) := by
  intro bytes w w' r hf hw hl
  obtain ⟨r', hr', hf'⟩ := h bytes w w' r hf hw hl
  refine ⟨r', ?_, hf'⟩
  rw [map_eq_pure_bind, bind_apply, hr']
  rfl

theorem word (v : UInt64) : Takes (UInt64.ofNat <$> CborReader.ask CborReader.u64 : Read ε UInt64) [.u64 v] v := by
  have h := (u64 (ε := ε) v).mapped (f := UInt64.ofNat)
  rwa [UInt64.ofNat_toNat] at h

theorem u32 (v : UInt32) :
    Takes (CborReader.ask CborReader.u32 : Read ε UInt32) [.u64 v.toUInt64] v := by
  have hm : ∀ d, Reads (fun _ : ε => True) d (CborReader.ask CborReader.u32) _ := fun _ => .u32 fun _ => trivial
  refine typed hm rfl fun d i hi => ?_
  obtain rfl := hi
  have hv := v.toNat_lt
  simp only [Item.ofNat, Item.uint, UInt32.toNat_toUInt64]
  rw [if_pos (by omega), Option.map_some, UInt32.ofNat_toNat]

theorem u16 (v : UInt16) :
    Takes (CborReader.ask CborReader.u16 : Read ε UInt16) [.u64 v.toUInt64] v := by
  have hm : ∀ d, Reads (fun _ : ε => True) d (CborReader.ask CborReader.u16) _ := fun _ => .u16 fun _ => trivial
  refine typed hm rfl fun d i hi => ?_
  obtain rfl := hi
  have hv := v.toNat_lt
  simp only [Item.ofNat, Item.uint, UInt16.toNat_toUInt64]
  rw [if_pos (by omega), Option.map_some, UInt16.ofNat_toNat]

theorem u8 (v : UInt8) : Takes (CborReader.ask CborReader.u8 : Read ε UInt8) [.u64 v.toUInt64] v := by
  have hm : ∀ d, Reads (fun _ : ε => True) d (CborReader.ask CborReader.u8) _ := fun _ => .u8 fun _ => trivial
  refine typed hm rfl fun d i hi => ?_
  obtain rfl := hi
  have hv := v.toNat_lt
  simp only [Item.ofNat, Item.uint, UInt8.toNat_toUInt64]
  rw [if_pos (by omega), Option.map_some, UInt8.ofNat_toNat]

theorem pairs {step : ℤ → σ → Read ε σ} {n : ℕ} {k : Int64} {s s₁ s₂ : σ}
    (h : Takes (step k.toInt s) xs s₁) (hrest : Takes (pairLoop step n s₁) ys s₂) :
    Takes (pairLoop step (n + 1) s) (.key k :: (xs ++ ys)) s₂ :=
  (key k).bind (h.bind hrest)

end

theorem pairsDone [FromCbor ε] {step : ℤ → σ → Read ε σ} {s : σ} : Takes (pairLoop step 0 s) [] s := pure s

theorem items {step : σ → Read ε σ} {n : ℕ} {s s₁ s₂ : σ} (h : Takes (step s) xs s₁)
    (hrest : Takes (itemLoop step n s₁) ys s₂) : Takes (itemLoop step (n + 1) s) (xs ++ ys) s₂ :=
  h.bind hrest

theorem itemsDone {step : σ → Read ε σ} {s : σ} : Takes (itemLoop step 0 s) [] s := pure s

theorem slotField {read : Read ε α} {twice : ε} {fill : Option α → σ} (h : Takes read xs a) :
    Takes (Cbor.slotField read twice none fill) xs (fill (some a)) := by
  have hfill : Takes (do
      let slot ← (liftM (slotOnce twice none a) : Read ε (Option α))
      Pure.pure (fill slot)) ([] ++ []) (fill (some a)) :=
    (check (slotOnce_none twice a)).bind (pure _)
  have hbind := h.bind (k := fun value => do
    let slot ← (liftM (slotOnce twice none value) : Read ε (Option α))
    Pure.pure (fill slot)) hfill
  rw [List.append_nil, List.append_nil] at hbind
  exact hbind

theorem run (h : Takes m xs a) {capacity : ℕ} (hc : capacity < 2 ^ 64) {len : ℕ}
    (hw : writeAll xs (.new capacity) = .ok ((), w)) (hf : CborWriter.finish w = .ok (len, w')) :
    ∃ r, m (.new w.out) = .ok (a, r) ∧ r.finish = .ok () := by
  obtain ⟨hstack, -⟩ := finish_inv hf
  obtain ⟨r, hr, hfollows⟩ := h w.out _ w (.new w.out) ⟨.new _ _, Nat.zero_le _, hc⟩ hw
    ⟨List.prefix_refl _, by simp [hstack, owed]⟩
  exact ⟨r, hr, hfollows.finish hstack rfl⟩

end Takes

section

variable {ε δ α β σ : Type}

abbrev Encoder (ε α : Type) := StateT CborWriter (Except ε) α

def tell [FromCbor ε] (m : Write α) : Encoder ε α := fun w => (m w).mapError FromCbor.cbor

def mapErr (f : ε → δ) (m : StateT σ (Except ε) α) : StateT σ (Except δ) α := fun s => (m s).mapError f

theorem mapErr_ok {f : ε → δ} {m : StateT σ (Except ε) α} {s s' : σ} {a : α} :
    mapErr f m s = .ok (a, s') ↔ m s = .ok (a, s') := mapError_ok

def Tells (m : Encoder ε Unit) (calls : List Call) : Prop :=
  ∀ w w', m w = .ok ((), w') ↔ writeAll calls w = .ok ((), w')

namespace Tells

variable {m m' : Encoder ε Unit} {xs ys : List Call}

theorem none : Tells (pure () : Encoder ε Unit) [] := by
  intro w w'
  constructor
  · rintro ⟨⟩
    rfl
  · rintro ⟨⟩
    rfl

theorem call [FromCbor ε] (c : Call) : Tells (tell c.write : Encoder ε Unit) [c] := by
  intro w w'
  rw [writeAll, writeAll, bind_pure_unit]
  exact mapError_ok

theorem append (h : Tells m xs) (h' : Tells m' ys) : Tells (do m; m') (xs ++ ys) := by
  intro w w'
  rw [writeAll_append, bind_run_ok, bind_run_ok]
  simp only [h w, h' _ w']

theorem cons [FromCbor ε] {c : Call} (h : Tells m xs) : Tells (do tell c.write; m) (c :: xs) :=
  (call c).append h

theorem forM_mem {γ : Type} {f : γ → Encoder ε Unit} {g : γ → List Call} {items : List γ}
    (h : ∀ x ∈ items, Tells (f x) (g x)) : Tells (items.forM f) (items.flatMap g) := by
  induction items with
  | nil => exact none
  | cons x items ih => exact (h x (by simp)).append (ih fun y hy => h y (by simp [hy]))

theorem forM {γ : Type} {f : γ → Encoder ε Unit} {g : γ → List Call} (h : ∀ x, Tells (f x) (g x))
    (items : List γ) : Tells (items.forM f) (items.flatMap g) := forM_mem fun x _ => h x

theorem refused {f : ε → δ} (h : Tells m xs) : Tells (mapErr f m) xs := fun w w' =>
  mapErr_ok.trans (h w w')

theorem check {γ : Type} {x : Except ε γ} {a : γ} (hx : x = .ok a) {k : γ → Encoder ε Unit}
    (h : Tells (k a) xs) : Tells (do let a ← (liftM x : Encoder ε γ); k a) xs := by
  subst hx
  exact h

end Tells

theorem Takes.refused {f : ε → δ} {m : Read ε α} {xs : List Call} {a : α} (h : Takes m xs a) :
    Takes (mapErr f m) xs a := by
  intro bytes w w' r hf hw hl
  obtain ⟨r', hr', hf'⟩ := h bytes w w' r hf hw hl
  exact ⟨r', mapErr_ok.mpr hr', hf'⟩

theorem Takes.run_both {γ : Type} {m : Read ε α} {k : Read δ γ} {xs ys : List Call} {a : α} {b : γ}
    (hm : Takes m xs a) (hk : Takes k ys b) {capacity : ℕ} (hc : capacity < 2 ^ 64) {len : ℕ}
    {w w' : CborWriter} (hw : writeAll (xs ++ ys) (.new capacity) = .ok ((), w))
    (hf : CborWriter.finish w = .ok (len, w')) :
    ∃ r r', m (.new w.out) = .ok (a, r) ∧ k r = .ok (b, r') ∧ r'.finish = .ok () := by
  obtain ⟨⟨⟩, w₁, h₁, h₂⟩ := bind_run_ok.mp (writeAll_append xs ys ▸ hw)
  obtain ⟨hstack, -⟩ := finish_inv hf
  have hgrows := writeAll_grows h₁ (Nat.zero_le _)
  have hleads : Leads w w.out := ⟨List.prefix_refl _, by simp [hstack, owed]⟩
  have hgrows₂ := writeAll_grows h₂ (hgrows.shallow (Nat.zero_le _))
  obtain ⟨r, hr, hfollows⟩ := hm w.out _ w₁ (.new w.out) ⟨.new _ _, Nat.zero_le _, hc⟩ h₁ (hgrows₂.leads hleads)
  obtain ⟨r', hr', hfollows'⟩ := hk w.out w₁ w r hfollows h₂ hleads
  exact ⟨r, r', hr, hr', hfollows'.finish hstack rfl⟩

end

end Km43.Cbor
