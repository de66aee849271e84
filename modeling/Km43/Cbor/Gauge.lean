import Km43.Cbor.Record
import Km43.Cbor.Room

namespace Km43.Cbor

open Library CborWriter

variable {α β : Type} {w w' : CborWriter}

def Call.size : Call → ℕ
  | array n | map n | u64 n => 1 + (Width.of n.toNat).bytes
  | key k => 1 + (Width.of k.toInt.toNat).bytes
  | i32 value => (Item.ofInt value).spelling.length
  | bool _ => 1
  | bytes value | fill value => (Item.ofBytes value).spelling.length
  | text value => (Item.ofText value).spelling.length
  | raw item => item.length

def sizes (calls : List Call) : ℕ := (calls.map Call.size).sum

@[simp] theorem sizes_append (xs ys : List Call) : sizes (xs ++ ys) = sizes xs + sizes ys := by simp [sizes]

theorem Item.ofNat_length (n : ℕ) : (Item.ofNat n).spelling.length = 1 + (Width.of n).bytes := by
  simp [Item.ofNat, Item.spelling, Token.spelling, Nat.add_comm]

theorem Call.Spells.size {c : Call} {d : ℕ} {i : Item} (h : c.Spells d i) : i.spelling.length = c.size := by
  cases c with
  | array n | map n | key k => exact h.elim
  | u64 n =>
    obtain rfl := h
    exact Item.ofNat_length n.toNat
  | i32 value =>
    obtain rfl := h
    rfl
  | bool value =>
    obtain rfl := h
    cases value <;> rfl
  | bytes value | fill value =>
    obtain rfl := h
    rfl
  | text value =>
    obtain ⟨rfl, -⟩ := h
    rfl
  | raw item =>
    obtain ⟨-, rfl⟩ := h
    rfl

theorem Did.size {c : Call} (h : Did w w' c) : w'.out.length = w.out.length + c.size := by
  cases h with
  | item levels spells counted =>
    obtain ⟨-, -, hwrote⟩ := counted
    rw [hwrote.out, List.length_append, spells.size]
  | @box _ kind n opens value levels fits moved =>
    subst moved
    cases c with
    | array | map =>
      obtain ⟨rfl, rfl⟩ := opens
      simp [inside, Call.size, Nesting.token, Token.spelling, Nat.add_comm]
    | _ => exact opens.elim
  | @key k level base n sign stack kind remaining above fits moved =>
    subst moved
    simp [Call.size, Key.ofNat, Key.spelling, Key.token, Token.spelling, Nat.add_comm]

theorem writeAll_size {calls : List Call} (h : writeAll calls w = .ok ((), w')) (hs : w.stack.length ≤ maxDepth) :
    w'.out.length = w.out.length + sizes calls := by
  induction calls generalizing w with
  | nil =>
    cases h
    rfl
  | cons c calls ih =>
    obtain ⟨⟨⟩, w₁, h₁, h⟩ := bind_run_ok.mp h
    have hdid := Call.did h₁ hs
    rw [ih h (hdid.grows.shallow hs), hdid.size]
    simp [sizes, Nat.add_assoc]

/-- Where the write succeeds, a destination of another length takes the same bytes or is too small for them. -/
def Gauged (m : Write α) : Prop :=
  ∀ w a v, m w = .ok (a, v) → w.out.length ≤ v.out.length ∧
    ∀ cap, w.out.length ≤ cap → m { w with capacity := cap } =
      if v.out.length ≤ cap then .ok (a, { v with capacity := cap }) else .error .destinationTooSmall

namespace Gauged

variable {m : Write α} {k : α → Write β}

theorem bind (hm : Gauged m) (hk : ∀ a, Gauged (k a)) : Gauged (m >>= k) := by
  intro w b v h
  obtain ⟨a, u, h₁, h₂⟩ := bind_run_ok.mp h
  obtain ⟨hle₁, hcap₁⟩ := hm w a u h₁
  obtain ⟨hle₂, hcap₂⟩ := hk a u b v h₂
  refine ⟨hle₁.trans hle₂, fun cap hcap => ?_⟩
  rw [bind_apply, hcap₁ cap hcap]
  by_cases hu : u.out.length ≤ cap
  · rw [if_pos hu]
    exact hcap₂ cap hu
  · rw [if_neg hu, if_neg (by omega)]

theorem still (h : ∀ w a v, m w = .ok (a, v) → v.out = w.out ∧
    ∀ cap, m { w with capacity := cap } = .ok (a, { v with capacity := cap })) : Gauged m := by
  intro w a v hw
  obtain ⟨hout, hcap⟩ := h w a v hw
  refine ⟨hout ▸ le_rfl, fun cap hlen => ?_⟩
  rw [if_pos (hout ▸ hlen)]
  exact hcap cap

theorem lift (x : Except CborError α) : Gauged (liftM x : Write α) := by
  apply still
  intro w a v h
  obtain ⟨rfl, rfl⟩ := liftM_inv h
  exact ⟨rfl, fun _ => rfl⟩

theorem asking {k : Nest → Write β} (hk : ∀ nest, Gauged (k nest)) : Gauged (do k (← get).nest) := by
  intro w b v h
  exact hk w.nest w b v h

theorem openItem : Gauged openItem := by
  apply still
  intro w a v h
  have hopen := h
  simp only [CborWriter.openItem] at h
  split_ifs at h with hkey hfirst
  cases h
  refine ⟨rfl, fun cap => ?_⟩
  simp only [CborWriter.openItem]
  rw [if_neg hkey, if_neg hfirst]

theorem countItem : Gauged countItem := by
  apply still
  rintro w a v ⟨⟩
  exact ⟨rfl, fun _ => rfl⟩

theorem room : Gauged room := by
  apply still
  intro w a v h
  simp only [CborWriter.room] at h ⊢
  split_ifs at h ⊢
  cases h
  exact ⟨rfl, fun _ => rfl⟩

theorem push (kind : Nesting) (items : ℕ) : Gauged (push kind items) := by
  apply still
  intro w a v h
  obtain ⟨nest, hnest, h⟩ := bind_ok.mp h
  cases h
  exact ⟨rfl, fun cap => bind_ok.mpr ⟨nest, hnest, rfl⟩⟩

theorem takeKey (n : ℕ) : Gauged (takeKey n) := by
  apply still
  intro w a v h
  simp only [CborWriter.takeKey] at h ⊢
  split_ifs at h ⊢
  obtain ⟨nest, hnest, h⟩ := bind_ok.mp h
  cases h
  exact ⟨rfl, fun cap => bind_ok.mpr ⟨nest, hnest, rfl⟩⟩

theorem emit (data : Bytes) : Gauged (emit data) := by
  intro w a v h
  obtain ⟨rfl, -⟩ := emit_inv h
  rw [List.length_append]
  refine ⟨by omega, fun cap hcap => ?_⟩
  simp only [CborWriter.emit]
  by_cases hfits : w.out.length + data.length ≤ cap
  · rw [if_neg (by omega), if_pos hfits]
  · rw [if_pos (by omega), if_neg hfits]

theorem headed (major : Major) (n : ℕ) (data : Bytes) :
    Gauged (do CborWriter.head major n data.length; CborWriter.emit data) := by
  intro w a v h
  obtain ⟨⟨⟩, u, h₁, h₂⟩ := bind_run_ok.mp h
  obtain ⟨rfl, -⟩ := head_inv h₁
  obtain ⟨rfl, -⟩ := emit_inv h₂
  simp only [List.length_append]
  refine ⟨by omega, fun cap hcap => ?_⟩
  simp only [bind_apply, head_apply]
  by_cases hfits : w.out.length + (headBytes major (Width.of n) n).length + data.length ≤ cap
  · rw [if_neg (by omega), if_pos hfits]
    apply emit_ok
    unfold Fits
    simp only [List.length_append]
    omega
  · rw [if_pos (by omega), if_neg hfits]

theorem head (major : Major) (n : ℕ) : Gauged (CborWriter.head major n 0) := by
  intro w a v h
  obtain ⟨rfl, -⟩ := head_inv h
  simp only [List.length_append]
  refine ⟨by omega, fun cap hcap => ?_⟩
  simp only [head_apply]
  by_cases hfits : w.out.length + (headBytes major (Width.of n) n).length ≤ cap
  · rw [if_neg (by omega), if_pos hfits]
  · rw [if_pos (by omega), if_neg hfits]

theorem bytes (value : Bytes) : Gauged (bytes value) := by
  apply openItem.bind
  intro _
  rw [← bind_assoc]
  exact (headed .bytes value.length value).bind fun _ => countItem

end Gauged

theorem Call.gauged (c : Call) : Gauged c.write := by
  have hhead : ∀ major n, Gauged (do CborWriter.head major n 0; CborWriter.countItem) := fun major n =>
    (Gauged.head major n).bind fun _ => .countItem
  cases c with
  | array n | map n =>
    exact Gauged.openItem.bind fun _ => Gauged.room.bind fun _ => (Gauged.head _ _).bind fun _ =>
      Gauged.countItem.bind fun _ => .push _ _
  | key k =>
    simp only [write, CborWriter.key]
    split_ifs
    · exact .lift (.error .integerOutOfRange)
    · exact (Gauged.takeKey _).bind fun _ => hhead _ _
  | u64 value => exact Gauged.openItem.bind fun _ => hhead _ _
  | i32 value =>
    apply Gauged.openItem.bind
    intro _
    split_ifs <;> exact hhead _ _
  | bool value => exact Gauged.openItem.bind fun _ => hhead _ _
  | bytes value => exact .bytes value
  | fill value =>
    rw [fill_write]
    exact .bytes value
  | text value =>
    apply Gauged.openItem.bind
    intro _
    split_ifs
    · exact .lift (.error .stringTooLong)
    · rw [← bind_assoc]
      exact (Gauged.headed .text value.raw.length value.raw).bind fun _ => .countItem
  | raw item =>
    apply Gauged.openItem.bind
    intro _
    apply (Gauged.lift _).bind
    intro walked
    apply (Gauged.lift _).bind
    intro _
    apply Gauged.asking (k := fun nest => if nest.depth + walked.2.nest.deepest > maxDepth then
      throw .depthExceeded else do
        CborWriter.emit item
        CborWriter.countItem)
    intro nest
    split_ifs
    · exact .lift (.error .depthExceeded)
    · exact (Gauged.emit item).bind fun _ => .countItem

theorem writeAll_gauged (calls : List Call) : Gauged (writeAll calls) := by
  induction calls with
  | nil => exact .lift (.ok ())
  | cons c calls ih => exact c.gauged.bind fun _ => ih

def Relays {ε : Type} (f : CborError → ε) (m : Encoder ε Unit) (calls : List Call) : Prop :=
  m = mapErr f (writeAll calls)

namespace Relays

variable {ε δ γ : Type} {f : CborError → ε} {m m' : Encoder ε Unit} {xs ys : List Call}

theorem none : Relays f (pure ()) [] := rfl

theorem append (h : Relays f m xs) (h' : Relays f m' ys) : Relays f (do m; m') (xs ++ ys) := by
  rw [Relays] at h h' ⊢
  rw [h, h', writeAll_append, mapErr_bind]

theorem call [FromCbor ε] (c : Call) : Relays FromCbor.cbor (tell c.write : Encoder ε Unit) [c] := by
  rw [Relays, writeAll, writeAll, bind_pure_unit]
  rfl

theorem cons [FromCbor ε] {c : Call} (h : Relays FromCbor.cbor m xs) :
    Relays FromCbor.cbor (do tell c.write; m) (c :: xs) := (call c).append h

theorem forM {encode : γ → Encoder ε Unit} {calls : γ → List Call} (h : ∀ x, Relays f (encode x) (calls x))
    (items : List γ) : Relays f (items.forM encode) (items.flatMap calls) := by
  induction items with
  | nil => exact none
  | cons x items ih => exact (h x).append ih

theorem refused (g : ε → δ) (h : Relays f m xs) : Relays (fun why => g (f why)) (mapErr g m) xs := by
  rw [Relays] at h
  subst h
  funext w
  simp only [mapErr]
  cases writeAll xs w <;> rfl

theorem check {x : Except ε γ} {a : γ} (hx : x = .ok a) {k : γ → Encoder ε Unit} (h : Relays f (k a) xs) :
    Relays f (do let a ← (liftM x : Encoder ε γ); k a) xs := by
  subst hx
  exact h

theorem ok (h : Relays f m xs) {w w' : CborWriter} (hw : writeAll xs w = .ok ((), w')) : m w = .ok ((), w') := by
  rw [Relays] at h
  subst h
  rw [mapErr, hw]
  rfl

theorem error (h : Relays f m xs) {w : CborWriter} {why : CborError} (hw : writeAll xs w = .error why) :
    m w = .error (f why) := by
  rw [Relays] at h
  subst h
  rw [mapErr, hw]
  rfl

end Relays

end Km43.Cbor
