import Km43.Cbor.Codec
import Km43.Cbor.Packed

namespace Km43.Cbor

open Library Library.StepParser CborReader CborWriter

def Nests (n : ℕ) (body : Bytes) : Prop := ∃ i : Item, i.Legal n ∧ i.spelling = body

def probeMap {ε : Type} (refused : ε) (body : Bytes) : Except ε Unit :=
  match (CborReader.new body).map with
  | .ok _ => .ok ()
  | .error _ => .error refused

theorem probeMap_item {ε : Type} (refused : ε) {i : Item} (hi : i.Legal maxDepth) :
    probeMap refused i.spelling = .ok () ↔ i.pairs?.isSome := by
  have hread := (itemStep_exact maxDepth).read hi []
  rw [List.append_nil] at hread
  have hready := (new_atTop i.spelling 0).1
  unfold probeMap
  rcases hready.box .map with ⟨w, n, tail, htoken, -, -, hok⟩ | ⟨hother, why, hrefused⟩
  · have hmap : (CborReader.new i.spelling).map = .ok _ := hok
    rw [hmap]
    have hfirst : i.token = .map w n := itemStep_first htoken hread
    refine iff_of_true rfl ?_
    cases i with
    | map w pairs => rfl
    | unsigned | negative | bytes | text | array | bool => cases hfirst
  · have hmap : (CborReader.new i.spelling).map = .error why := hrefused
    rw [hmap]
    refine iff_of_false (by simp) ?_
    intro hsome
    cases i with
    | map w pairs => exact hother _ _ hread w pairs.length rfl
    | unsigned | negative | bytes | text | array | bool => cases hsome

def Holds {α : Type} (pairs : List (Key × Item)) (n : ℤ) (f : Item → Option α) (value : α) : Prop :=
  ∃ i, valueAt pairs n = some i ∧ f i = some value

def Item.mapBytes? (i : Item) : Option Bytes := if i.pairs?.isSome then some i.spelling else none

/-- A map has a value under a key, as `f` reads it, exactly where there is one to have. -/
def Shows {α : Type} (pairs : List (Key × Item)) (n : ℤ) (f : Item → Option α) : Option α → Prop
  | none => valueAt pairs n = none
  | some value => Holds pairs n f value

theorem holds_congr {α β : Type} {ps : List (Key × Item)} {f : Item → Option α} {g : Item → Option β} {v : α} {w : β}
    {n : ℤ} (h : ∀ i, f i = some v ↔ g i = some w) : Holds ps n f v ↔ Holds ps n g w := by
  unfold Holds
  simp only [h]

theorem numbered_holds {α : Type} [Numbered α] {ps : List (Key × Item)} {n : ℤ} {a : α} :
    Holds ps n u8Of (Numbered.byte a) ↔ Holds ps n (fun i => (u8Of i).bind Numbered.tryFrom) a := by
  apply holds_congr
  intro i
  rw [Option.bind_eq_some_iff]
  constructor
  · intro h
    exact ⟨_, h, Numbered.tryFrom_byte a⟩
  · rintro ⟨raw, hraw, h⟩
    rw [Numbered.byte_tryFrom h]
    exact hraw

theorem holds_legal {α : Type} {w : Width} {ps : List (Key × Item)} (h : (Item.map w ps).Legal maxDepth)
    {f g : Item → Option α} (hfg : ∀ i, i.Legal 7 → f i = g i) {n : ℤ} {v : α} : Holds ps n f v ↔ Holds ps n g v := by
  apply exists_congr
  intro i
  apply and_congr_right
  intro hvalue
  obtain ⟨k, -, hmem⟩ := valueAt_mem hvalue
  rw [hfg i (h.2.2 _ hmem).2]

theorem mapBytes_some {i : Item} {body : Bytes} : i.mapBytes? = some body ↔ i.pairs?.isSome ∧ i.spelling = body := by
  unfold Item.mapBytes?
  split_ifs with h <;> simp [h]

def keptMap {ε : Type} (refused : ε) (body : Bytes) : Except ε Bytes := do
  probeMap refused body
  .ok body

def keptItem {ε : Type} (refused : ε) (i : Item) : Option Bytes := (keptMap refused i.spelling).toOption

theorem keptItem_legal {ε : Type} (refused : ε) {i : Item} (hi : i.Legal 7) : keptItem refused i = i.mapBytes? := by
  ext kept
  rw [keptItem, toOption_some, keptMap, seq_ok, Except.ok.injEq, probeMap_item _ (hi.mono (by decide)), mapBytes_some]

theorem raw_checked {ε : Type} [FromCbor ε] : (ask raw : Read ε Bytes) = checkedRead (ask raw) .ok := (bind_pure _).symm

namespace Table

variable {ε κ : Type} [DecidableEq κ] [BodyKey κ] {t : Table ε κ} {item : ∀ k, Item → Option (t.Value k)}

omit [DecidableEq κ] in
theorem slotOf_holds {pairs : List (Key × Item)} {s : t.Slots} {k : κ} {v : t.Value k} (h : s k = some v) :
    SlotOf item pairs s k ↔ Holds pairs (BodyKey.number k) (item k) v := by
  cases hvalue : valueAt pairs (BodyKey.number k) with
  | none => simp [slotOf_absent hvalue, Holds, hvalue, h]
  | some i => simp [slotOf_present hvalue, Holds, hvalue, h]

omit [DecidableEq κ] in
theorem slotOf_shows {pairs : List (Key × Item)} {s : t.Slots} {k : κ} :
    SlotOf item pairs s k ↔ Shows pairs (BodyKey.number k) (item k) (s k) := by
  cases h : s k with
  | some v => exact slotOf_holds h
  | none =>
    cases hvalue : valueAt pairs (BodyKey.number k) with
    | none => simp [slotOf_absent hvalue, Shows, hvalue, h]
    | some i => simp [slotOf_present hvalue, Shows, hvalue, h]

/-- The maps a value of a body stands in: what fills its slots, among whatever else. -/
def Stands (item : ∀ k, Item → Option (t.Value k)) (full : t.Slots) (payload : Bytes) : Prop :=
  ∃ w ps, (Item.map w ps).Legal maxDepth ∧ (Item.map w ps).spelling = payload ∧ Keyed ps ∧ ∀ k, SlotOf item ps full k

theorem Decodes.value [FromCbor ε] (h : t.Decodes item) {β : Type} {judge : t.Slots → Except ε β} {v : β} {full : t.Slots}
    (hjudge : ∀ s, judge s = .ok v ↔ s = full) {payload : Bytes} :
    t.decode judge payload = .ok v ↔ Stands item full payload := by
  rw [Table.decode, bind_ok]
  constructor
  · rintro ⟨s, hs, hv⟩
    obtain rfl := (hjudge s).mp hv
    exact (h payload s).mp hs
  · intro hmap
    exact ⟨full, (h payload full).mpr hmap, (hjudge full).mpr rfl⟩

omit [DecidableEq κ] in
theorem stands_iff {full : t.Slots} {payload : Bytes} {P : List (Key × Item) → Prop}
    (h : ∀ w ps, (Item.map w ps).Legal maxDepth → ((∀ k, SlotOf item ps full k) ↔ P ps)) :
    Stands item full payload ↔ ∃ w ps, (Item.map w ps).Legal maxDepth ∧ (Item.map w ps).spelling = payload ∧
      Keyed ps ∧ P ps := by
  apply exists_congr
  intro w
  apply exists_congr
  intro ps
  apply and_congr_right
  intro hlegal
  rw [h w ps hlegal]

end Table

theorem encode_carried {ε κ : Type} [FromCbor ε] [BodyKey κ] {entries : List (κ × List Call)} {items : List (κ × Item)}
    (h : Spelled 7 entries items) {k : κ} (hrise : ∀ i, Rising (items ++ [(k, i)])) {count : UInt64}
    (hcount : items.length + 1 = count.toNat) {body : Bytes} {dst : ℕ} {out : Bytes} :
    encodeBody (writeBody count (entries ++ [(k, [.raw body])]) : Encoder ε Unit) dst = .ok out ↔
      ∃ i : Item, i.Legal 7 ∧ i.spelling = body ∧ out = (bodyItem (items ++ [(k, i)])).spelling ∧
        (bodyItem (items ++ [(k, i)])).spelling.length ≤ dst := by
  have hwritten : ∀ i : Item, i.Legal 7 → i.spelling = body →
      (encodeBody (writeBody count (entries ++ [(k, [.raw body])]) : Encoder ε Unit) dst = .ok out ↔
        out = (bodyItem (items ++ [(k, i)])).spelling ∧ (bodyItem (items ++ [(k, i)])).spelling.length ≤ dst) := by
    intro i hi hspell
    have hlast : Spelled 7 [(k, [.raw body])] [(k, i)] := .cons ⟨rfl, writes_one ⟨hi, hspell⟩⟩ .nil
    exact encode_entries (List.rel_append h hlast) (hrise i) (by simpa using hcount)
  constructor
  · intro hout
    obtain ⟨w, w', len, hw, -, -⟩ := (encodeBody_ok (writeBody_tells count _)).mp hout
    have hcalls : entryCalls (entries ++ [(k, [.raw body])]) = entryCalls entries ++ [keyCall k, .raw body] := by
      simp [entryCalls]
    rw [hcalls] at hw
    have hitems : Rising items := (List.pairwise_append.mp (hrise (.bool true))).1
    obtain ⟨i, hi, hspell⟩ := spliced_last h.pairs (by simpa [keyedPairs] using hcount.symm) hitems.ascends rfl hw
    exact ⟨i, hi, hspell, (hwritten i hi hspell).mp hout⟩
  · rintro ⟨i, hi, hspell, hout⟩
    exact (hwritten i hi hspell).mpr hout

theorem encode_keptMap {ε κ : Type} [FromCbor ε] [BodyKey κ] {entries : List (κ × List Call)} {items : List (κ × Item)}
    (h : Spelled 7 entries items) {k : κ} (hrise : ∀ i, Rising (items ++ [(k, i)])) {count : UInt64}
    (hcount : items.length + 1 = count.toNat) {refused : ε} {body : Bytes} {dst : ℕ} {out : Bytes} :
    (do
      probeMap refused body
      encodeBody (writeBody count (entries ++ [(k, [Call.raw body])]) : Encoder ε Unit) dst) = .ok out ↔
      ∃ i : Item, i.Legal 7 ∧ i.mapBytes? = some body ∧ out = (bodyItem (items ++ [(k, i)])).spelling ∧
        (bodyItem (items ++ [(k, i)])).spelling.length ≤ dst := by
  rw [seq_ok, encode_carried h hrise hcount, ← exists_and_left]
  apply exists_congr
  intro i
  rw [mapBytes_some]
  constructor
  · rintro ⟨hmap, hi, hspell, hout⟩
    rw [← hspell, probeMap_item _ (hi.mono (by decide))] at hmap
    exact ⟨hi, ⟨hmap, hspell⟩, hout⟩
  · rintro ⟨hi, ⟨hmap, hspell⟩, hout⟩
    rw [← hspell, probeMap_item _ (hi.mono (by decide))]
    exact ⟨hmap, hi, rfl, hout⟩

theorem numbered_item {ε α : Type} [Numbered α] (why : UInt8 → ε) (i : Item) :
    checkedItem u8Of (Numbered.known why) i = (u8Of i).bind (Numbered.tryFrom : UInt8 → Option α) := by
  unfold checkedItem
  congr 1
  funext raw
  ext a
  exact toOption_some.trans Numbered.known_ok

class Allocated (α : Type) where
  all : List α
  number : α → UInt16
  found : ∀ a, (all.find? fun b => number b == number a) = some a

namespace Allocated

variable {ε α : Type} [Allocated α]

def tryFrom (v : UInt16) : Option α := all.find? fun b => number b == v

theorem number_tryFrom {v : UInt16} {a : α} (h : tryFrom v = some a) : number a = v := by
  have hnumber := List.find?_some (p := fun b : α => number b == v) h
  exact beq_iff_eq.mp hnumber

def known (why : UInt16 → ε) (raw : UInt16) : Except ε α :=
  match tryFrom raw with
  | some a => .ok a
  | none => .error (why raw)

theorem known_ok {why : UInt16 → ε} {raw : UInt16} {a : α} : known why raw = .ok a ↔ tryFrom raw = some a := by
  unfold known
  cases h : tryFrom (α := α) raw with
  | none => simp
  | some b => simp

theorem number_known (why : UInt16 → ε) (raw : UInt16) (a : α) (h : known why raw = .ok a) : number a = raw :=
  number_tryFrom (known_ok.mp h)

def itemOf (i : Item) : Option α := (u16Of i).bind tryFrom

theorem checked_itemOf (why : UInt16 → ε) (i : Item) : checkedItem u16Of (known why) i = itemOf (α := α) i := by
  unfold checkedItem itemOf
  congr 1
  funext raw
  ext a
  exact toOption_some.trans known_ok

end Allocated

def Codec.allocated {ε α : Type} [FromCbor ε] [Allocated α] (why : UInt16 → ε) : Codec ε α :=
  Codec.u16.checked (Allocated.known why) Allocated.number (Allocated.number_known why)

theorem Codec.allocated_may {ε α : Type} [FromCbor ε] [Allocated α] (why : UInt16 → ε) (a : α) :
    (Codec.allocated why).may a := ⟨trivial, Allocated.known_ok.mpr (Allocated.found a)⟩

end Km43.Cbor
