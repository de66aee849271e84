import Km43.Cbor.Cells
import Km43.Cbor.Deferred
import Km43.Library.BigEndian

namespace Km43.Cbor

open Library CborReader CborWriter

/-- Every key of a body once, each with a number that its head holds. -/
structure KeyList {κ : Type} (all : List κ) : Prop where
  nodup : all.Nodup
  complete : ∀ k, k ∈ all
  few : all.length < 24

class Listed (κ : Type) [DecidableEq κ] where
  all : List κ
  keyList : KeyList all

namespace Listed

variable {κ : Type} [DecidableEq κ] [Listed κ]

theorem nodup : (all (κ := κ)).Nodup := keyList.nodup

theorem mem (k : κ) : k ∈ all := keyList.complete k

theorem few : (all (κ := κ)).length < 24 := keyList.few

def number (k : κ) : ℕ := (all (κ := κ)).idxOf k + 1

def of (n : ℤ) : Option κ := if 1 ≤ n then (all (κ := κ))[(n - 1).toNat]? else none

theorem of_iff (n : ℤ) (k : κ) : of n = some k ↔ n = number k := by
  have hmem : k ∈ all := mem k
  have hlt := List.idxOf_lt_length_of_mem hmem
  unfold of number
  by_cases hn : 1 ≤ n
  · rw [if_pos hn]
    constructor
    · intro h
      obtain ⟨hbound, hget⟩ := List.getElem?_eq_some_iff.mp h
      have hidx : all.idxOf k = (n - 1).toNat := by
        rw [← hget]
        exact nodup.idxOf_getElem _ hbound
      omega
    · intro h
      have hidx : (n - 1).toNat = all.idxOf k := by omega
      rw [hidx, List.getElem?_eq_getElem hlt, List.getElem_idxOf hlt]
  · rw [if_neg hn]
    constructor
    · intro h
      cases h
    · intro h
      omega

theorem small (k : κ) : number k < 24 := by
  have hlt := List.idxOf_lt_length_of_mem (mem k)
  have hfew := few (κ := κ)
  unfold number
  omega

theorem narrow (k : κ) : number k < 256 := (small k).trans (by decide)

instance : BodyKey κ := ⟨of, number, of_iff, narrow⟩

theorem inOrder : InOrder (all (κ := κ)) := by
  refine ⟨?_, mem⟩
  rw [List.pairwise_iff_getElem]
  intro i j hi hj hij
  change all.idxOf all[i] + 1 < all.idxOf all[j] + 1
  rw [nodup.idxOf_getElem i hi, nodup.idxOf_getElem j hj]
  omega

end Listed

inductive NoKey
  deriving DecidableEq

namespace NoKey

theorem keyList : KeyList ([] : List NoKey) := ⟨List.nodup_nil, nofun, by decide⟩

instance : Listed NoKey := ⟨[], keyList⟩

end NoKey

class Numbered (α : Type) where
  all : List α
  byte : α → UInt8
  found : ∀ a, (all.find? fun b => byte b == byte a) = some a

namespace Numbered

variable {ε α : Type} [Numbered α]

def tryFrom (v : UInt8) : Option α := all.find? fun b => byte b == v

theorem tryFrom_byte (a : α) : tryFrom (byte a) = some a := found a

theorem byte_tryFrom {v : UInt8} {a : α} (h : tryFrom v = some a) : byte a = v := by
  have hfound : (all.find? fun b => byte b == v) = some a := h
  have hbyte := List.find?_some hfound
  exact beq_iff_eq.mp hbyte

def known (why : UInt8 → ε) (raw : UInt8) : Except ε α :=
  match tryFrom raw with
  | some a => .ok a
  | none => .error (why raw)

theorem known_ok {why : UInt8 → ε} {raw : UInt8} {a : α} : known why raw = .ok a ↔ tryFrom raw = some a := by
  unfold known
  cases h : tryFrom (α := α) raw with
  | none => simp
  | some b => simp

theorem known_byte (why : UInt8 → ε) (a : α) : known why (byte a) = .ok a := known_ok.mpr (tryFrom_byte a)

theorem byte_known (why : UInt8 → ε) (raw : UInt8) (a : α) (h : known why raw = .ok a) : byte a = raw :=
  byte_tryFrom (known_ok.mp h)

end Numbered

structure Codec (ε α : Type) [FromCbor ε] where
  read : Read ε α
  calls : α → List Call
  may : α → Prop
  item : Item → Option α
  spell : α → Item
  reads : ∀ d, Reads (fun _ => True) d read item
  writes : ∀ d a, may a → Writes d (writeAll (calls a)) (spell a)
  legal : ∀ d a, may a → (spell a).Legal d
  back : ∀ a, may a → item (spell a) = some a
  sound : ∀ d i a, i.Legal d → item i = some a → may a

namespace Codec

variable {ε α β : Type} [FromCbor ε]

section

variable {read : Read ε α} {toU64 : α → UInt64} {item : Item → Option α}

theorem any (d : ℕ) (i : Item) (a : α) (_ : i.Legal d) (_ : item i = some a) : True := trivial

theorem number_writes (toU64 : α → UInt64) (d : ℕ) (a : α) (_ : True) :
    Writes d (writeAll [.u64 (toU64 a)]) (.ofNat (toU64 a).toNat) := writes_one rfl

theorem number_legal (toU64 : α → UInt64) (d : ℕ) (a : α) (_ : True) : (Item.ofNat (toU64 a).toNat).Legal d :=
  Item.ofNat_legal (toU64 a).toNat_lt

def number (read : Read ε α) (toU64 : α → UInt64) (item : Item → Option α)
    (reads : ∀ d, Reads (fun _ => True) d read item) (back : ∀ a, True → item (.ofNat (toU64 a).toNat) = some a) :
    Codec ε α where
  read := read
  calls a := [.u64 (toU64 a)]
  may _ := True
  item := item
  spell a := .ofNat (toU64 a).toNat
  reads := reads
  writes := number_writes toU64
  legal := number_legal toU64
  back := back
  sound := any

end

theorem u8_reads (d : ℕ) : Reads (fun _ : ε => True) d (ask CborReader.u8) u8Of := .u8 fun _ => trivial

theorem u8_back (n : UInt8) (_ : True) : u8Of (.ofNat n.toUInt64.toNat) = some n := u8Of_ofNat n

def u8 : Codec ε UInt8 := number (ask CborReader.u8) UInt8.toUInt64 u8Of u8_reads u8_back

theorem u16_reads (d : ℕ) : Reads (fun _ : ε => True) d (ask CborReader.u16) u16Of := .u16 fun _ => trivial

theorem u16_back (n : UInt16) (_ : True) : u16Of (.ofNat n.toUInt64.toNat) = some n := u16Of_ofNat n

def u16 : Codec ε UInt16 := number (ask CborReader.u16) UInt16.toUInt64 u16Of u16_reads u16_back

theorem u32_reads (d : ℕ) : Reads (fun _ : ε => True) d (ask CborReader.u32) u32Of := .u32 fun _ => trivial

theorem u32_back (n : UInt32) (_ : True) : u32Of (.ofNat n.toUInt64.toNat) = some n := u32Of_ofNat n

def u32 : Codec ε UInt32 := number (ask CborReader.u32) UInt32.toUInt64 u32Of u32_reads u32_back

theorem word_takes (d : ℕ) : Reads (fun _ : ε => True) d (UInt64.ofNat <$> ask CborReader.u64) u64Of := word_reads

theorem word_back (n : UInt64) (_ : True) : u64Of (.ofNat n.toNat) = some n := u64Of_ofNat n

def word : Codec ε UInt64 := number (UInt64.ofNat <$> ask CborReader.u64) id u64Of word_takes word_back

theorem text_reads (d : ℕ) : Reads (fun _ : ε => True) d textValue Item.str? := textValue_reads fun _ => trivial

theorem text_writes (d : ℕ) (s : Str) (h : s.raw.length ≤ maxString) : Writes d (writeAll [.text s]) (.ofText s) :=
  writes_one ⟨rfl, h⟩

theorem text_legal (d : ℕ) (s : Str) (h : s.raw.length ≤ maxString) : (Item.ofText s).Legal d := Item.ofText_legal h

theorem text_back (s : Str) (_ : s.raw.length ≤ maxString) : (Item.ofText s).str? = some s := str_ofText s

theorem text_sound (d : ℕ) (i : Item) (s : Str) (hi : i.Legal d) (h : i.str? = some s) : s.raw.length ≤ maxString := by
  cases i with
  | text w raw =>
    simp only [Item.str?] at h
    split_ifs at h
    obtain rfl := Option.some.inj h
    cases d <;> exact hi.2.1
  | unsigned | negative | bytes | array | map | bool => cases h

def text : Codec ε Str where
  read := textValue
  calls s := [.text s]
  may s := s.raw.length ≤ maxString
  item := Item.str?
  spell := .ofText
  reads := text_reads
  writes := text_writes
  legal := text_legal
  back := text_back
  sound := text_sound

theorem bytes_reads (d : ℕ) : Reads (fun _ : ε => True) d (ask bytesValue) Item.bytes? := .bytesValue fun _ => trivial

theorem bytes_writes (d : ℕ) (raw : Bytes) (_ : raw.length < 2 ^ 64) : Writes d (writeAll [.bytes raw]) (.ofBytes raw) :=
  writes_one rfl

theorem bytes_legal (d : ℕ) (raw : Bytes) (h : raw.length < 2 ^ 64) : (Item.ofBytes raw).Legal d := Item.ofBytes_legal h

theorem bytes_back (raw : Bytes) (_ : raw.length < 2 ^ 64) : (Item.ofBytes raw).bytes? = some raw := rfl

theorem bytes_sound (d : ℕ) (i : Item) (raw : Bytes) (hi : i.Legal d) (h : i.bytes? = some raw) :
    raw.length < 2 ^ 64 := by
  cases i with
  | bytes w data =>
    obtain rfl := Option.some.inj h
    have hw : w.Holds data.length := by cases d <;> exact hi
    exact hw.trans_le (by cases w <;> decide)
  | unsigned | negative | text | array | map | bool => cases h

def bytes : Codec ε Bytes where
  read := ask bytesValue
  calls raw := [.bytes raw]
  may raw := raw.length < 2 ^ 64
  item := Item.bytes?
  spell := .ofBytes
  reads := bytes_reads
  writes := bytes_writes
  legal := bytes_legal
  back := bytes_back
  sound := bytes_sound

section

variable {c : Codec ε α} {check : α → Except ε β} {un : β → α}

theorem checked_reads (c : Codec ε α) (check : α → Except ε β) (d : ℕ) :
    Reads (fun _ => True) d (checkedRead c.read check) (checkedItem c.item check) := checkedRead_reads (c.reads d) check

theorem checked_writes (c : Codec ε α) (check : α → Except ε β) (un : β → α) (d : ℕ) (b : β)
    (h : c.may (un b) ∧ check (un b) = .ok b) : Writes d (writeAll (c.calls (un b))) (c.spell (un b)) :=
  c.writes d (un b) h.1

theorem checked_legal (c : Codec ε α) (check : α → Except ε β) (un : β → α) (d : ℕ) (b : β)
    (h : c.may (un b) ∧ check (un b) = .ok b) : (c.spell (un b)).Legal d := c.legal d (un b) h.1

theorem checked_back (c : Codec ε α) (check : α → Except ε β) (un : β → α) (b : β)
    (h : c.may (un b) ∧ check (un b) = .ok b) : checkedItem c.item check (c.spell (un b)) = some b :=
  checkedItem_ok (c.back (un b) h.1) h.2

theorem checked_sound (h : ∀ a b, check a = .ok b → un b = a) (d : ℕ) (i : Item) (b : β) (hi : i.Legal d)
    (hb : checkedItem c.item check i = some b) : c.may (un b) ∧ check (un b) = .ok b := by
  obtain ⟨a, ha, hcheck⟩ := Option.bind_eq_some_iff.mp hb
  have hok := toOption_some.mp hcheck
  rw [h a b hok]
  exact ⟨c.sound d i a hi ha, hok⟩

def checked (c : Codec ε α) (check : α → Except ε β) (un : β → α) (only : ∀ a b, check a = .ok b → un b = a) :
    Codec ε β where
  read := checkedRead c.read check
  calls b := c.calls (un b)
  may b := c.may (un b) ∧ check (un b) = .ok b
  item := checkedItem c.item check
  spell b := c.spell (un b)
  reads := checked_reads c check
  writes := checked_writes c check un
  legal := checked_legal c check un
  back := checked_back c check un
  sound := checked_sound only

end

def closed [Numbered α] (why : UInt8 → ε) : Codec ε α :=
  u8.checked (Numbered.known why) Numbered.byte (Numbered.byte_known why)

theorem closed_may [Numbered α] (why : UInt8 → ε) (a : α) : (closed why).may a := ⟨trivial, Numbered.known_byte why a⟩

def fixedOf (n : ℕ) (why : ℕ → ε) (raw : Bytes) : Except ε (Vector UInt8 n) :=
  if raw.length = n then .ok (fill n raw) else .error (why raw.length)

omit [FromCbor ε] in
theorem fixedOf_toList {n : ℕ} (why : ℕ → ε) (v : Vector UInt8 n) : fixedOf n why v.toList = .ok v := by
  have hlen : v.toList.length = n := v.length_toList
  rw [fixedOf, if_pos hlen]
  exact congrArg _ (Vector.toList_inj.mp (fill_toList hlen))

omit [FromCbor ε] in
theorem fixedOf_only (n : ℕ) (why : ℕ → ε) (raw : Bytes) (v : Vector UInt8 n) (h : fixedOf n why raw = .ok v) :
    v.toList = raw := by
  unfold fixedOf at h
  split_ifs at h with hlen
  rw [← Except.ok.inj h]
  exact fill_toList hlen

def fixed (n : ℕ) (why : ℕ → ε) : Codec ε (Vector UInt8 n) :=
  bytes.checked (fixedOf n why) (fun v => v.toList) (fixedOf_only n why)

theorem fixed_may {n : ℕ} (hn : n < 2 ^ 64) (why : ℕ → ε) (v : Vector UInt8 n) : (fixed n why).may v := by
  refine ⟨?_, fixedOf_toList why v⟩
  change v.toList.length < 2 ^ 64
  rwa [v.length_toList]

end Codec

namespace Table

variable {ε κ : Type} [FromCbor ε] {Value : κ → Type}

def ofCodecs (codec : ∀ k, Codec ε (Value k)) (twice : κ → ε) : Table ε κ := ⟨Value, fun k => (codec k).read, twice⟩

end Table

end Km43.Cbor
