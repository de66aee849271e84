import Km43.Cbor.Reads
import Km43.Cbor.Written
import Km43.Cbor.Typed

namespace Km43.Cbor

open Library CborWriter

def optionalPair {α : Type} (k : ℕ) (o : Option α) (f : α → Item) : List (Key × Item) :=
  (o.map fun a => (Key.ofNat k, f a)).toList

theorem Width.of_holds {n : ℕ} (h : n < 2 ^ 64) : (Width.of n).Holds n := by
  unfold Width.of Width.Holds
  split_ifs <;> simp only [Width.limit] <;> omega

theorem Key.ofNat_legal {n : ℕ} (h : n < 2 ^ 64) : (Key.ofNat n).Legal := Width.of_holds h

theorem Key.ofNat_rank (n : ℕ) : (Key.ofNat n).rank = ⟨false, n⟩ := rfl

theorem Key.ofNat_i64 {n : ℕ} (h : n ≤ CborReader.i64Max) : (Key.ofNat n).i64? = some (n : ℤ) := if_pos h

theorem headBytes_le (m : Major) {n : ℕ} :
    (headBytes m (Width.of n) n).length ≤ 9 ∧
    (n ≤ 0xFFFFFFFF → (headBytes m (Width.of n) n).length ≤ 5) ∧
    (n ≤ 0xFFFF → (headBytes m (Width.of n) n).length ≤ 3) ∧
    (n ≤ 0xFF → (headBytes m (Width.of n) n).length ≤ 2) ∧
    (n < 24 → (headBytes m (Width.of n) n).length = 1) := by
  have hbytes : (Width.of n).bytes = if n < 24 then 0 else if n ≤ 0xFF then 1
      else if n ≤ 0xFFFF then 2 else if n ≤ 0xFFFFFFFF then 4 else 8 := by
    unfold Width.of
    split_ifs <;> rfl
  rw [headBytes_length, hbytes]
  split_ifs <;> omega

namespace Item

theorem ofNat_legal {n d : ℕ} (h : n < 2 ^ 64) : (Item.ofNat n).Legal d := by
  cases d <;> exact Width.of_holds h

theorem ofBytes_legal {raw : Bytes} {d : ℕ} (h : raw.length < 2 ^ 64) : (Item.ofBytes raw).Legal d := by
  cases d <;> exact Width.of_holds h

theorem bool_legal {b : Bool} {d : ℕ} : (Item.bool b).Legal d := by
  cases d <;> trivial

theorem ofItems_legal {items : List Item} {d : ℕ} (hlen : items.length < 2 ^ 64)
    (h : ∀ i ∈ items, i.Legal d) : (Item.ofItems items).Legal (d + 1) := ⟨Width.of_holds hlen, h⟩

end Item

theorem ascends_above {last : Option KeyRank} {pairs : List (Key × Item)} (h : Ascends last pairs) :
    (pairs.map fun p => p.1.rank).Nodup ∧
      ∀ g, last = some g → ∀ p ∈ pairs, p.1.rank.le g = false := by
  induction pairs generalizing last with
  | nil => simp
  | cons p pairs ih =>
    obtain ⟨hfirst, hrest⟩ := h
    obtain ⟨hnodup, habove⟩ := ih hrest
    refine ⟨?_, fun g hg q hq => ?_⟩
    · rw [List.map_cons, List.nodup_cons]
      refine ⟨fun hmem => ?_, hnodup⟩
      obtain ⟨q, hq, heq⟩ := List.mem_map.mp hmem
      have hle := habove _ rfl q hq
      rw [heq, KeyRank.le_refl] at hle
      cases hle
    · rcases List.mem_cons.mp hq with rfl | hq
      · exact hfirst g hg
      · have hqp := habove _ rfl q hq
        have hpg := hfirst g hg
        cases hle : q.1.rank.le g with
        | false => rfl
        | true =>
          rcases KeyRank.le_total p.1.rank g with h | h
          · rw [hpg] at h
            cases h
          · rw [KeyRank.le_trans hle h] at hqp
            cases hqp

namespace Item

theorem ofPairs_legal {pairs : List (Key × Item)} {d : ℕ} (hlen : pairs.length < 2 ^ 64)
    (hasc : Ascends none pairs) (h : ∀ p ∈ pairs, p.1.Legal ∧ p.2.Legal d) :
    (Item.ofPairs pairs).Legal (d + 1) := ⟨Width.of_holds hlen, (ascends_above hasc).1, h⟩

end Item

theorem foldPairs_append {σ : Type} (f : ℤ → σ → Item → Option σ) (ps qs : List (Key × Item)) (s : σ) :
    foldPairs f (ps ++ qs) s = (foldPairs f ps s).bind (foldPairs f qs) := by
  induction ps generalizing s with
  | nil => rfl
  | cons p ps ih =>
    simp only [List.cons_append, foldPairs]
    cases p.1.i64? with
    | none => rfl
    | some k => cases h : f k s p.2 <;> simp [h, ih]

theorem foldPairs_cons {σ : Type} (f : ℤ → σ → Item → Option σ) {k : ℕ} (hk : k ≤ CborReader.i64Max)
    (v : Item) (rest : List (Key × Item)) (s : σ) :
    foldPairs f ((Key.ofNat k, v) :: rest) s = (f k s v).bind (foldPairs f rest) := by
  simp only [foldPairs, Key.ofNat_i64 hk, Option.bind_some]

theorem foldPairs_optional {σ α : Type} (f : ℤ → σ → Item → Option σ) {k : ℕ}
    (hk : k ≤ CborReader.i64Max) (o : Option α) (g : α → Item) (rest : List (Key × Item)) (s : σ) :
    foldPairs f (optionalPair k o g ++ rest) s =
      (o.elim (some s) fun a => f k s (g a)).bind (foldPairs f rest) := by
  cases o with
  | none => rfl
  | some a => exact foldPairs_cons f hk (g a) rest s

theorem foldPairs_last {σ α : Type} (f : ℤ → σ → Item → Option σ) {k : ℕ}
    (hk : k ≤ CborReader.i64Max) (o : Option α) (g : α → Item) (s : σ) :
    foldPairs f (optionalPair k o g) s = o.elim (some s) fun a => f k s (g a) := by
  rw [← List.append_nil (optionalPair k o g), foldPairs_optional f hk]
  cases o.elim (some s) fun a => f k s (g a) <;> rfl

structure Str where
  raw : Bytes
  utf8 : isUtf8 raw = true

def Item.ofText (text : Str) : Item := .text (Width.of text.raw.length) text.raw

def Item.ofInt (value : Int32) : Item :=
  if value.toInt < 0 then .negative (Width.of (value.toInt.natAbs - 1)) (value.toInt.natAbs - 1)
  else .ofNat value.toInt.natAbs

inductive Call
  | array (len : UInt64)
  | map (pairs : UInt64)
  | key (key : Int64)
  | u64 (value : UInt64)
  | i32 (value : Int32)
  | bool (value : Bool)
  | bytes (value : Bytes)
  | fill (value : Bytes)
  | text (value : Str)
  | raw (item : Bytes)

namespace Call

def fillAt (start : ℕ) (value : Bytes) : Write Unit := fun w =>
  .ok ((), { w with out := (paste w.out start value).getD w.out })

def write : Call → Write Unit
  | array len => CborWriter.array len.toNat
  | map pairs => CborWriter.map pairs.toNat
  | key k => CborWriter.key k.toInt
  | u64 value => CborWriter.u64 value.toNat
  | i32 value => CborWriter.i32 value
  | bool value => CborWriter.bool value
  | bytes value => CborWriter.bytes value
  | fill value => do
    let start ← bytesToFill value.length
    fillAt start value
  | text value => CborWriter.text value.raw
  | raw item => CborWriter.raw item

def isValue : Call → Bool
  | array _ | map _ | key _ => false
  | u64 _ | i32 _ | bool _ | bytes _ | fill _ | text _ | raw _ => true

/-- The item that a call writes where a value belongs, with `d` more levels to nest. -/
def Spells (d : ℕ) : Call → Item → Prop
  | u64 value, i => i = .ofNat value.toNat
  | i32 value, i => i = .ofInt value
  | bool value, i => i = .bool value
  | bytes value, i | fill value, i => i = .ofBytes value
  | text value, i => i = .ofText value ∧ value.raw.length ≤ maxString
  | raw item, i => i.Legal d ∧ i.spelling = item
  | array _, _ | map _, _ | key _, _ => False

end Call

namespace CborWriter

variable {w w' : CborWriter}

theorem liftM_inv {α : Type} {x : Except CborError α} {a : α} (h : (liftM x : Write α) w = .ok (a, w')) :
    x = .ok a ∧ w' = w := by
  cases x <;> cases h
  exact ⟨rfl, rfl⟩

theorem openItem_inv (h : openItem w = .ok ((), w')) :
    w.nest.settle.atKey = false ∧ w' = { w with nest := w.nest.settle } := by
  simp only [openItem] at h
  split_ifs at h with hkey
  cases h
  exact ⟨by simpa using hkey, rfl⟩

theorem emit_inv {data : Bytes} (h : emit data w = .ok ((), w')) :
    w' = { w with out := w.out ++ data } ∧ w.Fits data := by
  unfold emit at h
  split_ifs at h with hfits
  cases h
  exact ⟨rfl, Nat.not_lt.mp hfits⟩

theorem head_inv {major : Major} {argument payload : ℕ} (h : head major argument payload w = .ok ((), w')) :
    w' = { w with out := w.out ++ headBytes major (Width.of argument) argument } ∧
      w.out.length + (headBytes major (Width.of argument) argument).length + payload ≤ w.capacity := by
  simp only [head] at h
  split_ifs at h with hfits
  exact ⟨(emit_inv h).1, by omega⟩

theorem countItem_inv (h : countItem w = .ok ((), w')) : w' = { w with nest := w.nest.countItem } := by
  cases h
  rfl

theorem head_wrote {major : Major} {argument : ℕ} {data : Bytes}
    (h : (do openItem; head major argument data.length; emit data; countItem) w = .ok ((), w')) :
    w.nest.settle.atKey = false ∧
      w' = { w with
        out := w.out ++ (headBytes major (Width.of argument) argument ++ data)
        nest := w.nest.settle.countItem } ∧
      w.Fits (headBytes major (Width.of argument) argument ++ data) := by
  obtain ⟨⟨⟩, w₁, h₁, h⟩ := bind_run_ok.mp h
  obtain ⟨⟨⟩, w₂, h₂, h⟩ := bind_run_ok.mp h
  obtain ⟨⟨⟩, w₃, h₃, h⟩ := bind_run_ok.mp h
  obtain ⟨hkey, rfl⟩ := openItem_inv h₁
  obtain ⟨rfl, hfits⟩ := head_inv h₂
  obtain ⟨rfl, -⟩ := emit_inv h₃
  obtain rfl := countItem_inv h
  have hroom : w.out.length + (headBytes major (Width.of argument) argument).length + data.length ≤
      w.capacity := hfits
  refine ⟨hkey, by simp, ?_⟩
  simp only [Fits, List.length_append]
  omega

theorem head_only_wrote {major : Major} {argument : ℕ}
    (h : (do openItem; head major argument 0; countItem) w = .ok ((), w')) :
    w.nest.settle.atKey = false ∧
      w' = { w with
        out := w.out ++ headBytes major (Width.of argument) argument
        nest := w.nest.settle.countItem } ∧
      w.Fits (headBytes major (Width.of argument) argument) := by
  obtain ⟨⟨⟩, w₁, h₁, h⟩ := bind_run_ok.mp h
  obtain ⟨⟨⟩, w₂, h₂, h⟩ := bind_run_ok.mp h
  obtain ⟨hkey, rfl⟩ := openItem_inv h₁
  obtain ⟨rfl, hfits⟩ := head_inv h₂
  obtain rfl := countItem_inv h
  exact ⟨hkey, rfl, hfits⟩

def Counted (w w' : CborWriter) (i : Item) : Prop :=
  w.nest.settle.atKey = false ∧ w.Fits i.spelling ∧
    Wrote w w' i.spelling w.nest.settle.countItem.settle.opened

theorem Counted.of_eq {i : Item} {data : Bytes} (hi : i.spelling = data)
    (h : w.nest.settle.atKey = false ∧
      w' = { w with out := w.out ++ data, nest := w.nest.settle.countItem } ∧ w.Fits data) :
    Counted w w' i := by
  obtain ⟨hkey, rfl, hfits⟩ := h
  subst hi
  exact ⟨hkey, hfits, rfl, rfl, rfl⟩

theorem u64_counted {value : ℕ} (h : u64 value w = .ok ((), w')) : Counted w w' (.ofNat value) :=
  .of_eq rfl (head_only_wrote h)

theorem bool_counted {value : Bool} (h : bool value w = .ok ((), w')) : Counted w w' (.bool value) := by
  refine .of_eq ?_ (head_only_wrote h)
  cases value <;> rfl

theorem i32_counted {value : Int32} (h : i32 value w = .ok ((), w')) : Counted w w' (.ofInt value) := by
  unfold i32 at h
  unfold Item.ofInt
  split_ifs at h ⊢
  · exact .of_eq rfl (head_only_wrote h)
  · exact .of_eq rfl (head_only_wrote h)

theorem bytes_counted {value : Bytes} (h : bytes value w = .ok ((), w')) :
    Counted w w' (.ofBytes value) := .of_eq rfl (head_wrote h)

theorem text_counted {value : Str} (h : text value.raw w = .ok ((), w')) :
    Counted w w' (.ofText value) ∧ value.raw.length ≤ maxString := by
  unfold text at h
  split_ifs at h with hlong
  · obtain ⟨⟨⟩, w₁, h₁, h⟩ := bind_run_ok.mp h
    cases h
  · exact ⟨.of_eq rfl (head_wrote h), Nat.not_lt.mp hlong⟩

theorem bytesToFill_wrote {len start : ℕ} (h : bytesToFill len w = .ok (start, w')) :
    w.nest.settle.atKey = false ∧ start = (w.out ++ headBytes .bytes (Width.of len) len).length ∧
      w' = { w with
        out := w.out ++ headBytes .bytes (Width.of len) len ++ List.replicate len 0
        nest := w.nest.settle.countItem } ∧
      w.Fits (headBytes .bytes (Width.of len) len ++ List.replicate len 0) := by
  obtain ⟨⟨⟩, w₁, h₁, h⟩ := bind_run_ok.mp h
  obtain ⟨⟨⟩, w₂, h₂, h⟩ := bind_run_ok.mp h
  obtain ⟨w₃, w₄, h₃, h⟩ := bind_run_ok.mp h
  obtain ⟨⟨⟩, w₅, h₅, h⟩ := bind_run_ok.mp h
  obtain ⟨⟨⟩, w₆, h₆, h⟩ := bind_run_ok.mp h
  obtain ⟨hkey, rfl⟩ := openItem_inv h₁
  obtain ⟨rfl, hfits⟩ := head_inv h₂
  cases h₃
  obtain ⟨rfl, -⟩ := emit_inv h₅
  obtain rfl := countItem_inv h₆
  cases h
  have hroom : w.out.length + (headBytes .bytes (Width.of len) len).length + len ≤ w.capacity := hfits
  refine ⟨hkey, rfl, rfl, ?_⟩
  simp only [Fits, List.length_append, List.length_replicate]
  omega

theorem fill_counted {value : Bytes} (h : (Call.fill value).write w = .ok ((), w')) :
    Counted w w' (.ofBytes value) := by
  obtain ⟨start, w₁, h₁, h⟩ := bind_run_ok.mp h
  obtain ⟨hkey, rfl, rfl, hfits⟩ := bytesToFill_wrote h₁
  have hpaste := paste_over (w.out ++ headBytes .bytes (Width.of value.length) value.length) value
    (List.replicate value.length 0) [] List.length_replicate
  simp only [List.append_nil] at hpaste
  cases h
  have hspell : (Item.ofBytes value).spelling =
      headBytes .bytes (Width.of value.length) value.length ++ value := rfl
  refine .of_eq hspell ⟨hkey, ?_, ?_⟩
  · rw [hpaste, Option.getD_some, ← List.append_assoc]
  · simpa [Fits] using hfits

theorem raw_counted {item : Bytes} {d : ℕ} (h : raw item w = .ok ((), w'))
    (hd : w.stack.length + d = maxDepth) :
    ∃ i : Item, i.Legal d ∧ i.spelling = item ∧ Counted w w' i := by
  obtain ⟨⟨⟩, w₁, h₁, h⟩ := bind_run_ok.mp h
  obtain ⟨hkey, rfl⟩ := openItem_inv h₁
  obtain ⟨⟨⟨⟩, walk⟩, w₂, h₂, h⟩ := bind_run_ok.mp h
  obtain ⟨hskip, rfl⟩ := liftM_inv h₂
  obtain ⟨⟨⟩, w₃, h₃, h⟩ := bind_run_ok.mp h
  obtain ⟨hfinish, rfl⟩ := liftM_inv h₃
  obtain ⟨i, hlegal, hspell, hdeep⟩ := CborReader.skip_finish_deepest hskip hfinish
  obtain ⟨w₄, w₅, h₄, h⟩ := bind_run_ok.mp h
  cases h₄
  have hdepth : w.nest.settle.depth = w.stack.length := rfl
  split_ifs at h with htoo
  · cases h
  · obtain ⟨⟨⟩, w₆, h₆, h⟩ := bind_run_ok.mp h
    obtain ⟨rfl, hfits⟩ := emit_inv h₆
    obtain rfl := countItem_inv h
    have hroom : ¬w.nest.settle.depth + walk.nest.deepest > maxDepth := htoo
    refine ⟨i, hlegal.of_depth ?_, hspell, .of_eq hspell ⟨hkey, rfl, hfits⟩⟩
    omega

theorem owing_head {s base : List Open} {level : Open} (h : owing s = level :: base) :
    level.remaining ≠ 0 := by
  induction s with
  | nil => cases h
  | cons top s ih =>
    by_cases ht : top.remaining = 0
    · rw [owing_zero ht] at h
      exact ih h
    · rw [owing_pos (Nat.pos_of_ne_zero ht)] at h
      cases h
      exact ht

theorem box_wrote {major : Major} {n items : ℕ} {kind : Nesting}
    (h : (do openItem; room; head major n 0; countItem; push kind items) w = .ok ((), w')) :
    w.nest.settle.atKey = false ∧ w.stack.length < maxDepth ∧
      w.Fits (headBytes major (Width.of n) n) ∧
      w' = w.inside (headBytes major (Width.of n) n) kind items := by
  obtain ⟨⟨⟩, w₁, h₁, h⟩ := bind_run_ok.mp h
  obtain ⟨⟨⟩, w₂, h₂, h⟩ := bind_run_ok.mp h
  obtain ⟨⟨⟩, w₃, h₃, h⟩ := bind_run_ok.mp h
  obtain ⟨⟨⟩, w₄, h₄, h⟩ := bind_run_ok.mp h
  obtain ⟨hkey, rfl⟩ := openItem_inv h₁
  unfold room at h₂
  split_ifs at h₂ with hroom
  cases h₂
  obtain ⟨rfl, hfits⟩ := head_inv h₃
  obtain rfl := countItem_inv h₄
  have hdepth : w.nest.settle.depth < maxDepth := by simpa [Nest.hasRoom] using hroom
  refine ⟨hkey, hdepth, hfits, ?_⟩
  obtain ⟨d, hd⟩ := Nat.exists_eq_add_of_lt hdepth
  have hlevels : w.stack.length + (d + 1) = maxDepth := by
    rw [hd]
    rfl
  have hpush := push_ok hlevels kind items
  simp only [push, hpush] at h
  cases h
  rfl

theorem key_wrote {k : ℤ} (h : key k w = .ok ((), w')) :
    0 ≤ k ∧ ∃ level base n, w.stack = level :: base ∧ level.kind = .map ∧
      level.remaining = (n + 1) * 2 ∧
      (∀ g, level.lastKey = some g → (Key.ofNat k.toNat).rank.le g = false) ∧
      w.Fits (Key.ofNat k.toNat).spelling ∧
      w' = { w with
        out := w.out ++ (Key.ofNat k.toNat).spelling
        nest := ⟨{ level with remaining := n * 2 + 1, lastKey := some (Key.ofNat k.toNat).rank } :: base,
          w.nest.deepest⟩ } := by
  unfold key at h
  split_ifs at h with hsign
  · cases h
  obtain ⟨⟨⟩, w₁, h₁, h⟩ := bind_run_ok.mp h
  obtain ⟨⟨⟩, w₂, h₂, h⟩ := bind_run_ok.mp h
  refine ⟨Int.not_lt.mp hsign, ?_⟩
  simp only [takeKey] at h₁
  split_ifs at h₁ with hat
  obtain ⟨nest, htake, h₁⟩ := bind_ok.mp h₁
  cases h₁
  obtain ⟨rfl, hfits⟩ := head_inv h₂
  obtain rfl := countItem_inv h
  cases hopened : w.nest.settle.opened with
  | nil => simp [Nest.atKey, hopened] at hat
  | cons level base =>
    have hpos : level.remaining ≠ 0 := owing_head hopened
    simp only [Nest.atKey, hopened, Bool.and_eq_true, beq_iff_eq] at hat
    obtain ⟨n, hn⟩ : ∃ n, level.remaining = (n + 1) * 2 := ⟨level.remaining / 2 - 1, by omega⟩
    have hlast : ∀ g, level.lastKey = some g → (Key.ofNat k.toNat).rank.le g = false := by
      intro g hg
      simp only [Nest.takeKey, hopened, hg] at htake
      split_ifs at htake with hle
      simpa [Key.ofNat_rank] using hle
    have hnest : nest = ⟨{ level with lastKey := some (Key.ofNat k.toNat).rank } :: base, w.nest.deepest⟩ := by
      simp only [Nest.takeKey, hopened] at htake
      cases hg : level.lastKey with
      | none =>
        rw [hg] at htake
        cases htake
        rfl
      | some g =>
        simp only [hg] at htake
        split_ifs at htake
        cases htake
        rfl
    refine ⟨level, base, n, hopened, hat.1, hn, hlast, hfits, ?_⟩
    have hcount : (n + 1) * 2 - 1 = n * 2 + 1 := by omega
    simp only [hnest, Nest.countItem, hn, hcount]
    rfl

end CborWriter

def writeAll : List Call → Write Unit
  | [] => pure ()
  | call :: calls => do
    call.write
    writeAll calls

def owed (stack : List Open) : ℕ := (stack.map Open.remaining).sum

theorem owed_owing (stack : List Open) : owed (owing stack) = owed stack := by
  induction stack with
  | nil => rfl
  | cons top stack ih =>
    by_cases ht : top.remaining = 0
    · rw [owing_zero ht, ih]
      simp [owed, ht]
    · rw [owing_pos (Nat.pos_of_ne_zero ht)]

def countTop : List Open → List Open
  | top :: base => { top with remaining := top.remaining - 1 } :: base
  | [] => []

theorem countItem_opened (n : Nest) : n.countItem.opened = countTop n.opened := by
  unfold Nest.countItem countTop
  split <;> simp_all

theorem owed_countTop (stack : List Open) : owed stack ≤ owed (countTop stack) + 1 := by
  cases stack with
  | nil => simp [owed]
  | cons top stack =>
    simp only [owed, countTop, List.map_cons, List.sum_cons]
    omega

def Call.Opens : Call → Nesting → ℕ → Prop
  | array len, kind, n => kind = .array ∧ n = len.toNat
  | map pairs, kind, n => kind = .map ∧ n = pairs.toNat
  | _, _, _ => False

inductive Did (w w' : CborWriter) : Call → Prop
  | item {call : Call} {d : ℕ} {i : Item} (levels : w.stack.length + d = maxDepth)
      (spells : call.Spells d i) (counted : Counted w w' i) : Did w w' call
  | box {call : Call} {kind : Nesting} {n : ℕ} (opens : call.Opens kind n)
      (value : w.nest.settle.atKey = false) (levels : w.stack.length < maxDepth)
      (fits : w.Fits (kind.token (Width.of n) n).spelling)
      (moved : w' = w.inside (kind.token (Width.of n) n).spelling kind (n * kind.per)) : Did w w' call
  | key {k : Int64} {level : Open} {base : List Open} {n : ℕ} (sign : 0 ≤ k.toInt)
      (stack : w.stack = level :: base) (kind : level.kind = .map)
      (remaining : level.remaining = (n + 1) * 2)
      (above : ∀ g, level.lastKey = some g → (Key.ofNat k.toInt.toNat).rank.le g = false)
      (fits : w.Fits (Key.ofNat k.toInt.toNat).spelling)
      (moved : w' = { w with
        out := w.out ++ (Key.ofNat k.toInt.toNat).spelling
        nest := ⟨{ level with remaining := n * 2 + 1, lastKey := some (Key.ofNat k.toInt.toNat).rank } ::
          base, w.nest.deepest⟩ }) : Did w w' (.key k)

variable {w w' : CborWriter}

theorem Call.did {call : Call} (h : call.write w = .ok ((), w')) (hs : w.stack.length ≤ maxDepth) :
    Did w w' call := by
  obtain ⟨d, hd⟩ := Nat.exists_eq_add_of_le hs
  have hlevels := hd.symm
  cases call with
  | array len =>
    obtain ⟨hvalue, hdepth, hfits, hmoved⟩ := box_wrote h
    have hopens : (Call.array len).Opens .array len.toNat := ⟨rfl, rfl⟩
    refine .box hopens hvalue hdepth hfits ?_
    rw [hmoved, Nesting.per, Nat.mul_one]
    rfl
  | map pairs =>
    obtain ⟨hvalue, hdepth, hfits, hmoved⟩ := box_wrote h
    have hopens : (Call.map pairs).Opens .map pairs.toNat := ⟨rfl, rfl⟩
    exact .box hopens hvalue hdepth hfits hmoved
  | key k =>
    obtain ⟨hsign, level, base, n, hstack, hkind, hrem, habove, hfits, hmoved⟩ := key_wrote h
    exact .key hsign hstack hkind hrem habove hfits hmoved
  | u64 value => exact .item hlevels rfl (u64_counted h)
  | i32 value => exact .item hlevels rfl (i32_counted h)
  | bool value => exact .item hlevels rfl (bool_counted h)
  | bytes value => exact .item hlevels rfl (bytes_counted h)
  | fill value => exact .item hlevels rfl (fill_counted h)
  | text value => exact .item hlevels ⟨rfl, (text_counted h).2⟩ (text_counted h).1
  | raw item =>
    obtain ⟨i, hlegal, hspell, hcounted⟩ := raw_counted h hlevels
    exact .item hlevels ⟨hlegal, hspell⟩ hcounted

/-- What every call keeps: nothing written is taken back, and what is owed is paid in bytes. -/
structure Grows (w w' : CborWriter) : Prop where
  out : w.out <+: w'.out
  capacity : w'.capacity = w.capacity
  shallow : w.stack.length ≤ maxDepth → w'.stack.length ≤ maxDepth
  within : w.out.length ≤ w.capacity → w'.out.length ≤ w'.capacity
  pays : w.out.length + owed w.stack ≤ w'.out.length + owed w'.stack

theorem Grows.refl (w : CborWriter) : Grows w w := ⟨List.prefix_refl _, rfl, id, id, le_rfl⟩

theorem Grows.trans {w'' : CborWriter} (h : Grows w w') (h' : Grows w' w'') : Grows w w'' :=
  ⟨h.out.trans h'.out, h'.capacity.trans h.capacity, fun hs => h'.shallow (h.shallow hs),
    fun hw => h'.within (h.within hw), h.pays.trans h'.pays⟩

theorem owing_length (stack : List Open) : (owing stack).length ≤ stack.length :=
  (List.dropWhile_suffix _).length_le

theorem countTop_length (stack : List Open) : (countTop stack).length = stack.length := by
  cases stack <;> rfl

theorem Item.spelling_pos (i : Item) : 0 < i.spelling.length := by
  cases i <;>
  · simp only [spelling, List.length_append]
    have := Token.spelling_pos
    grind

theorem stack_counted (w : CborWriter) :
    w.nest.settle.countItem.settle.opened = owing (countTop w.stack) := by
  rw [show w.nest.settle.countItem.settle.opened = owing w.nest.settle.countItem.opened from rfl,
    countItem_opened]
  rfl

theorem stack_inside (w : CborWriter) (head : Bytes) (kind : Nesting) (items : ℕ) :
    (w.inside head kind items).stack = owing (⟨kind, items, none, 0⟩ :: countTop w.stack) := by
  rw [stack_eq, inside, countItem_opened]
  rfl

theorem Did.grows {call : Call} (h : Did w w' call) : Grows w w' := by
  cases h with
  | @item _ d i levels spells counted =>
    obtain ⟨-, hfits, hwrote⟩ := counted
    have hstack := hwrote.stack.trans (stack_counted w)
    have hpos := i.spelling_pos
    have howes := owed_countTop w.stack
    refine ⟨⟨_, hwrote.out.symm⟩, hwrote.capacity, fun hs => ?_, fun _ => ?_, ?_⟩
    · rw [hstack]
      exact (owing_length _).trans ((countTop_length _).trans_le hs)
    · rw [hwrote.out, hwrote.capacity, List.length_append]
      exact hfits
    · rw [hstack, owed_owing, hwrote.out, List.length_append]
      omega
  | @box _ kind n opens value levels fits moved =>
    subst moved
    have hpos := (kind.token (Width.of n) n).spelling_pos
    have howes := owed_countTop w.stack
    refine ⟨⟨_, rfl⟩, rfl, fun _ => ?_, fun _ => ?_, ?_⟩
    · rw [stack_inside]
      apply (owing_length _).trans
      rw [List.length_cons, countTop_length]
      omega
    · rw [inside, List.length_append]
      exact fits
    · have howed : owed (⟨kind, n * kind.per, none, 0⟩ :: countTop w.stack) =
          n * kind.per + owed (countTop w.stack) := rfl
      rw [stack_inside, owed_owing, howed, inside, List.length_append]
      omega
  | @key k level base n sign stack kind remaining above fits moved =>
    subst moved
    have hpos := (Key.ofNat k.toInt.toNat).token.spelling_pos
    refine ⟨⟨_, rfl⟩, rfl, fun hs => ?_, fun _ => ?_, ?_⟩
    · rw [stack_eq, owing_pos (by simp)]
      rw [stack] at hs
      exact hs
    · rw [List.length_append]
      exact fits
    · rw [stack, stack_eq, owing_pos (by simp)]
      simp only [owed, List.map_cons, List.sum_cons, remaining, Key.spelling, List.length_append]
      omega

theorem writeAll_grows {calls : List Call} (h : writeAll calls w = .ok ((), w'))
    (hs : w.stack.length ≤ maxDepth) : Grows w w' := by
  induction calls generalizing w with
  | nil =>
    cases h
    exact .refl _
  | cons call calls ih =>
    obtain ⟨⟨⟩, w₁, h₁, h⟩ := bind_run_ok.mp h
    have hgrows := (Call.did h₁ hs).grows
    exact hgrows.trans (ih h (hgrows.shallow hs))

theorem str_inj {s t : Str} (h : s.raw = t.raw) : s = t := by
  cases s
  cases t
  cases h
  rfl

instance : DecidableEq Str := fun s t => decidable_of_iff (s.raw = t.raw) ⟨str_inj, congrArg Str.raw⟩

end Km43.Cbor
