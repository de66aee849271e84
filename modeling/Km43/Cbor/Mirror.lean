import Km43.Cbor.Calls
import Km43.Cbor.ReadsBox

namespace Km43.Cbor

open Library Library.StepParser CborWriter

inductive Reading
  | count (n : ℕ)
  | key (k : ℤ)
  | unsigned (n : ℕ)
  | signed (value : Int32)
  | bool (value : Bool)
  | bytes (raw : Bytes)
  | text (raw : Bytes)
  | raw (item : Bytes)
  deriving DecidableEq

namespace Call

def read : Call → CborReader.Read CborError Reading
  | array _ => .count <$> CborReader.array
  | map _ => .count <$> CborReader.map
  | key _ => .key <$> CborReader.key
  | u64 _ => .unsigned <$> CborReader.u64
  | i32 _ => .signed <$> CborReader.i32
  | bool _ => .bool <$> CborReader.bool
  | bytes _ | fill _ => .bytes <$> CborReader.bytesValue
  | text _ => .text <$> CborReader.text
  | raw _ => .raw <$> CborReader.raw

def reading : Call → Reading
  | array len => .count len.toNat
  | map pairs => .count pairs.toNat
  | key k => .key k.toInt
  | u64 value => .unsigned value.toNat
  | i32 value => .signed value
  | bool value => .bool value
  | bytes value | fill value => .bytes value
  | text value => .text value.raw
  | raw item => .raw item

end Call

def readAll : List Call → CborReader.Read CborError (List Reading)
  | [] => pure []
  | call :: calls => do
    let first ← call.read
    let rest ← readAll calls
    pure (first :: rest)

def Open.blank (o : Open) : Open := { o with start := 0 }

theorem blank_countTop (stack : List Open) :
    (countTop stack).map Open.blank = countTop (stack.map Open.blank) := by
  cases stack <;> rfl

theorem blank_owing (stack : List Open) :
    (owing stack).map Open.blank = owing (stack.map Open.blank) := by
  induction stack with
  | nil => rfl
  | cons top stack ih =>
    by_cases ht : top.remaining = 0
    · rw [owing_zero ht, ih, List.map_cons, owing_zero]
      exact ht
    · rw [owing_pos (Nat.pos_of_ne_zero ht), List.map_cons, owing_pos]
      exact Nat.pos_of_ne_zero ht

variable {w w' : CborWriter}

theorem Item.ofText_legal {text : Str} {d : ℕ} (h : text.raw.length ≤ maxString) :
    (Item.ofText text).Legal d := by
  have hlen : text.raw.length < 2 ^ 64 := h.trans_lt (by decide)
  cases d <;> exact ⟨Width.of_holds hlen, h, text.utf8⟩

theorem Item.ofInt_legal {value : Int32} {d : ℕ} : (Item.ofInt value).Legal d := by
  have hlow := value.le_toInt
  have hhigh := value.toInt_lt
  unfold Item.ofInt
  split_ifs
  · cases d <;> exact Width.of_holds (by omega)
  · exact Item.ofNat_legal (by omega)

theorem Call.Spells.legal {call : Call} {d : ℕ} {i : Item} (h : call.Spells d i) (hf : w.Fits i.spelling)
    (hc : w.capacity < 2 ^ 64) : i.Legal d := by
  have hlen : i.spelling.length < 2 ^ 64 := by
    unfold Fits at hf
    omega
  cases call with
  | array len | map pairs | key k => exact h.elim
  | u64 value =>
    obtain rfl := h
    exact Item.ofNat_legal value.toNat_lt
  | i32 value =>
    obtain rfl := h
    exact Item.ofInt_legal
  | bool value =>
    obtain rfl := h
    exact Item.bool_legal
  | bytes value | fill value =>
    obtain rfl := h
    refine Item.ofBytes_legal (lt_of_le_of_lt ?_ hlen)
    simp [Item.ofBytes, Item.spelling, Token.spelling]
  | text value =>
    obtain ⟨rfl, hshort⟩ := h
    exact Item.ofText_legal hshort
  | raw item => exact h.1

namespace CborReader

theorem ask_cbor {α : Type} (m : Read CborError α) : ask (ε := CborError) m = m := by
  funext r
  unfold ask
  cases m r <;> rfl

theorem map_ok {ε α β : Type} {m : Read ε α} {r r' : CborReader} {a : α} (g : α → β)
    (h : m r = .ok (a, r')) : (g <$> m) r = .ok (g a, r') := by
  rw [map_eq_pure_bind, bind_apply, h]
  rfl

theorem map_takes {α β : Type} {d : ℕ} {m : Read CborError α} {f : Item → Option α} {r : CborReader}
    {i : Item} {tail : Bytes} {a : α} (g : α → β)
    (hm : Reads (fun _ : CborError => True) d (ask m) f) (hr : r.Ready d) (hi : i.Legal d)
    (hrest : r.rest = i.spelling ++ tail) (hf : f i = some a) :
    ∃ r', (g <$> m) r = .ok (g a, r') ∧ Past r r' i.spelling.length := by
  obtain ⟨r', hok, hpast⟩ := hm.takes hr hi hrest hf
  rw [ask_cbor] at hok
  exact ⟨r', map_ok g hok, hpast⟩

theorem raw_takes {d : ℕ} {r : CborReader} {i : Item} {tail : Bytes} (hr : r.Ready d)
    (hu : r.unsettled = none) (hi : i.Legal d) (hrest : r.rest = i.spelling ++ tail) :
    ∃ r', CborReader.raw r = .ok (i.spelling, r') ∧ Past r r' i.spelling.length := by
  have hskip := hr.skip
  rw [hrest, (itemStep_exact d).read hi tail] at hskip
  obtain ⟨r', hok, hb, hn, hw, hc, hwalk, hdeep, hu', hsk, hst⟩ := hskip
  have hslice : slice r'.bytes r.next r'.next = some i.spelling := by
    have hlen := congrArg List.length hrest
    have hwithin : r.next ≤ r.bytes.length := hr.live.within
    rw [hr.live.within.rest_length, List.length_append] at hlen
    have hdrop : r.bytes.drop r.next = i.spelling ++ tail := hrest
    rw [hb, hn, slice, if_pos (by omega), hdrop, Nat.add_sub_cancel_left, List.take_left]
  refine ⟨r', ?_, hb, hn, ⟨hw, hc, hwalk, hdeep, settleSkipped_none (hsk.trans hu)⟩, hu', hst⟩
  unfold CborReader.raw
  simp only [hok, bind, Except.bind, hslice]

end CborReader

theorem headI32_ofInt (value : Int32) :
    ((Item.ofInt value).leaf?.bind fun h => (CborReader.headI32 h).toOption) = some value := by
  have hlow := value.le_toInt
  have hhigh := value.toInt_lt
  unfold Item.ofInt
  split_ifs with hneg
  · have harg : value.toInt.natAbs - 1 ≤ CborReader.i64Max := by
      unfold CborReader.i64Max
      omega
    have hvalue : -1 - ((value.toInt.natAbs - 1 : ℕ) : ℤ) = value.toInt := by omega
    have hfits : (-0x80000000 : ℤ) ≤ value.toInt := by omega
    simp only [Item.leaf?, Option.bind_some, CborReader.headI32, CborReader.negative, if_pos harg,
      bind, Except.bind, hvalue, if_pos hfits, Int32.ofInt_toInt, Except.toOption]
  · have hfits : value.toInt.natAbs ≤ 0x7FFFFFFF := by omega
    have hvalue : ((value.toInt.natAbs : ℕ) : ℤ) = value.toInt := by omega
    simp only [Item.ofNat, Item.leaf?, Option.bind_some, CborReader.headI32, if_pos hfits, hvalue,
      Int32.ofInt_toInt, Except.toOption]

theorem Call.Spells.takes {call : Call} {d : ℕ} {i : Item} (h : call.Spells d i) (hi : i.Legal d)
    {r : CborReader} {tail : Bytes} (hr : r.Ready d) (hu : r.unsettled = none)
    (hrest : r.rest = i.spelling ++ tail) :
    ∃ r', call.read r = .ok (call.reading, r') ∧ CborReader.Past r r' i.spelling.length := by
  cases call with
  | array len | map pairs | key k => exact h.elim
  | u64 value =>
    obtain rfl := h
    exact CborReader.map_takes _ (.u64 fun _ => trivial) hr hi hrest rfl
  | i32 value =>
    obtain rfl := h
    exact CborReader.map_takes _ (.i32 fun _ => trivial) hr hi hrest (headI32_ofInt value)
  | bool value =>
    obtain rfl := h
    exact CborReader.map_takes _ (.bool fun _ => trivial) hr hi hrest rfl
  | bytes value | fill value =>
    obtain rfl := h
    exact CborReader.map_takes _ (.bytesValue fun _ => trivial) hr hi hrest rfl
  | text value =>
    obtain ⟨rfl, -⟩ := h
    exact CborReader.map_takes _ (.text fun _ => trivial) hr hi hrest rfl
  | raw item =>
    obtain ⟨-, rfl⟩ := h
    obtain ⟨r', hok, hpast⟩ := CborReader.raw_takes hr hu hi hrest
    exact ⟨r', CborReader.map_ok _ hok, hpast⟩

/-- A reader stands in the finished bytes where a writer stood when it wrote them. -/
structure Mirrors (bytes : Bytes) (w : CborWriter) (r : CborReader) : Prop where
  bytes : r.bytes = bytes
  next : r.next = w.out.length
  live : r.Live
  unsettled : r.unsettled = none
  stack : r.stack.map Open.blank = w.stack

namespace Mirrors

variable {bytes data : Bytes} {r r' : CborReader} {d : ℕ}

theorem new (capacity : ℕ) (bytes : Bytes) : Mirrors bytes (.new capacity) (.new bytes) :=
  ⟨rfl, rfl, ⟨Nat.zero_le _, rfl, rfl, le_rfl, rfl⟩, rfl, rfl⟩

theorem rest (h : Mirrors bytes w r) (hp : w.out ++ data <+: bytes) : ∃ tail, r.rest = data ++ tail := by
  obtain ⟨tail, ht⟩ := hp
  refine ⟨tail, ?_⟩
  rw [CborReader.rest, h.bytes, h.next, ← ht, List.append_assoc, List.drop_left]

theorem ready (h : Mirrors bytes w r) (hv : w.nest.settle.atKey = false)
    (hd : w.stack.length + d = maxDepth) : r.Ready d := by
  have hlen := congrArg List.length h.stack
  rw [List.length_map] at hlen
  refine ⟨h.live, ?_, by omega⟩
  have hstack := h.stack
  unfold Nest.atKey at hv ⊢
  rw [show w.nest.settle.opened = r.stack.map Open.blank from hstack.symm] at hv
  rw [show r.nest.settle.opened = r.stack from rfl]
  cases hr : r.stack with
  | nil => rfl
  | cons top base =>
    rw [hr] at hv
    exact hv

theorem past (h : Mirrors bytes w r) (hw : Wrote w w' data w.nest.settle.countItem.settle.opened)
    (hp : CborReader.Past r r' data.length) : Mirrors bytes w' r' := by
  refine ⟨hp.bytes.trans h.bytes, ?_, hp.live, hp.unsettled, ?_⟩
  · rw [hp.next, h.next, hw.out, List.length_append]
  · have hcount : r.nest.settle.countItem.settle.opened = owing (countTop r.stack) := by
      rw [show r.nest.settle.countItem.settle.opened = owing r.nest.settle.countItem.opened from rfl,
        countItem_opened]
      rfl
    rw [hw.stack, stack_counted, hp.stack, hcount, blank_owing, blank_countTop, h.stack]

end Mirrors

theorem Call.Opens.read {call : Call} {kind : Nesting} {n : ℕ} (h : call.Opens kind n) :
    call.read = .count <$> CborReader.askBox kind ∧ call.reading = .count n ∧ n < 2 ^ 64 := by
  cases call with
  | array len =>
    obtain ⟨rfl, rfl⟩ := h
    exact ⟨rfl, rfl, len.toNat_lt⟩
  | map pairs =>
    obtain ⟨rfl, rfl⟩ := h
    exact ⟨rfl, rfl, pairs.toNat_lt⟩
  | key k | u64 value | i32 value | bool value | bytes value | fill value | text value | raw item =>
    exact h.elim

theorem Nesting.token_legal {kind : Nesting} {n : ℕ} (h : n < 2 ^ 64) :
    (kind.token (Width.of n) n).Legal := by
  cases kind <;> exact Width.of_holds h

theorem Mirrors.inside {bytes : Bytes} {r : CborReader} {d : ℕ} (hm : Mirrors bytes w r)
    (hr : r.Ready d) {head tail : Bytes} (hrest : r.rest = head ++ tail) (kind : Nesting) (items : ℕ) :
    Mirrors bytes (w.inside head kind items) (r.inside head.length kind items) := by
  refine ⟨hm.bytes, ?_, hr.inside_live (by simp [hrest]) _ _, rfl, ?_⟩
  · rw [CborWriter.inside, List.length_append, ← hm.next]
    rfl
  · have hstack : (r.inside head.length kind items).stack =
        owing (⟨kind, items, none, r.next + head.length⟩ :: countTop r.stack) := by
      rw [show (r.inside head.length kind items).stack =
          owing (⟨kind, items, none, r.next + head.length⟩ :: r.nest.settle.countItem.opened) from rfl,
        countItem_opened]
      rfl
    rw [hstack, stack_inside, blank_owing, List.map_cons, blank_countTop, hm.stack]
    rfl

theorem Did.mirrors {bytes : Bytes} {r : CborReader} {call : Call} (h : Did w w' call)
    (hm : Mirrors bytes w r) (hc : w.capacity < 2 ^ 64) (hp : w'.out <+: bytes)
    (hpays : w'.out.length + owed w'.stack ≤ bytes.length) :
    ∃ r', call.read r = .ok (call.reading, r') ∧ Mirrors bytes w' r' := by
  cases h with
  | @item _ d i levels spells counted =>
    obtain ⟨hvalue, hfits, hwrote⟩ := counted
    have hlead : w.out ++ i.spelling <+: bytes := by rwa [← hwrote.out]
    obtain ⟨tail, hrest⟩ := hm.rest hlead
    obtain ⟨r', hok, hpast⟩ := spells.takes (spells.legal hfits hc) (hm.ready hvalue levels)
      hm.unsettled hrest
    exact ⟨r', hok, hm.past hwrote hpast⟩
  | @box _ kind n opens value levels fits moved =>
    subst moved
    obtain ⟨d, hd⟩ := Nat.exists_eq_add_of_lt levels
    obtain ⟨hread, hreading, hn⟩ := opens.read
    have hr := hm.ready (d := d + 1) value (by omega)
    obtain ⟨tail, hrest⟩ := hm.rest hp
    have hlegal : (kind.token (Width.of n) n).Legal := Nesting.token_legal hn
    have ht := tokenStep_exact.read hlegal tail
    have hlen := congrArg List.length hrest
    have hnext : r.next ≤ r.bytes.length := hm.live.within
    have howed : owed (⟨kind, n * kind.per, none, 0⟩ :: countTop w.stack) =
        n * kind.per + owed (countTop w.stack) := rfl
    rw [hm.live.within.rest_length, List.length_append] at hlen
    rw [stack_inside, owed_owing, howed, inside, List.length_append, ← hm.next, ← hm.bytes] at hpays
    have hok := hr.box_ok (hrest ▸ ht) (by omega)
    rw [hread, hreading]
    exact ⟨_, CborReader.map_ok _ hok, hm.inside hr hrest kind (n * kind.per)⟩
  | @key k level base n sign stack kind remaining above fits moved =>
    subst moved
    obtain ⟨level', base', hstack, rfl, rfl⟩ := List.map_eq_cons_iff.mp (hm.stack.trans stack)
    obtain ⟨tail, hrest⟩ := hm.rest hp
    have hlow := k.le_toInt
    have hhigh := k.toInt_lt
    have hks := keyStep_exact.read (Key.ofNat_legal (n := k.toInt.toNat) (by omega)) tail
    have hread : r.nest.settle.readKey (Key.ofNat k.toInt.toNat).rank r.next =
        .ok (none, { r.nest.settle with
          opened := { level' with lastKey := some (Key.ofNat k.toInt.toNat).rank } :: base' }) := by
      have hopened : r.nest.settle.opened = level' :: base' := hstack
      cases hlast : level'.lastKey with
      | none => simp only [Nest.readKey, hopened, hlast]
      | some g =>
        have hle : (Key.ofNat k.toInt.toNat).rank.le g = false := above g hlast
        simp only [Nest.readKey, hopened, hlast, hle, Bool.false_eq_true, if_false]
    have hnumber : ((k.toInt.toNat : ℕ) : ℤ) = k.toInt := Int.toNat_of_nonneg sign
    have hkey : CborReader.key r = .ok (k.toInt, { r with
        next := r.next + (Key.ofNat k.toInt.toNat).spelling.length
        nest := ⟨{ level' with remaining := n * 2 + 1, lastKey := some (Key.ofNat k.toInt.toNat).rank } ::
          base', r.nest.deepest⟩
        unsettled := none, skipped := none }) := by
      have hnoted := hm.live.key_noted hstack kind remaining (hrest ▸ hks) hread
      rw [Key.ofNat_i64 (by unfold CborReader.i64Max; omega), hnumber] at hnoted
      exact hnoted
    refine ⟨_, CborReader.map_ok Reading.key hkey, hm.bytes, ?_, ?_, rfl, ?_⟩
    · rw [List.length_append, ← hm.next]
    · have hdeep := (CborReader.settle_depth_le r.nest).trans hm.live.deep
      have hdepth : r.nest.settle.opened.length = base'.length + 1 := congrArg List.length hstack
      refine ⟨hm.live.within.advance (by simp [hrest]), hm.live.checks, hm.live.walking, ?_, rfl⟩
      simp only [Nest.depth, List.length_cons]
      omega
    · rw [CborReader.stack, Nest.settle, List.dropWhile_cons_of_neg (by simp), stack_eq, owing_pos (by simp)]
      rfl

theorem writeAll_mirrors {bytes : Bytes} {calls : List Call} (h : writeAll calls w = .ok ((), w'))
    {r : CborReader} (hm : Mirrors bytes w r) (hs : w.stack.length ≤ maxDepth)
    (hc : w.capacity < 2 ^ 64) (hp : w'.out <+: bytes)
    (hpays : w'.out.length + owed w'.stack ≤ bytes.length) :
    ∃ r', readAll calls r = .ok (calls.map Call.reading, r') ∧ Mirrors bytes w' r' := by
  induction calls generalizing w r with
  | nil =>
    cases h
    exact ⟨r, rfl, hm⟩
  | cons call calls ih =>
    obtain ⟨⟨⟩, w₁, h₁, h⟩ := bind_run_ok.mp h
    have hdid := Call.did h₁ hs
    have hgrows := hdid.grows
    have hrest := writeAll_grows h (hgrows.shallow hs)
    obtain ⟨r₁, hread, hm₁⟩ := hdid.mirrors hm hc (hrest.out.trans hp) (hrest.pays.trans hpays)
    obtain ⟨r', hreads, hm'⟩ := ih h hm₁ (hgrows.shallow hs) (hgrows.capacity.trans_lt hc)
    refine ⟨r', ?_, hm'⟩
    simp only [readAll, bind_apply, hread, hreads]
    rfl

theorem finish_ok (h : w.stack = []) :
    CborWriter.finish w = .ok (w.out.length, { w with nest := w.nest.settle }) := by
  have hdepth : w.nest.settle.depth = 0 := congrArg List.length h
  simp only [CborWriter.finish, hdepth, ne_eq, not_true_eq_false, if_false]

theorem finish_out {len : ℕ} (h : CborWriter.finish w = .ok (len, w')) : w'.out = w.out := by
  simp only [CborWriter.finish] at h
  split_ifs at h
  cases h
  rfl

theorem finish_inv {len : ℕ} (h : CborWriter.finish w = .ok (len, w')) :
    w.stack = [] ∧ len = w.out.length := by
  simp only [CborWriter.finish] at h
  split_ifs at h with hdepth
  cases h
  exact ⟨List.length_eq_zero_iff.mp (not_not.mp hdepth), rfl⟩

theorem Mirrors.finish {bytes : Bytes} {r : CborReader} (h : Mirrors bytes w r) (hw : w.stack = [])
    (hb : w.out = bytes) : r.finish = .ok () := by
  have hstack : r.stack = [] := List.map_eq_nil_iff.mp (h.stack.trans hw)
  have hdepth : r.nest.settle.depth = 0 := congrArg List.length hstack
  have hend : ¬r.next < r.bytes.length := by rw [h.next, h.bytes, hb]; exact lt_irrefl _
  rw [CborReader.finish, h.live.calm]
  simp only [bind, Except.bind, CborReader.settled, hdepth, ne_eq, not_true_eq_false, if_false]
  exact if_neg hend

end Km43.Cbor
