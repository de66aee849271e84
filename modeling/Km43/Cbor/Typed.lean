import Mathlib.Data.List.DropRight
import Km43.Library.Fallible
import Km43.Cbor.Skip

namespace Km43.Cbor

open Library Library.StepParser

/-- How a decoder's own refusal carries one of the reader's, as `?` converts it. -/
class FromCbor (ε : Type) where
  cbor : CborError → ε

instance : FromCbor CborError := ⟨id⟩

def Key.i64? (k : Key) : Option ℤ :=
  if k.argument ≤ CborReader.i64Max then some k.value else none

def foldPairs {σ : Type} (f : ℤ → σ → Item → Option σ) : List (Key × Item) → σ → Option σ
  | [], s => some s
  | (k, v) :: rest, s => k.i64?.bind fun k => (f k s v).bind (foldPairs f rest)

def foldItems {σ : Type} (f : σ → Item → Option σ) : List Item → σ → Option σ
  | [], s => some s
  | v :: rest, s => (f s v).bind (foldItems f rest)

namespace CborReader

variable {ε α β σ : Type}

def ask [FromCbor ε] (m : Read CborError α) : Read ε α := fun r =>
  match m r with
  | .ok x => .ok x
  | .error why => .error (FromCbor.cbor why)

def pairLoop [FromCbor ε] (step : ℤ → σ → Read ε σ) : ℕ → σ → Read ε σ
  | 0, s => pure s
  | n + 1, s => do
    let k ← ask key
    let s ← step k s
    pairLoop step n s

def itemLoop (step : σ → Read ε σ) : ℕ → σ → Read ε σ
  | 0, s => pure s
  | n + 1, s => do
    let s ← step s
    itemLoop step n s

def stack (r : CborReader) : List Open := r.nest.settle.opened

/-- A reader a decoder can go on with: no repeated key waits to be found. -/
structure Live (r : CborReader) : Prop where
  within : r.Within
  checks : r.checks = true
  walking : r.walking = false
  deep : r.nest.depth ≤ r.nest.deepest
  calm : r.settleSkipped = .ok { r with skipped := none }

structure Doomed (r : CborReader) : Prop where
  walking : r.walking = false
  repeated : Refuses r.settleSkipped

structure Ready (d : ℕ) (r : CborReader) : Prop where
  live : r.Live
  value : r.nest.settle.atKey = false
  levels : r.stack.length + d = maxDepth

theorem ready_new (b : Bytes) : (new b).Ready maxDepth :=
  ⟨⟨Nat.zero_le _, rfl, rfl, by simp [new, Nest.new, Nest.depth], rfl⟩, rfl, rfl⟩

structure Past (r r' : CborReader) (length : ℕ) : Prop where
  bytes : r'.bytes = r.bytes
  next : r'.next = r.next + length
  live : r'.Live
  unsettled : r'.unsettled = none
  stack : r'.stack = r.nest.settle.countItem.settle.opened

def Fails (Bad : ε → Prop) : Except ε (α × CborReader) → Prop
  | .error why => Bad why
  | .ok (_, r) => r.Doomed

theorem Fails.bind {Bad : ε → Prop} {m : Read ε α} {k : α → Read ε β} {r : CborReader}
    (hm : Fails Bad (m r)) (hk : ∀ a r, r.Doomed → Fails Bad (k a r)) : Fails Bad ((m >>= k) r) := by
  rw [bind_apply]
  cases h : m r with
  | error why =>
    rw [h] at hm
    exact hm
  | ok p =>
    rw [h] at hm
    exact hk _ _ hm

theorem ask_refused [FromCbor ε] {Bad : ε → Prop} (hbad : ∀ why, Bad (FromCbor.cbor why))
    {m : Read CborError α} {r : CborReader} (h : Refuses (m r)) :
    Fails Bad (ask (ε := ε) m r) := by
  obtain ⟨why, h⟩ := h
  rw [ask, h]
  exact hbad why

theorem Doomed.head {r : CborReader} (h : r.Doomed) : Refuses (head r) := by
  refine headBy_refused ?_
  rw [beforeHead, if_neg (by simp [h.walking])]
  exact h.repeated

theorem Doomed.key {r : CborReader} (h : r.Doomed) : Refuses (key r) := refuses_bind h.head _

theorem Doomed.map {r : CborReader} (h : r.Doomed) : Refuses (map r) := refuses_bind h.head _

theorem Doomed.array {r : CborReader} (h : r.Doomed) : Refuses (array r) := refuses_bind h.head _

theorem Doomed.skip {r : CborReader} (h : r.Doomed) : Refuses (skip r) :=
  refuses_bind (refuses_bind h.repeated _) _

theorem Doomed.finish {r : CborReader} (h : r.Doomed) : Refuses r.finish := refuses_bind h.repeated _

theorem pairLoop_doomed [FromCbor ε] {Bad : ε → Prop} (hbad : ∀ why, Bad (FromCbor.cbor why))
    (step : ℤ → σ → Read ε σ) (n : ℕ) (s : σ) {r : CborReader} (h : r.Doomed) :
    Fails Bad (pairLoop step n s r) := by
  cases n with
  | zero => exact h
  | succ n =>
    rw [pairLoop, bind_apply]
    obtain ⟨why, hkey⟩ := h.key
    simp only [ask, hkey]
    exact hbad why

theorem Live.headBy {r : CborReader} (h : r.Live) :
    ({ r with skipped := none } : CborReader).settled.Lands search (r.head) (tokenStep r.rest) := by
  have hbefore : r.beforeHead search = .ok { r with skipped := none } := by
    rw [beforeHead, if_neg (by simp [h.walking])]
    exact h.calm
  exact headBy_eq h.within hbefore

theorem settle_settle (n : Nest) : n.settle.settle = n.settle := by
  simp [Nest.settle, List.dropWhile_idempotent]

def counted (r : CborReader) (length : ℕ) : CborReader :=
  { r with next := r.next + length, nest := r.nest.settle.countItem, unsettled := none,
           skipped := none }

theorem Ready.head {d : ℕ} {r : CborReader} (h : r.Ready d) :
    match tokenStep r.rest with
    | none => Refuses (head r)
    | some (t, tail) =>
      if tail.length < t.room then Refuses (CborReader.head r)
      else CborReader.head r = (do
        let moved ← (r.counted t.spelling.length).enter t.head
        .ok (t.head, moved)) := by
  have hl := h.live.headBy
  cases ht : tokenStep r.rest with
  | none =>
    rw [ht] at hl
    exact hl
  | some p =>
    obtain ⟨t, tail⟩ := p
    rw [ht] at hl
    simp only [Lands] at hl ⊢
    split_ifs at hl ⊢
    · exact hl
    · have hkey : ({ r with skipped := none } : CborReader).settled.nest.atKey = false := h.value
      have hwalk : r.walking = false := h.live.walking
      rw [hl, land, hkey]
      simp only [accountKey, Bool.false_eq_true, if_false, advance, settled, hwalk, bind, Except.bind,
        counted]

theorem Ready.stack_length {d : ℕ} {r : CborReader} (h : r.Ready d) (length : ℕ) :
    (r.counted length).nest.opened.length + d = maxDepth := by
  rw [counted, countItem_length]
  exact h.levels

theorem settle_depth_le (n : Nest) : n.settle.opened.length ≤ n.opened.length :=
  (List.dropWhile_suffix _).length_le

theorem countItem_deepest (n : Nest) : n.countItem.deepest = n.deepest := by
  unfold Nest.countItem
  split <;> rfl

theorem Ready.counted_deep {d : ℕ} {r : CborReader} (h : r.Ready d) (length : ℕ) :
    (r.counted length).nest.depth ≤ (r.counted length).nest.deepest := by
  have hdeep := h.live.deep
  have hle := settle_depth_le r.nest
  rw [counted, Nest.depth, countItem_length, countItem_deepest]
  exact hle.trans hdeep

theorem Ready.counted_within {d : ℕ} {r : CborReader} (h : r.Ready d) {length : ℕ}
    (hl : length ≤ r.rest.length) : (r.counted length).Within := h.live.within.advance hl

theorem Ready.counted_past {d : ℕ} {r : CborReader} (h : r.Ready d) {length : ℕ}
    (hl : length ≤ r.rest.length) : Past r (r.counted length) length :=
  ⟨rfl, rfl, ⟨h.counted_within hl, h.live.checks, h.live.walking, h.counted_deep _, rfl⟩, rfl, rfl⟩

theorem Live.atKey {r : CborReader} {level : Open} {base : List Open} {n : ℕ}
    (hstack : r.stack = level :: base) (hkind : level.kind = .map)
    (hrem : level.remaining = (n + 1) * 2) :
    ({ r with skipped := none } : CborReader).settled.nest.atKey = true := by
  have hop : r.nest.settle.opened = level :: base := hstack
  simp [settled, Nest.atKey, hop, hkind, hrem]

theorem Live.key_noted {r : CborReader} (h : r.Live) {level : Open} {base : List Open} {n : ℕ}
    (hstack : r.stack = level :: base) (hkind : level.kind = .map)
    (hrem : level.remaining = (n + 1) * 2) {k : Key} {tail : Bytes}
    (hks : keyStep r.rest = some (k, tail)) {last : Option KeyRank} {u : Option Unsettled}
    (hread : r.nest.settle.readKey k.rank r.next =
      .ok (u, { r.nest.settle with opened := { level with lastKey := last } :: base })) :
    CborReader.key r = match k.i64? with
      | none => .error .integerOutOfRange
      | some z => .ok (z, { r with
          next := r.next + k.spelling.length
          nest := ⟨{ level with remaining := n * 2 + 1, lastKey := last } :: base, r.nest.deepest⟩
          unsettled := u, skipped := none }) := by
  have hl := h.headBy
  have hwalk : r.walking = false := h.walking
  obtain ⟨hkl, hkb⟩ := (keyStep_exact _ _ _).mp hks
  have ht : tokenStep r.rest = some (k.token, tail) := by
    rw [hkb]
    exact tokenStep_exact.read (Key.token_legal.mpr hkl) tail
  rw [ht] at hl
  simp only [Lands, room_key, Nat.not_lt_zero, if_false] at hl
  have hhead : CborReader.head r = .ok (k.token.head, { r with
      next := r.next + k.spelling.length
      nest := ⟨{ level with remaining := n * 2 + 1, lastKey := last } :: base, r.nest.deepest⟩
      unsettled := u, skipped := none }) := by
    have hchecks : (({ r with skipped := none } : CborReader).settled.advance
      k.token.spelling.length).checks = true := h.checks
    have hcount : (n + 1) * 2 - 1 = n * 2 + 1 := by omega
    rw [hl, land, Live.atKey hstack hkind hrem, accountKey, if_pos rfl, rank_key]
    simp only [hchecks, if_true]
    rw [noteKey, advance_nest, show (({ r with skipped := none } : CborReader).settled.next) = r.next
      from rfl, show (({ r with skipped := none } : CborReader).settled.nest) = r.nest.settle from rfl,
      hread]
    simp [bind, Except.bind, advance, settled, hwalk, enter_key, Nest.countItem, hrem, hcount,
      Key.spelling, Nest.settle]
  rw [CborReader.key, bind_apply, hhead]
  obtain ⟨_ | _, w, m⟩ := k
  · simp only [Key.token, Key.i64?, Key.value, Token.head, Bool.false_eq_true, if_false]
    split_ifs <;> rfl
  · simp only [Key.token, Key.i64?, Key.value, Token.head, if_true, negative]
    split_ifs <;> rfl

theorem Live.key {r : CborReader} (h : r.Live) {level : Open} {base : List Open} {n : ℕ}
    {done : List (Key × Item)} (hstack : r.stack = level :: base) (hkind : level.kind = .map)
    (hrem : level.remaining = (n + 1) * 2) (hk : KeysAt r.bytes r.next level done) :
    match keyStep r.rest with
    | none => Refuses (key r)
    | some (k, _) =>
      match k.i64? with
      | none => Refuses (CborReader.key r)
      | some z => ∃ last u, Greatest last (ranks done ++ [k.rank]) ∧
          ((u = none ∧ k.rank ∉ ranks done) ∨ u = some ⟨k.rank, level.start, r.next⟩) ∧
          CborReader.key r = .ok (z, { r with
            next := r.next + k.spelling.length
            nest := ⟨{ level with remaining := n * 2 + 1, lastKey := last } :: base, r.nest.deepest⟩
            unsettled := u, skipped := none }) := by
  have hl := h.headBy
  cases hks : keyStep r.rest with
  | none =>
    cases ht : tokenStep r.rest with
    | none =>
      rw [ht] at hl
      exact refuses_bind hl _
    | some p =>
      obtain ⟨t, tail⟩ := p
      rw [ht] at hl
      have hkey := keyStep_token ht
      cases hrank : t.head.rank with
      | error why =>
        simp only [Lands] at hl
        split_ifs at hl
        · exact refuses_bind hl _
        · refine refuses_bind (x := CborReader.head r) ?_ _
          rw [hl]
          exact ⟨why, by simp [land, Live.atKey hstack hkind hrem, accountKey, hrank, bind, Except.bind]⟩
      | ok rank =>
        rw [hrank] at hkey
        obtain ⟨k, hk', -⟩ := hkey
        rw [hks] at hk'
        cases hk'
  | some p =>
    obtain ⟨k, tail⟩ := p
    obtain ⟨last, u, hread, hgreatest, hu⟩ :=
      Nest.readKey_eq (n := r.nest.settle) hstack hk.greatest k.rank r.next
    have hvalue := h.key_noted hstack hkind hrem hks hread
    cases hz : k.i64? with
    | none =>
      simp only [hz] at hvalue ⊢
      exact ⟨_, hvalue⟩
    | some z =>
      simp only [hz] at hvalue ⊢
      exact ⟨last, u, hgreatest, hu, hvalue⟩

def walker (r : CborReader) : CborReader :=
  { r with nest := r.nest.settle, skipped := r.unsettled, unsettled := none, walking := true }

theorem Ready.walker {d : ℕ} {r : CborReader} (h : r.Ready d) :
    r.walker.Walks search ∧ r.walker.settled = r.walker :=
  ⟨⟨h.live.within, rfl, (settle_depth_le r.nest).trans h.live.deep, fun _ => search_finds⟩, by
    simp only [settled, CborReader.walker, settle_settle]⟩

theorem Ready.skip_walks {d : ℕ} {r : CborReader} (h : r.Ready d) : CborReader.skip r = (do
    let r' ← r.walker.walkBy search
    .ok ((), { r' with walking := false })) := by
  have hcalm : r.settleSkippedBy search = .ok { r with skipped := none } := h.live.calm
  have hwas : r.walking = false := h.live.walking
  simp only [CborReader.skip, skipBy, hcalm, bind, Except.bind, hwas]
  have hsame : walkBy search { r with skipped := r.unsettled, unsettled := none, walking := true } =
      walkBy search r.walker := by
    simp only [walkBy, settled, CborReader.walker, settle_settle]
  rw [hsame]
  cases walkBy search r.walker <;> rfl

theorem Ready.skip {d : ℕ} {r : CborReader} (h : r.Ready d) :
    match itemStep d r.rest with
    | none => Refuses (skip r)
    | some (i, _) => ∃ r', CborReader.skip r = .ok ((), r') ∧ r'.bytes = r.bytes ∧
        r'.next = r.next + i.spelling.length ∧ r'.Within ∧ r'.checks = true ∧ r'.walking = false ∧
        r'.nest.depth ≤ r'.nest.deepest ∧ r'.unsettled = none ∧ r'.skipped = r.unsettled ∧
        r'.stack = r.nest.settle.countItem.settle.opened := by
  obtain ⟨hwalks, hsettled⟩ := h.walker
  have hwalk := walkBy_item hwalks hsettled h.value h.levels
  rw [show r.walker.rest = r.rest from rfl] at hwalk
  rw [h.skip_walks]
  cases hi : itemStep d r.rest with
  | none =>
    rw [hi] at hwalk
    exact refuses_bind (hwalk h.live.checks) _
  | some p =>
    obtain ⟨i, tail⟩ := p
    simp only [hi] at hwalk
    have hpast := hwalks.past (d := d) hi
    refine ⟨{ (r.walker.past i).settled with walking := false }, by rw [hwalk]; rfl, rfl, rfl,
      hpast.within, h.live.checks, rfl, (settle_depth_le _).trans hpast.deep, rfl, rfl, ?_⟩
    simp only [stack, settled, settle_settle]
    rfl

theorem Ready.skip_repeated {d : ℕ} {r : CborReader} (h : r.Ready d) {i : Item} {tail : Bytes} (hi : i.Formed d)
    (hr : r.rest = i.spelling ++ tail) (hrepeats : i.repeats = true) : CborReader.skip r = .error .repeatedKey := by
  obtain ⟨hwalks, hsettled⟩ := h.walker
  have hrest : r.walker.rest = i.spelling ++ tail := hr
  have hwalk := walkBy_formed hwalks (fun _ => search_seeks) hsettled h.value h.levels hi hrest
  have hon : r.walker.checks = true := h.live.checks
  rw [hon, hrepeats, if_pos (by rfl)] at hwalk
  rw [h.skip_walks, hwalk]
  rfl

end CborReader

open CborReader

variable {ε α σ : Type}

def slotOnce (twice : ε) (slot : Option α) (value : α) : Except ε (Option α) :=
  if slot.isSome then .error twice else .ok (some value)

def slotRequired (missing : ε) (slot : Option α) : Except ε α :=
  match slot with
  | some value => .ok value
  | none => .error missing

def slotField (read : Read ε α) (twice : ε) (slot : Option α) (fill : Option α → σ) : Read ε σ := do
  let value ← read
  let slot ← slotOnce twice slot value
  pure (fill slot)

def passOver [FromCbor ε] (s : σ) : Read ε σ := do
  ask skip
  pure s

theorem slotOnce_none (twice : ε) (value : α) : slotOnce twice none value = .ok (some value) := rfl

theorem slotRequired_some (missing : ε) (value : α) : slotRequired missing (some value) = .ok value := rfl

end Km43.Cbor
