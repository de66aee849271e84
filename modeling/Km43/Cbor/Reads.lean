import Km43.Cbor.Typed

namespace Km43.Cbor

open Library Library.StepParser

def Item.leaf? : Item → Option Head
  | unsigned _ n => some (.unsigned n)
  | negative _ n => some (.negative n)
  | bytes _ raw => some (.bytes raw)
  | text _ raw => some (.text raw)
  | bool value => some (.bool value)
  | array .. | map .. => none

def Item.uint (max : ℕ) : Item → Option ℕ
  | unsigned _ n => if n ≤ max then some n else none
  | _ => none

def Item.bool? : Item → Option Bool
  | bool value => some value
  | _ => none

def Item.bytes? : Item → Option Bytes
  | bytes _ raw => some raw
  | _ => none

def Item.items? : Item → Option (List Item)
  | array _ items => some items
  | _ => none

def Item.pairs? : Item → Option (List (Key × Item))
  | map _ pairs => some pairs
  | _ => none

def Token.leaf? : Token → Option Item
  | unsigned w n => some (.unsigned w n)
  | negative w n => some (.negative w n)
  | bytes w raw => some (.bytes w raw)
  | text w raw => some (.text w raw)
  | bool value => some (.bool value)
  | array .. | map .. => none

def Item.token : Item → Token
  | unsigned w n => .unsigned w n
  | negative w n => .negative w n
  | bytes w raw => .bytes w raw
  | text w raw => .text w raw
  | bool value => .bool value
  | array w items => .array w items.length
  | map w pairs => .map w pairs.length

namespace Nesting

def token : Nesting → Width → ℕ → Token
  | array => .array
  | map => .map

def per : Nesting → ℕ
  | array => 1
  | map => 2

def counts : Nesting → Head → Option ℕ
  | array, .array n => some n
  | map, .map n => some n
  | _, _ => none

theorem counts_head {kind : Nesting} {t : Token} {n : ℕ} (h : kind.counts t.head = some n) :
    ∃ w, t = kind.token w n := by
  cases kind <;> cases t <;> simp only [Token.head, counts, reduceCtorEq, Option.some.injEq] at h
  all_goals
    subst h
    exact ⟨_, rfl⟩

end Nesting

theorem itemStep_leaf {d : ℕ} {bs tail : Bytes} {t : Token} {i : Item}
    (ht : tokenStep bs = some (t, tail)) (hi : t.leaf? = some i) :
    itemStep d bs = some (i, tail) ∧ i.leaf? = some t.head ∧ i.spelling = t.spelling := by
  cases t with
  | array w n | map w n => cases hi
  | unsigned | negative | bytes | text | bool =>
    obtain rfl := Option.some.inj hi
    refine ⟨?_, rfl, by simp only [Item.spelling]⟩
    cases d <;> simp only [itemStep, itemWith, ht]

theorem itemStep_box {d : ℕ} {bs tail tail' : Bytes} {t : Token} {i : Item}
    (ht : tokenStep bs = some (t, tail)) (hbox : t.leaf? = none)
    (hi : itemStep d bs = some (i, tail')) : i.leaf? = none := by
  cases t with
  | unsigned | negative | bytes | text | bool => cases hbox
  | array w n | map w n =>
    cases d with
    | zero => simp [itemStep, itemWith, ht] at hi
    | succ d =>
      simp only [itemStep, itemWith, ht, Option.bind_some, Option.map_eq_some_iff, Prod.mk.injEq] at hi
      obtain ⟨-, -, rfl, -⟩ := hi
      rfl

theorem itemStep_first {d : ℕ} {bs tail tail' : Bytes} {t : Token} {i : Item}
    (ht : tokenStep bs = some (t, tail)) (hi : itemStep d bs = some (i, tail')) : i.token = t := by
  obtain ⟨hlegal, hb⟩ := (itemStep_exact d _ _ _).mp hi
  have hfirst : ∃ more, i.token.Legal ∧ bs = i.token.spelling ++ more := by
    cases i with
    | array w items =>
      cases d with
      | zero => exact hlegal.elim
      | succ d => exact ⟨_, hlegal.1, by rw [hb, Item.spelling, List.append_assoc]; rfl⟩
    | map w pairs =>
      cases d with
      | zero => exact hlegal.elim
      | succ d => exact ⟨_, hlegal.1, by rw [hb, Item.spelling, List.append_assoc]; rfl⟩
    | unsigned | negative | bytes | text | bool => exact ⟨_, by cases d <;> exact hlegal, by
        rw [hb, Item.spelling]; rfl⟩
  obtain ⟨more, hl, rfl⟩ := hfirst
  rw [tokenStep_exact.read hl] at ht
  exact (Prod.mk.inj (Option.some.inj ht)).1

namespace CborReader

variable {ε α β γ σ : Type} {Bad : ε → Prop} {d : ℕ}

/-- A decoder takes of an item what `f` does, and where there is no such item it fails. -/
structure Reads (Bad : ε → Prop) (d : ℕ) (m : Read ε α) (f : Item → Option α) : Prop where
  doomed : ∀ r, r.Doomed → Fails Bad (m r)
  reads : ∀ r, r.Ready d →
    (∃ i tail a r', itemStep d r.rest = some (i, tail) ∧ f i = some a ∧ m r = .ok (a, r') ∧
      Past r r' i.spelling.length) ∨
    ((∀ i tail, itemStep d r.rest = some (i, tail) → f i = none) ∧ Fails Bad (m r))

theorem liftExcept_apply (x : Except ε α) (r : CborReader) :
    (liftM x : Read ε α) r = x.map (·, r) := by cases x <;> rfl

theorem lift_ok {x : Except ε α} {a : α} {r r' : CborReader} :
    (liftM x : Read ε α) r = .ok (a, r') ↔ x = .ok a ∧ r' = r := by
  rw [liftExcept_apply]
  cases x with
  | error why => simp [Except.map]
  | ok b =>
    simp only [Except.map, Except.ok.injEq, Prod.mk.injEq]
    exact and_congr_right fun _ => eq_comm

theorem Reads.andThen {m : Read ε α} {f : Item → Option α} (hm : Reads Bad d m f)
    (x : α → Except ε β) (h : α → β → γ) (hx : ∀ a why, x a = .error why → Bad why) :
    Reads Bad d (do let a ← m; let b ← x a; pure (h a b))
      (fun i => (f i).bind fun a => (x a).toOption.map (h a)) := by
  have hrun : ∀ a r, (do let b ← (liftM (x a) : Read ε β); pure (h a b) : Read ε γ) r =
      (x a).map fun b => (h a b, r) := by
    intro a r
    rw [bind_apply, liftExcept_apply]
    cases x a <;> rfl
  refine ⟨fun r hr => ?_, fun r hr => ?_⟩
  · refine Fails.bind (hm.doomed r hr) fun a r' hr' => ?_
    rw [hrun]
    cases hxa : x a with
    | error why => exact hx a why hxa
    | ok b => exact hr'
  · rw [bind_apply]
    rcases hm.reads r hr with ⟨i, tail, a, r', hi, hf, hok, hpast⟩ | ⟨hnone, hfails⟩
    · simp only [hok, hrun]
      cases hxa : x a with
      | error why =>
        refine .inr ⟨fun j tail' hj => ?_, hx a why hxa⟩
        obtain ⟨rfl, rfl⟩ := Prod.mk.inj (Option.some.inj (hi.symm.trans hj))
        simp [hf, hxa, Except.toOption]
      | ok b => exact .inl ⟨i, tail, h a b, r', hi, by simp [hf, hxa, Except.toOption], rfl, hpast⟩
    · refine .inr ⟨fun i tail hi => by simp [hnone i tail hi], ?_⟩
      cases hmr : m r with
      | error why =>
        rw [hmr] at hfails
        exact hfails
      | ok p =>
        rw [hmr] at hfails
        simp only [hrun]
        cases hxa : x p.1 with
        | error why => exact hx _ why hxa
        | ok b => exact hfails

theorem Reads.checked {m : Read ε α} {f : Item → Option α} (hm : Reads Bad d m f)
    (x : α → Except ε β) (hx : ∀ a why, x a = .error why → Bad why) :
    Reads Bad d (do let a ← m; x a) (fun i => (f i).bind fun a => (x a).toOption) := by
  have h := hm.andThen x (fun _ b => b) hx
  simpa only [bind_pure, Option.map_id'] using h

theorem Reads.mapped {m : Read ε α} {f : Item → Option α} (hm : Reads Bad d m f) (h : α → β) :
    Reads Bad d (do let a ← m; pure (h a)) (fun i => (f i).map h) := by
  have h' := hm.andThen (fun _ => .ok ()) (fun a _ => h a) (by simp)
  have hspec : (fun i => (f i).map h) =
      fun i => (f i).bind fun a => ((.ok () : Except ε Unit).toOption).map fun _ => h a := by
    funext i
    cases f i <;> rfl
  rw [hspec]
  exact h'

theorem Reads.takes {m : Read ε α} {f : Item → Option α} (hm : Reads Bad d m f) {r : CborReader}
    (hr : r.Ready d) {i : Item} (hi : i.Legal d) {tail : Bytes} (hrest : r.rest = i.spelling ++ tail)
    {a : α} (hf : f i = some a) : ∃ r', m r = .ok (a, r') ∧ Past r r' i.spelling.length := by
  have hstep := (itemStep_exact d).read hi tail
  rw [← hrest] at hstep
  rcases hm.reads r hr with ⟨j, tail', b, r', hj, hb, hok, hpast⟩ | ⟨hnone, -⟩
  · obtain ⟨rfl, -⟩ := Prod.mk.inj (Option.some.inj (hstep.symm.trans hj))
    obtain rfl := Option.some.inj (hf.symm.trans hb)
    exact ⟨r', hok, hpast⟩
  · rw [hnone i tail hstep] at hf
    cases hf

theorem Reads.guarded (x : Except ε β) (hx : ∀ why, x = .error why → Bad why) {m : β → Read ε α}
    {f : β → Item → Option α} (hm : ∀ b, Reads Bad d (m b) (f b)) :
    Reads Bad d (do let b ← x; m b) (fun i => x.toOption.bind fun b => f b i) := by
  have hrun : ∀ r, (do let b ← (liftM x : Read ε β); m b : Read ε α) r = match x with
      | .ok b => m b r
      | .error why => .error why := by
    intro r
    rw [bind_apply, liftExcept_apply]
    cases x <;> rfl
  cases x with
  | error why =>
    exact ⟨fun r _ => by rw [hrun]; exact hx why rfl, fun r _ => .inr ⟨fun _ _ _ => rfl, by
      rw [hrun]; exact hx why rfl⟩⟩
  | ok b =>
    refine ⟨fun r hr => ?_, fun r hr => ?_⟩
    · rw [hrun]
      exact (hm b).doomed r hr
    · rw [hrun]
      exact (hm b).reads r hr

theorem Reads.run {m : Read ε α} {f : Item → Option α}
    (hm : Reads Bad maxDepth m f) (b : Bytes) :
    (∃ i a, i.Legal maxDepth ∧ i.spelling = b ∧ f i = some a ∧
      ∃ r, m (new b) = .ok (a, r) ∧ r.finish = .ok ()) ∨
    ((∀ i, i.Legal maxDepth → i.spelling = b → f i = none) ∧
      ((∃ why, m (new b) = .error why ∧ Bad why) ∨ ∃ a r, m (new b) = .ok (a, r) ∧ Refuses r.finish)) := by
  have hread : ∀ i, i.Legal maxDepth → i.spelling = b → itemStep maxDepth (new b).rest = some (i, []) :=
    fun i hi hb => (itemStep_exact maxDepth _ _ _).mpr ⟨hi, by simp [hb, new, rest]⟩
  rcases hm.reads _ (ready_new b) with ⟨i, tail, a, r, hi, hf, hok, hpast⟩ | ⟨hnone, hfails⟩
  · obtain ⟨hlegal, hb⟩ := (itemStep_exact maxDepth _ _ _).mp hi
    have hbytes : b = i.spelling ++ tail := hb
    have hfinish : r.finish = if tail = [] then .ok () else .error .trailingBytes := by
      have hlen := congrArg List.length hbytes
      rw [List.length_append] at hlen
      rw [finish, hpast.live.calm]
      have hdepth : r.nest.settle.depth = 0 := congrArg List.length hpast.stack
      have hb' : r.bytes = b := hpast.bytes
      have hn : r.next = 0 + i.spelling.length := hpast.next
      simp only [bind, Except.bind, hdepth, ne_eq, not_true_eq_false, if_false, settled, hb', hn,
        ← List.length_eq_zero_iff (l := tail)]
      split_ifs <;> first | rfl | omega
    split_ifs at hfinish with htail
    · exact .inl ⟨i, a, hlegal, by simp [hbytes, htail], hf, r, hok, hfinish⟩
    · refine .inr ⟨fun j hj hjb => ?_, .inr ⟨a, r, hok, _, hfinish⟩⟩
      have := hi.symm.trans (hread j hj hjb)
      simp only [Option.some.injEq, Prod.mk.injEq] at this
      exact absurd this.2 htail
  · refine .inr ⟨fun i hi hb => hnone i [] (hread i hi hb), ?_⟩
    cases hr : m (new b) with
    | error why =>
      rw [hr] at hfails
      exact .inl ⟨why, rfl, hfails⟩
    | ok p =>
      rw [hr] at hfails
      exact .inr ⟨p.1, p.2, rfl, hfails.finish⟩

variable [FromCbor ε]

theorem Reads.leaf (hbad : ∀ why, Bad (FromCbor.cbor why)) {m : Read CborError α}
    {g : Head → Except CborError α}
    (hm : ∀ r, m r = match head r with
      | .ok (h, r) => (g h).map (·, r)
      | .error why => .error why)
    (harray : ∀ n, Refuses (g (.array n))) (hmap : ∀ n, Refuses (g (.map n))) :
    Reads Bad d (ask m) (fun i => i.leaf?.bind fun h => (g h).toOption) := by
  have hrefused : ∀ r, Refuses (head r) → Refuses (m r) := by
    rintro r ⟨why, hr⟩
    exact ⟨why, by rw [hm, hr]⟩
  refine ⟨fun r hr => ask_refused hbad (hrefused r hr.head), fun r hr => ?_⟩
  have hhead := hr.head
  cases ht : tokenStep r.rest with
  | none =>
    rw [ht] at hhead
    refine .inr ⟨fun i tail hi => ?_, ask_refused hbad (hrefused r hhead)⟩
    rw [itemStep_token ht] at hi
    cases hi
  | some p =>
    obtain ⟨t, tail⟩ := p
    obtain ⟨-, hb⟩ := (tokenStep_exact _ _ _).mp ht
    rw [ht] at hhead
    simp only at hhead
    split_ifs at hhead with hroom
    · refine .inr ⟨fun i tail hi => ?_, ask_refused hbad (hrefused r hhead)⟩
      rw [itemStep_room ht hroom] at hi
      cases hi
    · cases hleaf : t.leaf? with
      | none =>
        have hrefuses : Refuses (m r) := by
          cases he : (r.counted t.spelling.length).enter t.head with
          | error why => exact hrefused r ⟨why, by rw [hhead, he]; rfl⟩
          | ok moved =>
            have hg : Refuses (g t.head) := by
              cases t with
              | unsigned | negative | bytes | text | bool => cases hleaf
              | array w n => exact harray n
              | map w n => exact hmap n
            obtain ⟨why, hg⟩ := hg
            refine ⟨why, ?_⟩
            rw [hm, hhead, he]
            simp only [bind, Except.bind, hg, Except.map]
        refine .inr ⟨fun i tail hi => ?_, ask_refused hbad hrefuses⟩
        rw [itemStep_box ht hleaf hi]
        rfl
      | some i =>
        obtain ⟨hstep, hi, hspell⟩ := itemStep_leaf (d := d) ht hleaf
        have hmr : m r = (g t.head).map (·, r.counted t.spelling.length) := by
          have henter : (r.counted t.spelling.length).enter t.head =
              .ok (r.counted t.spelling.length) := by
            cases t <;> first | rfl | cases hleaf
          rw [hm, hhead, henter]
          rfl
        cases hg : g t.head with
        | error why =>
          refine .inr ⟨fun j tail' hj => ?_, ask_refused hbad ⟨why, by rw [hmr, hg]; rfl⟩⟩
          obtain ⟨rfl, rfl⟩ := Prod.mk.inj (Option.some.inj (hstep.symm.trans hj))
          simp [hi, hg, Except.toOption]
        | ok a =>
          have hok : ask (ε := ε) m r = .ok (a, r.counted t.spelling.length) := by
            rw [ask, hmr, hg, Except.map]
          refine .inl ⟨i, tail, a, _, hstep, by simp [hi, hg, Except.toOption], hok, ?_⟩
          rw [hspell]
          exact hr.counted_past (by simp [hb])

def headUnsigned (max : ℕ) (f : ℕ → α) : Head → Except CborError α
  | .unsigned n => if n ≤ max then .ok (f n) else .error .integerOutOfRange
  | .negative _ => .error .integerOutOfRange
  | _ => .error .wrongType

def headBool : Head → Except CborError Bool
  | .bool value => .ok value
  | _ => .error .wrongType

def headBytes : Head → Except CborError Bytes
  | .bytes raw => .ok raw
  | _ => .error .wrongType

theorem Reads.unsignedTo (hbad : ∀ why, Bad (FromCbor.cbor why)) (max : ℕ) (f : ℕ → α) :
    Reads Bad d (ask (f <$> CborReader.unsignedTo max)) (fun i => (i.uint max).map f) := by
  have hspec : (fun i : Item => (i.uint max).map f) =
      fun i => i.leaf?.bind fun h => (headUnsigned max f h).toOption := by
    funext i
    cases i <;> simp only [Item.uint, Item.leaf?, Option.bind_some, Option.bind_none, headUnsigned] <;>
      first | rfl | (split_ifs <;> rfl)
  rw [hspec]
  refine Reads.leaf hbad (fun r => ?_) (fun n => ⟨_, rfl⟩) (fun n => ⟨_, rfl⟩)
  show ((f <$> CborReader.unsignedTo max) : Read CborError α) r = _
  rw [map_eq_pure_bind, CborReader.unsignedTo, unsigned]
  simp only [bind_assoc, bind_apply]
  cases CborReader.head r with
  | error why => rfl
  | ok p =>
    obtain ⟨h, r⟩ := p
    cases h with
    | unsigned n =>
      have hread : (pure n : Read CborError ℕ) r = .ok (n, r) := rfl
      simp only [hread, headUnsigned]
      by_cases hn : n ≤ max <;> simp only [hn, if_true, if_false] <;> rfl
    | negative | bytes | text | array | map | bool => rfl

theorem Reads.u8 (hbad : ∀ why, Bad (FromCbor.cbor why)) :
    Reads Bad d (ask u8) (fun i => (i.uint 0xFF).map UInt8.ofNat) := .unsignedTo hbad _ _

theorem Reads.u16 (hbad : ∀ why, Bad (FromCbor.cbor why)) :
    Reads Bad d (ask u16) (fun i => (i.uint 0xFFFF).map UInt16.ofNat) := .unsignedTo hbad _ _

theorem Reads.u32 (hbad : ∀ why, Bad (FromCbor.cbor why)) :
    Reads Bad d (ask u32) (fun i => (i.uint 0xFFFFFFFF).map UInt32.ofNat) := .unsignedTo hbad _ _

theorem Reads.bool (hbad : ∀ why, Bad (FromCbor.cbor why)) :
    Reads Bad d (ask CborReader.bool) Item.bool? := by
  have hspec : Item.bool? = fun i => i.leaf?.bind fun h => (headBool h).toOption := by
    funext i
    cases i <;> rfl
  rw [hspec]
  refine Reads.leaf hbad (fun r => ?_) (fun n => ⟨_, rfl⟩) (fun n => ⟨_, rfl⟩)
  simp only [CborReader.bool, bind_apply]
  cases CborReader.head r with
  | error why => rfl
  | ok p =>
    obtain ⟨h, r⟩ := p
    cases h <;> rfl

theorem Reads.bytesValue (hbad : ∀ why, Bad (FromCbor.cbor why)) :
    Reads Bad d (ask CborReader.bytesValue) Item.bytes? := by
  have hspec : Item.bytes? = fun i => i.leaf?.bind fun h => (headBytes h).toOption := by
    funext i
    cases i <;> rfl
  rw [hspec]
  refine Reads.leaf hbad (fun r => ?_) (fun n => ⟨_, rfl⟩) (fun n => ⟨_, rfl⟩)
  simp only [CborReader.bytesValue, bind_apply]
  cases CborReader.head r with
  | error why => rfl
  | ok p =>
    obtain ⟨h, r⟩ := p
    cases h <;> rfl

def headNumber : Head → Except CborError ℕ
  | .unsigned n => .ok n
  | .negative _ => .error .integerOutOfRange
  | _ => .error .wrongType

def headText : Head → Except CborError Bytes
  | .text raw => .ok raw
  | _ => .error .wrongType

def headI32 : Head → Except CborError Int32
  | .unsigned n => if n ≤ 0x7FFFFFFF then .ok (Int32.ofInt n) else .error .integerOutOfRange
  | .negative n => do
    let value ← negative n
    if -0x80000000 ≤ value then .ok (Int32.ofInt value) else .error .integerOutOfRange
  | _ => .error .wrongType

theorem Reads.u64 (hbad : ∀ why, Bad (FromCbor.cbor why)) :
    Reads Bad d (ask CborReader.u64) (fun i => i.leaf?.bind fun h => (headNumber h).toOption) := by
  refine Reads.leaf hbad (fun r => ?_) (fun n => ⟨_, rfl⟩) (fun n => ⟨_, rfl⟩)
  simp only [CborReader.u64, unsigned, bind_apply]
  cases CborReader.head r with
  | error why => rfl
  | ok p =>
    obtain ⟨h, r⟩ := p
    cases h <;> rfl

theorem Reads.text (hbad : ∀ why, Bad (FromCbor.cbor why)) :
    Reads Bad d (ask CborReader.text) (fun i => i.leaf?.bind fun h => (headText h).toOption) := by
  refine Reads.leaf hbad (fun r => ?_) (fun n => ⟨_, rfl⟩) (fun n => ⟨_, rfl⟩)
  simp only [CborReader.text, bind_apply]
  cases CborReader.head r with
  | error why => rfl
  | ok p =>
    obtain ⟨h, r⟩ := p
    cases h <;> rfl

theorem Reads.i32 (hbad : ∀ why, Bad (FromCbor.cbor why)) :
    Reads Bad d (ask CborReader.i32) (fun i => i.leaf?.bind fun h => (headI32 h).toOption) := by
  refine Reads.leaf hbad (fun r => ?_) (fun n => ⟨_, rfl⟩) (fun n => ⟨_, rfl⟩)
  simp only [CborReader.i32, bind_apply]
  cases CborReader.head r with
  | error why => rfl
  | ok p =>
    obtain ⟨h, r⟩ := p
    cases h with
    | unsigned n =>
      simp only [headI32]
      by_cases hn : n ≤ 0x7FFFFFFF <;> simp only [hn, if_true, if_false] <;> rfl
    | negative n =>
      simp only [headI32, bind_apply, liftExcept_apply]
      cases negative n with
      | error why => rfl
      | ok value =>
        simp only [Except.map, bind, Except.bind]
        by_cases hlow : -0x80000000 ≤ value <;> simp only [hlow, if_true, if_false] <;> rfl
    | bytes | text | array | map | bool => rfl

end CborReader

end Km43.Cbor
