import Km43.Limits
import Km43.Library.Slice
import Km43.Library.Stuffing

namespace Km43.Framing

open Library Library.Stuffing

inductive CobsError
  | destinationTooSmall
  | emptyFrame
  | zeroCodeByte
  | zeroInBlock
  | blockRunsPastEnd
  deriving DecidableEq

def maxCode : UInt8 := 0xFF
def maxBlockData : ℕ := 254

def maxEncodedLen (payload : ℕ) : ℕ := payload + payload / maxBlockData + 1

structure Encoder where
  dst : Bytes
  codeAt : ℕ
  next : ℕ
  code : UInt8

namespace Encoder

def new (dst : Bytes) : Except CobsError Encoder :=
  if dst = [] then .error .destinationTooSmall else .ok ⟨dst, 0, 1, 1⟩

def put (e : Encoder) (byte : UInt8) : Except CobsError Unit × Encoder :=
  match paste e.dst e.next [byte] with
  | none => (.error .destinationTooSmall, e)
  | some dst =>
    -- `saturating_add(1)`
    (.ok (), { e with
      dst := dst
      next := e.next + 1
      code := if e.code = maxCode then maxCode else e.code + 1 })

def close (e : Encoder) : Except CobsError Unit × Encoder :=
  match paste e.dst e.codeAt [e.code] with
  | none => (.error .destinationTooSmall, e)
  | some dst =>
    if e.next ≥ dst.length then (.error .destinationTooSmall, { e with dst := dst })
    else (.ok (), ⟨dst, e.next, e.next + 1, 1⟩)

def pushOpen (e : Encoder) (byte : UInt8) : Except CobsError Unit × Encoder :=
  if byte = 0 then e.close else e.put byte

def push (e : Encoder) (byte : UInt8) : Except CobsError Unit × Encoder :=
  if e.code = maxCode then
    match e.close with
    | (.ok (), e) => e.pushOpen byte
    | (.error why, e) => (.error why, e)
  else e.pushOpen byte

def pushAll (e : Encoder) : Bytes → Except CobsError Unit × Encoder
  | [] => (.ok (), e)
  | byte :: src =>
    match e.push byte with
    | (.ok (), e) => e.pushAll src
    | (.error why, e) => (.error why, e)

def finish (e : Encoder) : Except CobsError ℕ × Bytes :=
  match paste e.dst e.codeAt [e.code] with
  | none => (.error .destinationTooSmall, e.dst)
  | some dst => (.ok e.next, dst)

end Encoder

def encode (src dst : Bytes) : Except CobsError ℕ × Bytes :=
  if dst.length < maxEncodedLen src.length then (.error .destinationTooSmall, dst)
  else
    match Encoder.new dst with
    | .error why => (.error why, dst)
    | .ok e =>
      match e.pushAll src with
      | (.ok (), e) => e.finish
      | (.error why, e) => (.error why, e.dst)

structure Decoder where
  src : Bytes
  read : ℕ
  dst : Bytes
  written : ℕ

namespace Decoder

def put (d : Decoder) (byte : UInt8) : Except CobsError Unit × Decoder :=
  match paste d.dst d.written [byte] with
  | none => (.error .destinationTooSmall, d)
  | some dst => (.ok (), { d with dst := dst, written := d.written + 1 })

def putAll (d : Decoder) : Bytes → Except CobsError Unit × Decoder
  | [] => (.ok (), d)
  | byte :: block =>
    if byte = 0 then (.error .zeroInBlock, d)
    else
      match d.put byte with
      | (.ok (), d) => d.putAll block
      | (.error why, d) => (.error why, d)

def copyBlock (d : Decoder) (code : UInt8) : Except CobsError Unit × Decoder :=
  let stop := d.read + (code.toNat - 1)
  match slice d.src d.read stop with
  | none => (.error .blockRunsPastEnd, d)
  | some block =>
    match d.putAll block with
    | (.ok (), d) => (.ok (), { d with read := stop })
    | (.error why, d) => (.error why, d)

def putGap (d : Decoder) (code : UInt8) : Except CobsError Unit × Decoder :=
  if code ≠ maxCode ∧ d.read < d.src.length then d.put 0 else (.ok (), d)

theorem put_same (d : Decoder) (byte : UInt8) :
    (d.put byte).2.src = d.src ∧ (d.put byte).2.read = d.read := by
  unfold put
  cases paste d.dst d.written [byte] <;> exact ⟨rfl, rfl⟩

theorem putAll_same (block : Bytes) (d : Decoder) :
    (d.putAll block).2.src = d.src ∧ (d.putAll block).2.read = d.read := by
  induction block generalizing d with
  | nil => exact ⟨rfl, rfl⟩
  | cons byte block ih =>
    have hput := put_same d byte
    unfold putAll
    split_ifs
    · exact ⟨rfl, rfl⟩
    · split
      · rename_i d' hd
        rw [hd] at hput
        exact ⟨(ih d').1.trans hput.1, (ih d').2.trans hput.2⟩
      · rename_i why d' hd
        rw [hd] at hput
        exact hput

theorem copyBlock_same {d d' : Decoder} {code : UInt8} (h : d.copyBlock code = (.ok (), d')) :
    d'.src = d.src ∧ d.read ≤ d'.read := by
  unfold copyBlock at h
  dsimp only at h
  split at h
  · cases h
  · rename_i block hs
    have hall := putAll_same block d
    split at h
    · rename_i d₁ hd
      rw [hd] at hall
      cases h
      exact ⟨hall.1, Nat.le_add_right _ _⟩
    · cases h

theorem putGap_same {d d' : Decoder} {code : UInt8} {result : Except CobsError Unit}
    (h : d.putGap code = (result, d')) : d'.src = d.src ∧ d'.read = d.read := by
  unfold putGap at h
  split_ifs at h
  · have := put_same d 0
    rwa [h] at this
  · cases h
    exact ⟨rfl, rfl⟩

def run (d : Decoder) : Except CobsError Unit × Decoder :=
  match hc : d.src[d.read]? with
  | none => (.ok (), d)
  | some code =>
    if code = 0 then (.error .zeroCodeByte, d)
    else
      match hb : { d with read := d.read + 1 }.copyBlock code with
      | (.error why, d) => (.error why, d)
      | (.ok (), d₁) =>
        match hg : d₁.putGap code with
        | (.error why, d) => (.error why, d)
        | (.ok (), d₂) => d₂.run
termination_by d.src.length - d.read
decreasing_by
  have hlt := (List.getElem?_eq_some_iff.mp hc).1
  have hb' := copyBlock_same hb
  have hg' := putGap_same hg
  rw [hg'.1, hg'.2, hb'.1]
  have := hb'.2
  simp only at this ⊢
  omega

theorem put_length (d : Decoder) (byte : UInt8) : (d.put byte).2.dst.length = d.dst.length := by
  unfold put
  cases hp : paste d.dst d.written [byte] with
  | none => rfl
  | some dst => exact paste_length hp

theorem putAll_length (block : Bytes) (d : Decoder) :
    (d.putAll block).2.dst.length = d.dst.length := by
  induction block generalizing d with
  | nil => rfl
  | cons byte block ih =>
    have hput := put_length d byte
    unfold putAll
    split_ifs
    · rfl
    · split <;> rename_i d' hd <;> rw [hd] at hput
      · exact (ih d').trans hput
      · exact hput

theorem copyBlock_length (d : Decoder) (code : UInt8) :
    (d.copyBlock code).2.dst.length = d.dst.length := by
  unfold copyBlock
  dsimp only
  split
  · rfl
  · rename_i block _
    have hall := putAll_length block d
    split <;> rename_i hd <;> rw [hd] at hall <;> exact hall

theorem putGap_length (d : Decoder) (code : UInt8) :
    (d.putGap code).2.dst.length = d.dst.length := by
  unfold putGap
  split_ifs
  · exact put_length d 0
  · rfl

theorem run_eq (d : Decoder) :
    d.run = match d.src[d.read]? with
      | none => (.ok (), d)
      | some code =>
        if code = 0 then (.error .zeroCodeByte, d)
        else
          match { d with read := d.read + 1 }.copyBlock code with
          | (.error why, d) => (.error why, d)
          | (.ok (), d₁) =>
            match d₁.putGap code with
            | (.error why, d) => (.error why, d)
            | (.ok (), d₂) => d₂.run := by
  rw [run]
  split <;> rename_i hc <;> rw [hc]
  dsimp only
  split_ifs
  · rfl
  · split <;> rename_i hb <;> rw [hb]
    dsimp only
    split <;> rename_i hg <;> rw [hg]

theorem run_length (d : Decoder) : d.run.2.dst.length = d.dst.length := by
  induction hk : d.src.length - d.read using Nat.strong_induction_on generalizing d with
  | _ k ih =>
    rw [run_eq]
    cases hc : d.src[d.read]? with
    | none => rfl
    | some code =>
      have hlt := (List.getElem?_eq_some_iff.mp hc).1
      have hcopy := copyBlock_length { d with read := d.read + 1 } code
      dsimp only
      split_ifs
      · rfl
      · split
        · rename_i hb
          rwa [hb] at hcopy
        · rename_i d₁ hb
          have hgap := putGap_length d₁ code
          have hsame := copyBlock_same hb
          rw [hb] at hcopy
          split
          · rename_i hg
            rw [hg] at hgap
            exact hgap.trans hcopy
          · rename_i d₂ hg
            have hsame' := putGap_same hg
            rw [hg] at hgap
            have hless : d₂.src.length - d₂.read < k := by
              rw [hsame'.1, hsame'.2, hsame.1]
              have := hsame.2
              simp only at this ⊢
              omega
            exact (ih _ hless d₂ rfl).trans (hgap.trans hcopy)

end Decoder

def decode (src dst : Bytes) : Except CobsError ℕ × Bytes :=
  if src = [] then (.error .emptyFrame, dst)
  else
    match Decoder.run ⟨src, 0, dst, 0⟩ with
    | (.ok (), d) => (.ok d.written, d.dst)
    | (.error why, d) => (.error why, d.dst)

theorem decode_length (src dst : Bytes) : (decode src dst).2.length = dst.length := by
  have hrun := Decoder.run_length ⟨src, 0, dst, 0⟩
  unfold decode
  split_ifs
  · rfl
  · split <;> rename_i hd <;> rw [hd] at hrun <;> exact hrun

theorem paste_at (xs ys : Bytes) (x y : UInt8) :
    paste (xs ++ x :: ys) xs.length [y] = some (xs ++ y :: ys) := by
  rw [paste_some _ _ _ (by simp)]
  simp

/-- The encoder has written `done`, then a byte held back for the code of `block`, then `block`. -/
structure Encoder.Wrote (e : Encoder) (done block tail : Bytes) : Prop where
  dst : ∃ x, e.dst = done ++ x :: (block ++ tail)
  codeAt : e.codeAt = done.length
  next : e.next = done.length + 1 + block.length
  code : e.code = Stuffing.code block
  block : Block block

namespace Encoder.Wrote

variable {e : Encoder} {done block tail : Bytes} {y : UInt8}

theorem paste_code (h : e.Wrote done block tail) :
    paste e.dst e.codeAt [e.code] = some (done ++ e.code :: (block ++ tail)) := by
  obtain ⟨x, hx⟩ := h.dst
  rw [hx, h.codeAt, paste_at]

theorem full (h : e.Wrote done block tail) : e.code = maxCode ↔ block.length = maxBlock := by
  rw [h.code, ← UInt8.toNat_inj, h.block.code_toNat]
  simp [maxCode, maxBlock]

theorem close (h : e.Wrote done block (y :: tail)) :
    ∃ e', e.close = (.ok (), e') ∧ e'.Wrote (done ++ Stuffing.code block :: block) [] tail := by
  have hlen : (done ++ e.code :: (block ++ y :: tail)).length =
      done.length + 1 + block.length + 1 + tail.length := by
    simp only [List.length_append, List.length_cons]
    omega
  refine ⟨⟨done ++ e.code :: (block ++ y :: tail), e.next, e.next + 1, 1⟩, ?_, ?_⟩
  · rw [Encoder.close, h.paste_code]
    simp only
    rw [if_neg (by rw [hlen, h.next]; omega)]
  · refine ⟨⟨y, by simp [h.code]⟩, ?_, ?_, rfl, Block.nil⟩
    · simp only [h.next, List.length_append, List.length_cons]
      omega
    · simp only [h.next, List.length_append, List.length_cons, List.length_nil]
      omega

theorem put (h : e.Wrote done block (y :: tail)) {b : UInt8} (hs : block.length ≠ maxBlock)
    (hb : b ≠ 0) : ∃ e', e.put b = (.ok (), e') ∧ e'.Wrote done (block ++ [b]) tail := by
  obtain ⟨x, hx⟩ := h.dst
  have hsplit : e.dst = (done ++ x :: block) ++ y :: tail := by rw [hx]; simp
  have hnext : e.next = (done ++ x :: block).length := by
    rw [h.next]
    simp only [List.length_append, List.length_cons]
    omega
  have hcode : e.code ≠ maxCode := h.full.not.mpr hs
  have hgrown : e.code + 1 = Stuffing.code (block ++ [b]) := by
    rw [h.code]
    simp [Stuffing.code]
  refine ⟨{ e with dst := (done ++ x :: block) ++ b :: tail, next := e.next + 1, code := e.code + 1 },
    ?_, ⟨⟨x, by simp⟩, h.codeAt, ?_, hgrown, h.block.snoc hs hb⟩⟩
  · rw [Encoder.put, hsplit, hnext, paste_at]
    simp only [hcode, if_false, ← hnext]
  · simp only [h.next, List.length_append, List.length_singleton]
    omega

theorem pushOpen (h : e.Wrote done block tail) (hs : block.length ≠ maxBlock) (b : UInt8)
    (src : Bytes) (hroom : (stuffFrom block (b :: src)).length ≤ 1 + block.length + tail.length) :
    ∃ e' done' block' tail', e.pushOpen b = (.ok (), e') ∧ e'.Wrote done' block' tail' ∧
      done' ++ stuffFrom block' src = done ++ stuffFrom block (b :: src) ∧
      done'.length + block'.length + tail'.length = done.length + block.length + tail.length := by
  simp only [stuffFrom, hs, if_false] at hroom ⊢
  cases tail with
  | nil =>
    have hend := stuffFrom_length_ge [] src
    have hgrown := stuffFrom_length_ge (block ++ [b]) src
    split_ifs at hroom <;> simp only [List.length_append, List.length_cons, List.length_nil] at * <;>
      omega
  | cons y tail =>
    by_cases hb : b = 0
    · obtain ⟨e', he, hw⟩ := h.close
      refine ⟨e', _, _, _, by rw [Encoder.pushOpen, if_pos hb, he], hw, by simp [hb], ?_⟩
      simp only [List.length_append, List.length_cons, List.length_nil]
      omega
    · obtain ⟨e', he, hw⟩ := h.put hs hb
      refine ⟨e', _, _, _, by rw [Encoder.pushOpen, if_neg hb, he], hw, by simp [hb], ?_⟩
      simp only [List.length_append, List.length_cons, List.length_nil]
      omega

theorem push (h : e.Wrote done block tail) (b : UInt8) (src : Bytes)
    (hroom : (stuffFrom block (b :: src)).length ≤ 1 + block.length + tail.length) :
    ∃ e' done' block' tail', e.push b = (.ok (), e') ∧ e'.Wrote done' block' tail' ∧
      done' ++ stuffFrom block' src = done ++ stuffFrom block (b :: src) ∧
      done'.length + block'.length + tail'.length = done.length + block.length + tail.length := by
  by_cases hs : block.length = maxBlock
  · have hlen := stuffFrom_length_ge [] (b :: src)
    rw [stuffFrom_full hs] at hroom ⊢
    simp only [List.length_append, List.length_cons, List.length_nil] at hroom hlen
    cases tail with
    | nil => simp only [List.length_nil] at hroom; omega
    | cons y tail =>
      obtain ⟨e₁, he₁, hw₁⟩ := h.close
      obtain ⟨e', done', block', tail', he, hw, hj, hl⟩ := hw₁.pushOpen (by simp [maxBlock]) b src (by
        simp only [List.length_cons, List.length_nil] at hroom ⊢; omega)
      refine ⟨e', done', block', tail', ?_, hw, by rw [hj]; simp, ?_⟩
      · rw [Encoder.push, if_pos (h.full.mpr hs), he₁]
        exact he
      · simp only [List.length_append, List.length_cons, List.length_nil] at hl ⊢
        omega
  · obtain ⟨e', done', block', tail', he, hw, hj, hl⟩ := h.pushOpen hs b src hroom
    exact ⟨e', done', block', tail', by rw [Encoder.push, if_neg (h.full.not.mpr hs), he], hw, hj, hl⟩

theorem pushAll (src : Bytes) (h : e.Wrote done block tail)
    (hroom : (stuffFrom block src).length ≤ 1 + block.length + tail.length) :
    ∃ e' done' block' tail', e.pushAll src = (.ok (), e') ∧ e'.Wrote done' block' tail' ∧
      done' ++ Stuffing.code block' :: block' = done ++ stuffFrom block src ∧
      done'.length + block'.length + tail'.length = done.length + block.length + tail.length := by
  induction src generalizing e done block tail with
  | nil => exact ⟨e, done, block, tail, rfl, h, rfl, rfl⟩
  | cons b src ih =>
    obtain ⟨e₁, done₁, block₁, tail₁, he₁, hw₁, hj₁, hl₁⟩ := h.push b src hroom
    have hlen := congrArg List.length hj₁
    simp only [List.length_append] at hlen
    obtain ⟨e', done', block', tail', he, hw, hj, hl⟩ := ih hw₁ (by omega)
    refine ⟨e', done', block', tail', ?_, hw, hj.trans hj₁, hl.trans hl₁⟩
    rw [Encoder.pushAll, he₁]
    exact he

theorem finish (h : e.Wrote done block tail) :
    e.finish = (.ok (done ++ Stuffing.code block :: block).length,
      done ++ Stuffing.code block :: block ++ tail) := by
  rw [Encoder.finish, h.paste_code]
  simp only [h.code, h.next, List.length_append, List.length_cons, Prod.mk.injEq, Except.ok.injEq]
  exact ⟨by omega, by simp⟩

end Encoder.Wrote

theorem encode_eq (src dst : Bytes) (h : maxEncodedLen src.length ≤ dst.length) :
    ∃ tail, encode src dst = (.ok (stuff src).length, stuff src ++ tail) ∧
      (stuff src ++ tail).length = dst.length := by
  have hbound : (stuff src).length ≤ dst.length := (stuff_length src).trans h
  have hpos : dst ≠ [] := by
    rintro rfl
    simp [maxEncodedLen] at h
  obtain ⟨x, rest, rfl⟩ := List.exists_cons_of_ne_nil hpos
  have hnew : (⟨x :: rest, 0, 1, 1⟩ : Encoder).Wrote [] [] rest :=
    ⟨⟨x, rfl⟩, rfl, rfl, rfl, Block.nil⟩
  obtain ⟨e, done, block, tail, he, hw, hj, hl⟩ := hnew.pushAll src (by
    simpa [stuff, Nat.add_comm] using hbound)
  rw [List.nil_append] at hj
  refine ⟨tail, ?_, ?_⟩
  · rw [encode, if_neg (Nat.not_lt.mpr h), Encoder.new, if_neg hpos]
    simp only [he, hw.finish, hj, stuff]
  · rw [stuff, ← hj]
    simp only [List.length_append, List.length_cons, List.length_nil] at hl ⊢
    omega

namespace Decoder

/-- The decoder has written `out` to the front of its destination. -/
structure Wrote (d : Decoder) (out : Bytes) : Prop where
  dst : ∃ tail, d.dst = out ++ tail
  written : d.written = out.length

theorem Wrote.put {d : Decoder} {out : Bytes} (h : d.Wrote out) (b : UInt8)
    (hroom : out.length < d.dst.length) :
    ∃ dst, d.put b = (.ok (), { d with dst := dst, written := d.written + 1 }) ∧
      dst.length = d.dst.length ∧
      ({ d with dst := dst, written := d.written + 1 } : Decoder).Wrote (out ++ [b]) := by
  obtain ⟨tail, ht⟩ := h.dst
  cases tail with
  | nil => simp [ht] at hroom
  | cons y tail =>
    refine ⟨out ++ b :: tail, ?_, by simp [ht], ⟨tail, by simp⟩, by simp [h.written]⟩
    rw [Decoder.put, ht, h.written, paste_at]

theorem Wrote.putAll {d : Decoder} {out : Bytes} (block : Bytes) (h : d.Wrote out) (hz : 0 ∉ block)
    (hroom : out.length + block.length ≤ d.dst.length) :
    ∃ dst, d.putAll block = (.ok (), { d with dst := dst, written := d.written + block.length }) ∧
      dst.length = d.dst.length ∧
      ({ d with dst := dst, written := d.written + block.length } : Decoder).Wrote (out ++ block) := by
  induction block generalizing d out with
  | nil => exact ⟨d.dst, rfl, rfl, by simpa using h⟩
  | cons b block ih =>
    simp only [List.mem_cons, not_or] at hz
    simp only [List.length_cons] at hroom
    obtain ⟨dst₁, hp₁, hl₁, hw₁⟩ := h.put b (by omega)
    obtain ⟨dst, hp, hl, hw⟩ := ih hw₁ hz.2 (by
      simp only [List.length_append, List.length_singleton, hl₁]; omega)
    have hsum : d.written + 1 + block.length = d.written + (block.length + 1) := by omega
    simp only [hsum, List.append_assoc, List.singleton_append] at hp hw
    refine ⟨dst, ?_, hl.trans hl₁, hw⟩
    rw [Decoder.putAll, if_neg (Ne.symm hz.1), hp₁]
    exact hp

theorem code_gap {c : UInt8} : c ≠ maxCode ↔ c.toNat - 1 < maxBlock := by
  have hlt := c.toNat_lt
  rw [Ne, ← UInt8.toNat_inj, show maxCode.toNat = 255 from rfl, maxBlock]
  omega

theorem Wrote.copyBlock {d : Decoder} {out block : Bytes} (code : UInt8) (h : d.Wrote out)
    (hb : slice d.src d.read (d.read + (code.toNat - 1)) = some block) (hz : 0 ∉ block)
    (hroom : out.length + block.length ≤ d.dst.length) :
    ∃ d', d.copyBlock code = (.ok (), d') ∧ d'.src = d.src ∧ d'.read = d.read + (code.toNat - 1) ∧
      d'.dst.length = d.dst.length ∧ d'.Wrote (out ++ block) := by
  obtain ⟨dst, hp, hl, hw⟩ := h.putAll block hz hroom
  refine ⟨{ d with dst := dst, written := d.written + block.length,
                   read := d.read + (code.toNat - 1) }, ?_, rfl, rfl, hl, hw.dst, hw.written⟩
  simp only [Decoder.copyBlock, hb, hp]

theorem Wrote.putGap {d : Decoder} {out : Bytes} (h : d.Wrote out) (code : UInt8) (gap : Prop)
    [Decidable gap] (hg : (code ≠ maxCode ∧ d.read < d.src.length) ↔ gap)
    (hroom : (out ++ if gap then [0] else []).length ≤ d.dst.length) :
    ∃ d', d.putGap code = (.ok (), d') ∧ d'.src = d.src ∧ d'.read = d.read ∧
      d'.dst.length = d.dst.length ∧ d'.Wrote (out ++ if gap then [0] else []) := by
  by_cases hgap : gap
  · simp only [hgap, if_true, List.length_append, List.length_singleton] at hroom ⊢
    obtain ⟨dst, hp, hl, hw⟩ := h.put 0 (by omega)
    exact ⟨{ d with dst := dst, written := d.written + 1 },
      by rw [Decoder.putGap, if_pos (hg.mpr hgap), hp], rfl, rfl, hl, hw⟩
  · simp only [hgap, if_false, List.append_nil]
    exact ⟨d, by rw [Decoder.putGap, if_neg (hg.not.mpr hgap)], rfl, rfl, rfl, h⟩

theorem run_step {d d₁ d₂ : Decoder} {code : UInt8} (hc : d.src[d.read]? = some code)
    (hz : code ≠ 0) (hb : { d with read := d.read + 1 }.copyBlock code = (.ok (), d₁))
    (hg : d₁.putGap code = (.ok (), d₂)) : d.run = d₂.run := by
  rw [run_eq, hc]
  simp only [hz, if_false, hb, hg]

theorem Wrote.run {d : Decoder} {out p : Bytes} (h : d.Wrote out)
    (hp : unstuff (d.src.drop d.read) = .ok p) (hroom : out.length + p.length ≤ d.dst.length) :
    ∃ d', d.run = (.ok (), d') ∧ d'.Wrote (out ++ p) ∧ d'.dst.length = d.dst.length := by
  induction hk : d.src.length - d.read using Nat.strong_induction_on generalizing d out p with
  | _ k ih =>
    cases hr : d.src.drop d.read with
    | nil =>
      rw [hr, unstuff, Except.ok.injEq] at hp
      subst hp
      have hn : d.src[d.read]? = none := by
        simpa using hr
      exact ⟨d, by rw [run_eq, hn], by simpa using h, rfl⟩
    | cons c bs =>
      rw [hr] at hp
      obtain ⟨hc, hl, hz, q, hq, rfl⟩ := unstuff_cons hp
      have hcode : d.src[d.read]? = some c := by
        rw [← List.head?_drop, hr, List.head?_cons]
      have hbs : d.src.drop (d.read + 1) = bs := by
        rw [← List.drop_drop, hr, List.drop_one, List.tail_cons]
      have hlen : d.src.length - (d.read + 1) = bs.length := by rw [← hbs, List.length_drop]
      have hlt : d.read < d.src.length := (List.getElem?_eq_some_iff.mp hcode).1
      have hslice : slice d.src (d.read + 1) (d.read + 1 + (c.toNat - 1)) =
          some (bs.take (c.toNat - 1)) := by
        rw [slice, if_pos (by omega), hbs, Nat.add_sub_cancel_left]
      have hgap : (c ≠ maxCode ∧ d.read + 1 + (c.toNat - 1) < d.src.length) ↔
          (c.toNat - 1 < maxBlock ∧ c.toNat - 1 < bs.length) := by
        rw [code_gap]
        omega
      simp only [List.length_append] at hroom
      obtain ⟨d₁, hb₁, hs₁, hr₁, hl₁, hw₁⟩ :=
        Wrote.copyBlock (d := { d with read := d.read + 1 }) c ⟨h.dst, h.written⟩ hslice hz
          (by simp only; omega)
      have hdst : d₁.dst.length = d.dst.length := hl₁
      obtain ⟨d₂, hg₂, hs₂, hr₂, hl₂, hw₂⟩ := hw₁.putGap c _
        (show _ ↔ (c.toNat - 1 < maxBlock ∧ c.toNat - 1 < bs.length) by rw [hs₁, hr₁]; exact hgap)
        (by simp only [List.length_append, hdst]; omega)
      have hrest : d₂.src.drop d₂.read = bs.drop (c.toNat - 1) := by
        rw [hs₂, hs₁, hr₂, hr₁, ← List.drop_drop, hbs]
      obtain ⟨d', hrun, hw', hl'⟩ := ih _ (by rw [hs₂, hs₁, hr₂, hr₁]; simp only; omega) hw₂
        (by rw [hrest]; exact hq)
        (by simp only [List.length_append, hl₂, hdst]; omega) rfl
      refine ⟨d', ?_, by simpa using hw', hl'.trans (hl₂.trans hl₁)⟩
      rw [run_step hcode hc hb₁ hg₂]
      exact hrun

end Decoder

theorem decode_eq {src p : Bytes} (dst : Bytes) (hs : src ≠ []) (hp : unstuff src = .ok p)
    (hroom : p.length ≤ dst.length) :
    ∃ tail, decode src dst = (.ok p.length, p ++ tail) ∧ (p ++ tail).length = dst.length := by
  have hnew : (⟨src, 0, dst, 0⟩ : Decoder).Wrote [] := ⟨⟨dst, rfl⟩, rfl⟩
  obtain ⟨d, hr, hw, hl⟩ := hnew.run hp (by simpa using hroom)
  obtain ⟨tail, ht⟩ := hw.dst
  rw [List.nil_append] at ht
  refine ⟨tail, ?_, by rw [← ht, hl]⟩
  rw [decode, if_neg hs, hr]
  simp only [hw.written, List.nil_append, ht]

end Km43.Framing
