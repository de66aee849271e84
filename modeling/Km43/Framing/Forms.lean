import Km43.Framing.Cobs

namespace Km43.Framing

open Library Library.Stuffing

theorem paste_full (xs : Bytes) {start : ℕ} (h : xs.length ≤ start) (y : UInt8) :
    paste xs start [y] = none := paste_none _ _ _ (by simp only [List.length_singleton]; omega)

namespace Decoder

variable {d d' : Decoder} {out p block : Bytes} {code : UInt8}

theorem Wrote.length_le (h : d.Wrote out) : out.length ≤ d.dst.length := by
  obtain ⟨tail, ht⟩ := h.dst
  rw [ht, List.length_append]
  omega

theorem Wrote.put_short (h : d.Wrote out) (b : UInt8) (hroom : d.dst.length ≤ out.length) :
    d.put b = (.error .destinationTooSmall, d) := by
  rw [Decoder.put, paste_full _ (by rw [h.written]; exact hroom)]

theorem Wrote.putAll_short (h : d.Wrote out) (hz : 0 ∉ block)
    (hroom : d.dst.length < out.length + block.length) :
    ∃ d', d.putAll block = (.error .destinationTooSmall, d') := by
  induction block generalizing d out with
  | nil =>
    have hle := h.length_le
    simp only [List.length_nil] at hroom
    omega
  | cons b block ih =>
    simp only [List.mem_cons, not_or] at hz
    simp only [List.length_cons] at hroom
    rw [Decoder.putAll, if_neg (Ne.symm hz.1)]
    by_cases hfull : d.dst.length ≤ out.length
    · exact ⟨d, by rw [h.put_short b hfull]⟩
    · obtain ⟨dst, hp, hl, hw⟩ := h.put b (by omega)
      rw [hp]
      apply ih hw hz.2
      simp only [List.length_append, List.length_singleton, hl]
      omega

theorem Wrote.putAll_ok (h : d.Wrote out) (hp : d.putAll block = (.ok (), d')) :
    0 ∉ block ∧ out.length + block.length ≤ d.dst.length := by
  by_cases hz : 0 ∈ block
  · exfalso
    induction block generalizing d out with
    | nil => simp at hz
    | cons b block ih =>
      rw [Decoder.putAll] at hp
      by_cases hb : b = 0
      · rw [if_pos hb] at hp
        cases hp
      rw [if_neg hb] at hp
      by_cases hfull : d.dst.length ≤ out.length
      · rw [h.put_short b hfull] at hp
        cases hp
      · obtain ⟨dst, hput, -, hw⟩ := h.put b (by omega)
        rw [hput] at hp
        exact ih hw hp (by simpa [Ne.symm hb] using hz)
  · refine ⟨hz, ?_⟩
    by_contra hroom
    obtain ⟨d₁, hp₁⟩ := h.putAll_short hz (not_le.mp hroom)
    rw [hp₁] at hp
    cases hp

theorem Wrote.copyBlock_short (h : d.Wrote out)
    (hb : slice d.src d.read (d.read + (code.toNat - 1)) = some block) (hz : 0 ∉ block)
    (hroom : d.dst.length < out.length + block.length) :
    ∃ d', d.copyBlock code = (.error .destinationTooSmall, d') := by
  obtain ⟨d', hp⟩ := h.putAll_short hz hroom
  exact ⟨d', by simp only [Decoder.copyBlock, hb, hp]⟩

theorem copyBlock_ok (h : d.Wrote out) (hc : d.copyBlock code = (.ok (), d')) :
    ∃ block, slice d.src d.read (d.read + (code.toNat - 1)) = some block ∧ 0 ∉ block ∧
      out.length + block.length ≤ d.dst.length := by
  cases hs : slice d.src d.read (d.read + (code.toNat - 1)) with
  | none => simp only [Decoder.copyBlock, hs, Prod.mk.injEq, reduceCtorEq, false_and] at hc
  | some block =>
    simp only [Decoder.copyBlock, hs] at hc
    cases hp : d.putAll block with
    | mk result d₁ =>
      cases result with
      | error why => simp only [hp, Prod.mk.injEq, reduceCtorEq, false_and] at hc
      | ok =>
        obtain ⟨hz, hroom⟩ := h.putAll_ok hp
        exact ⟨block, rfl, hz, hroom⟩

theorem Wrote.putGap_short (h : d.Wrote out) {gap : Prop} [Decidable gap]
    (hg : (code ≠ maxCode ∧ d.read < d.src.length) ↔ gap)
    (hroom : d.dst.length < (out ++ if gap then [0] else []).length) :
    d.putGap code = (.error .destinationTooSmall, d) := by
  have hle := h.length_le
  by_cases hgap : gap
  · simp only [hgap, if_true, List.length_append, List.length_singleton] at hroom
    rw [Decoder.putGap, if_pos (hg.mpr hgap), h.put_short 0 (by omega)]
  · simp only [hgap, if_false, List.append_nil] at hroom
    omega

theorem at_block {c : UInt8} {bs : Bytes} (hr : d.src.drop d.read = c :: bs) :
    d.src[d.read]? = some c ∧ d.src.drop (d.read + 1) = bs ∧
      d.src.length = d.read + 1 + bs.length := by
  have hc : d.src[d.read]? = some c := by rw [← List.head?_drop, hr, List.head?_cons]
  have hbs : d.src.drop (d.read + 1) = bs := by
    rw [← List.drop_drop, hr, List.drop_one, List.tail_cons]
  have hlt := (List.getElem?_eq_some_iff.mp hc).1
  have hlen := congrArg List.length hbs
  rw [List.length_drop] at hlen
  exact ⟨hc, hbs, by omega⟩

theorem slice_block {c : UInt8} {bs : Bytes} (hr : d.src.drop d.read = c :: bs)
    (hl : c.toNat - 1 ≤ bs.length) :
    slice d.src (d.read + 1) (d.read + 1 + (c.toNat - 1)) = some (bs.take (c.toNat - 1)) := by
  obtain ⟨-, hbs, hlen⟩ := at_block hr
  rw [slice, if_pos (by omega), hbs, Nat.add_sub_cancel_left]

theorem run_copy_error {c : UInt8} {why : CobsError} (hc : d.src[d.read]? = some c) (hz : c ≠ 0)
    (hb : { d with read := d.read + 1 }.copyBlock c = (.error why, d')) : d.run = (.error why, d') := by
  rw [run_eq, hc]
  simp only [hz, if_false, hb]

theorem run_gap_error {d₁ : Decoder} {c : UInt8} {why : CobsError} (hc : d.src[d.read]? = some c)
    (hz : c ≠ 0) (hb : { d with read := d.read + 1 }.copyBlock c = (.ok (), d₁))
    (hg : d₁.putGap c = (.error why, d')) : d.run = (.error why, d') := by
  rw [run_eq, hc]
  simp only [hz, if_false, hb, hg]

theorem Wrote.run_short (h : d.Wrote out) (hp : unstuff (d.src.drop d.read) = .ok p)
    (hroom : d.dst.length < out.length + p.length) :
    ∃ d', d.run = (.error .destinationTooSmall, d') := by
  induction hk : d.src.length - d.read using Nat.strong_induction_on generalizing d out p with
  | _ k ih =>
    cases hr : d.src.drop d.read with
    | nil =>
      have hle := h.length_le
      rw [hr, unstuff, Except.ok.injEq] at hp
      subst hp
      simp only [List.length_nil] at hroom
      omega
    | cons c bs =>
      rw [hr] at hp
      obtain ⟨hc, hl, hz, q, hq, rfl⟩ := unstuff_cons hp
      obtain ⟨hcode, hbs, hlen⟩ := at_block hr
      have hslice := slice_block hr hl
      have hw : ({ d with read := d.read + 1 } : Decoder).Wrote out := ⟨h.dst, h.written⟩
      by_cases hfit : out.length + (bs.take (c.toNat - 1)).length ≤ d.dst.length
      · obtain ⟨d₁, hb₁, hs₁, hr₁, hl₁, hw₁⟩ := hw.copyBlock c hslice hz hfit
        have hdst : d₁.dst.length = d.dst.length := hl₁
        have hgap : (c ≠ maxCode ∧ d₁.read < d₁.src.length) ↔
            (c.toNat - 1 < maxBlock ∧ c.toNat - 1 < bs.length) := by
          rw [code_gap, hs₁, hr₁]
          simp only [hlen]
          omega
        by_cases hroom₁ : (out ++ bs.take (c.toNat - 1) ++
            if c.toNat - 1 < maxBlock ∧ c.toNat - 1 < bs.length then [0] else []).length ≤ d₁.dst.length
        · obtain ⟨d₂, hg₂, hs₂, hr₂, hl₂, hw₂⟩ := hw₁.putGap c _ hgap hroom₁
          have hrest : d₂.src.drop d₂.read = bs.drop (c.toNat - 1) := by
            rw [hs₂, hs₁, hr₂, hr₁, ← List.drop_drop, hbs]
          obtain ⟨d', hrun⟩ := ih _ (by rw [hs₂, hs₁, hr₂, hr₁]; simp only; omega) hw₂
            (by rw [hrest]; exact hq)
            (by simp only [List.length_append, hl₂, hdst] at hroom ⊢; omega) rfl
          exact ⟨d', by rw [run_step hcode hc hb₁ hg₂, hrun]⟩
        · exact ⟨d₁, run_gap_error hcode hc hb₁ (hw₁.putGap_short hgap (not_le.mp hroom₁))⟩
      · obtain ⟨d', hb⟩ := hw.copyBlock_short hslice hz (not_le.mp hfit)
        exact ⟨d', run_copy_error hcode hc hb⟩

theorem Wrote.run_ok (h : d.Wrote out) (hrun : d.run = (.ok (), d')) :
    ∃ p, unstuff (d.src.drop d.read) = .ok p := by
  induction hk : d.src.length - d.read using Nat.strong_induction_on generalizing d out with
  | _ k ih =>
    cases hr : d.src.drop d.read with
    | nil => exact ⟨[], by rw [unstuff]⟩
    | cons c bs =>
      obtain ⟨hcode, hbs, hlen⟩ := at_block hr
      have hw : ({ d with read := d.read + 1 } : Decoder).Wrote out := ⟨h.dst, h.written⟩
      rw [run_eq, hcode] at hrun
      simp only at hrun
      by_cases hc : c = 0
      · rw [if_pos hc] at hrun
        cases hrun
      rw [if_neg hc] at hrun
      cases hb : { d with read := d.read + 1 }.copyBlock c with
      | mk result d₁ =>
        cases result with
        | error why => rw [hb] at hrun; cases hrun
        | ok =>
          obtain ⟨block, hslice, hz, hfit⟩ := copyBlock_ok hw hb
          have hl : c.toNat - 1 ≤ bs.length := by
            by_contra hlong
            rw [slice, if_neg (by simp only [hlen]; omega)] at hslice
            cases hslice
          obtain rfl := Option.some.inj ((slice_block hr hl).symm.trans hslice)
          obtain ⟨d₁', hb₁, hs₁, hr₁, hl₁, hw₁⟩ := hw.copyBlock c hslice hz hfit
          obtain rfl := (Prod.mk.inj (hb.symm.trans hb₁)).2
          rw [hb] at hrun
          simp only at hrun
          have hgap : (c ≠ maxCode ∧ d₁.read < d₁.src.length) ↔
              (c.toNat - 1 < maxBlock ∧ c.toNat - 1 < bs.length) := by
            rw [code_gap, hs₁, hr₁]
            simp only [hlen]
            omega
          by_cases hroom : (out ++ bs.take (c.toNat - 1) ++
              if c.toNat - 1 < maxBlock ∧ c.toNat - 1 < bs.length then [0] else []).length ≤
                d₁.dst.length
          · obtain ⟨d₂, hg₂, hs₂, hr₂, -, hw₂⟩ := hw₁.putGap c _ hgap hroom
            rw [hg₂] at hrun
            obtain ⟨q, hq⟩ := ih _ (by rw [hs₂, hs₁, hr₂, hr₁]; simp only; omega) hw₂ hrun rfl
            rw [hs₂, hs₁, hr₂, hr₁] at hq
            simp only [← List.drop_drop, hbs] at hq
            rw [unstuff, if_neg hc, if_neg (not_lt.mpr hl), if_neg hz, hq]
            exact ⟨_, rfl⟩
          · rw [hw₁.putGap_short hgap (not_le.mp hroom)] at hrun
            cases hrun

end Decoder

theorem encode_small {src dst : Bytes} (h : dst.length < maxEncodedLen src.length) :
    encode src dst = (.error .destinationTooSmall, dst) := if_pos h

theorem decode_small {src p dst : Bytes} (hs : src ≠ []) (hp : unstuff src = .ok p)
    (hroom : dst.length < p.length) :
    ∃ out, decode src dst = (.error .destinationTooSmall, out) ∧ out.length = dst.length := by
  have hnew : (⟨src, 0, dst, 0⟩ : Decoder).Wrote [] := ⟨⟨dst, rfl⟩, rfl⟩
  obtain ⟨d, hr⟩ := hnew.run_short hp (by simpa using hroom)
  have hd : decode src dst = (.error .destinationTooSmall, d.dst) := by
    rw [decode, if_neg hs, hr]
  have hlen := decode_length src dst
  rw [hd] at hlen
  exact ⟨d.dst, hd, hlen⟩

theorem decode_ok {src dst out : Bytes} {n : ℕ} (h : decode src dst = (.ok n, out)) :
    src ≠ [] ∧ unstuff src = .ok (out.take n) := by
  have hnew : (⟨src, 0, dst, 0⟩ : Decoder).Wrote [] := ⟨⟨dst, rfl⟩, rfl⟩
  have hs : src ≠ [] := by
    rintro rfl
    simp [decode] at h
  refine ⟨hs, ?_⟩
  cases hr : Decoder.run ⟨src, 0, dst, 0⟩ with
  | mk result d =>
    cases result with
    | error why => simp [decode, hs, hr] at h
    | ok =>
      obtain ⟨p, hp⟩ := hnew.run_ok hr
      rw [List.drop_zero] at hp
      by_cases hroom : p.length ≤ dst.length
      · obtain ⟨tail, hd, -⟩ := decode_eq dst hs hp hroom
        obtain ⟨hn, rfl⟩ := Prod.mk.inj (hd.symm.trans h)
        obtain rfl := Except.ok.inj hn
        rw [hp, List.take_left]
      · obtain ⟨out', hd, -⟩ := decode_small hs hp (not_le.mp hroom)
        rw [hd] at h
        cases h

/-- `encode` writes `e` for `p` where there is room for the longest encoding of that length, and a
shorter destination is refused as it was. -/
def Encodes (p e : Bytes) : Prop := ∀ dst : Bytes,
  (maxEncodedLen p.length ≤ dst.length → ∃ tail, encode p dst = (.ok e.length, e ++ tail) ∧
    (e ++ tail).length = dst.length) ∧
  (dst.length < maxEncodedLen p.length → encode p dst = (.error .destinationTooSmall, dst))

/-- `decode` writes `p` for `f` where `p` fits, and a shorter destination is refused. -/
def Decodes (f p : Bytes) : Prop := ∀ dst : Bytes,
  (p.length ≤ dst.length → ∃ tail, decode f dst = (.ok p.length, p ++ tail) ∧
    (p ++ tail).length = dst.length) ∧
  (dst.length < p.length → ∃ out, decode f dst = (.error .destinationTooSmall, out) ∧
    out.length = dst.length)

theorem encodes_stuff (p : Bytes) : Encodes p (stuff p) := by
  intro dst
  exact ⟨encode_eq p dst, encode_small⟩

theorem decodes_iff {f p : Bytes} : Decodes f p ↔ f ≠ [] ∧ unstuff f = .ok p := by
  constructor
  · intro h
    obtain ⟨tail, hd, -⟩ := (h p).1 le_rfl
    have hok := decode_ok hd
    rwa [List.take_left] at hok
  · rintro ⟨hf, hp⟩ dst
    exact ⟨decode_eq dst hf hp, decode_small hf hp⟩

/-- A payload is decoded from its own encoding, and from that with an empty block after a full
last one. -/
theorem decodes_forms (f p : Bytes) :
    Decodes f p ↔ f = stuff p ∨ f = stuff p ++ [1] ∧ lastFull (stuff p) := by
  rw [decodes_iff]
  constructor
  · rintro ⟨hf, hp⟩
    exact unstuff_forms hf hp
  · rintro (rfl | ⟨rfl, hfull⟩)
    · exact ⟨stuff_ne_nil p, unstuff_stuff p⟩
    · exact ⟨by simp, unstuff_snoc (unstuff_stuff p) hfull⟩

theorem encode_decode (p : Bytes) : ∃ e, Encodes p e ∧ Decodes e p ∧ 0 ∉ e ∧
    e.length ≤ maxEncodedLen p.length ∧
    (∀ f dst n out, 0 ∉ f → decode f dst = (.ok n, out) → out.take n = p →
      f = e ∨ f = e ++ [1] ∧ lastFull e) ∧
    (∀ f g, Decodes f p → Decodes g p → f = g ∨ f = g ++ [1] ∨ g = f ++ [1]) := by
  refine ⟨stuff p, encodes_stuff p, ?_, stuff_nonzero p, stuff_length p, ?_, ?_⟩
  · exact (decodes_forms _ p).mpr (.inl rfl)
  · rintro f dst n out - hd rfl
    obtain ⟨hf, hp⟩ := decode_ok hd
    exact unstuff_forms hf hp
  · intro f g hf hg
    rcases (decodes_forms f p).mp hf with rfl | ⟨rfl, -⟩ <;>
      rcases (decodes_forms g p).mp hg with rfl | ⟨rfl, -⟩ <;> simp

end Km43.Framing
