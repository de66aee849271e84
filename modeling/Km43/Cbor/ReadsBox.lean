import Km43.Cbor.ReadsLoop

namespace Km43.Cbor

open Library Library.StepParser

namespace CborReader

variable {ε α β γ σ : Type} {Bad : ε → Prop} {d : ℕ}

def inside (r : CborReader) (length : ℕ) (kind : Nesting) (items : ℕ) : CborReader :=
  { r.counted length with
    nest := ⟨⟨kind, items, none, r.next + length⟩ :: r.nest.settle.countItem.opened,
      max r.nest.deepest (r.nest.settle.countItem.opened.length + 1)⟩ }

theorem Ready.push {r : CborReader} (h : r.Ready (d + 1)) (length : ℕ) (kind : Nesting) (items : ℕ) :
    (r.counted length).nest.push kind items (r.next + length) =
      .ok (r.inside length kind items).nest := by
  have hlen := h.stack_length length
  have hdeep : r.nest.settle.countItem.deepest = r.nest.deepest := countItem_deepest _
  rw [Nest.push, if_pos (by rw [Nest.depth]; omega)]
  simp only [inside, counted, Nest.depth, hdeep]

theorem Ready.inside_live {r : CborReader} (h : r.Ready d) {length : ℕ} (hl : length ≤ r.rest.length)
    (kind : Nesting) (items : ℕ) : (r.inside length kind items).Live :=
  ⟨h.counted_within hl, h.live.checks, h.live.walking, by simp [inside, Nest.depth], rfl⟩

theorem inside_rest {r : CborReader} {length : ℕ} {tail : Bytes} {t : Bytes}
    (h : r.rest = t ++ tail) (hl : length = t.length) (kind : Nesting) (items : ℕ) :
    (r.inside length kind items).rest = tail := by
  have hdrop : (r.inside length kind items).rest = r.rest.drop length := advance_rest r _
  rw [hdrop, h, hl, List.drop_left]

theorem Doomed.asked [FromCbor ε] {m : Read CborError α} {k : α → Read ε β}
    (hbad : ∀ why, Bad (FromCbor.cbor why)) {r : CborReader} (h : Refuses (m r)) :
    Fails Bad ((ask m >>= k) r) := by
  obtain ⟨why, h⟩ := h
  rw [bind_apply, ask, h]
  exact hbad why

def askBox : Nesting → Read CborError ℕ
  | .array => array
  | .map => map

theorem askBox_head (kind : Nesting) (r : CborReader) : askBox kind r = match head r with
    | .ok (h, r) => match kind.counts h with
      | some n => .ok (n, r)
      | none => .error .wrongType
    | .error why => .error why := by
  cases kind <;>
  · simp only [askBox, array, map, bind_apply]
    cases head r with
    | error why => rfl
    | ok p =>
      obtain ⟨h, r⟩ := p
      cases h <;> rfl

theorem Ready.box_ok {r : CborReader} (h : r.Ready (d + 1)) {kind : Nesting} {w : Width} {n : ℕ}
    {tail : Bytes} (ht : tokenStep r.rest = some (kind.token w n, tail)) (hroom : n * kind.per ≤ tail.length) :
    askBox kind r = .ok (n, r.inside (kind.token w n).spelling.length kind (n * kind.per)) := by
  have hhead := h.head
  have hr : (kind.token w n).room = n * kind.per := by
    cases kind
    · exact (Nat.mul_one n).symm
    · rfl
  rw [ht] at hhead
  simp only [hr, if_neg (Nat.not_lt.mpr hroom)] at hhead
  have henter := h.push (kind.token w n).spelling.length kind (n * kind.per)
  rw [askBox_head, hhead]
  cases kind <;>
  · simp only [Nesting.token, Token.head, enter, Nesting.per, Nat.mul_one] at henter ⊢
    rw [show ∀ l, (r.counted l).next = r.next + l from fun _ => rfl, henter]
    rfl

theorem Ready.box {r : CborReader} (h : r.Ready (d + 1)) (kind : Nesting) :
    (∃ w n tail, tokenStep r.rest = some (kind.token w n, tail) ∧
      (kind.token w n).spelling.length ≤ r.rest.length ∧
      (r.inside (kind.token w n).spelling.length kind (n * kind.per)).rest = tail ∧
      askBox kind r = .ok (n, r.inside (kind.token w n).spelling.length kind (n * kind.per))) ∨
    ((∀ i tail, itemStep (d + 1) r.rest = some (i, tail) → ∀ w n, i.token ≠ kind.token w n) ∧
      Refuses (askBox kind r)) := by
  have hhead := h.head
  have hrefused : Refuses (CborReader.head r) → Refuses (askBox kind r) := by
    rintro ⟨why, hr⟩
    exact ⟨why, by rw [askBox_head, hr]⟩
  cases ht : tokenStep r.rest with
  | none =>
    rw [ht] at hhead
    refine .inr ⟨fun i tail hi => ?_, hrefused hhead⟩
    rw [itemStep_token ht] at hi
    cases hi
  | some p =>
    obtain ⟨t, tail⟩ := p
    obtain ⟨-, hb⟩ := (tokenStep_exact _ _ _).mp ht
    rw [ht] at hhead
    simp only at hhead
    split_ifs at hhead with hroom
    · refine .inr ⟨fun i tail hi => ?_, hrefused hhead⟩
      rw [itemStep_room ht hroom] at hi
      cases hi
    · by_cases hkind : ∃ w n, t = kind.token w n
      · obtain ⟨w, n, rfl⟩ := hkind
        have hroom' : n * kind.per ≤ tail.length := by
          have hr : (kind.token w n).room = n * kind.per := by
            cases kind
            · exact (Nat.mul_one n).symm
            · rfl
          omega
        exact .inl ⟨w, n, tail, rfl, by simp [hb], inside_rest hb rfl _ _, h.box_ok ht hroom'⟩
      · refine .inr ⟨fun i tail' hi w n hw => hkind ⟨w, n, ?_⟩, ?_⟩
        · exact (itemStep_first ht hi).symm.trans hw
        · cases he : (r.counted t.spelling.length).enter t.head with
          | error why => exact hrefused ⟨why, by rw [hhead, he]; rfl⟩
          | ok moved =>
            have hcounts : kind.counts t.head = none := by
              cases hc : kind.counts t.head with
              | none => rfl
              | some n =>
                obtain ⟨w, hw⟩ := Nesting.counts_head hc
                exact absurd ⟨w, n, hw⟩ hkind
            refine ⟨.wrongType, ?_⟩
            rw [askBox_head, hhead, he]
            simp only [bind, Except.bind, hcounts]

theorem Ready.at_pairs {r : CborReader} (hr : r.Ready (d + 1)) {length : ℕ} (hl : length ≤ r.rest.length) (n : ℕ) :
    AtPairs d n (r.inside length .map (n * 2)) ⟨.map, n * 2, none, r.next + length⟩
      r.nest.settle.countItem.opened [] := by
  refine ⟨hr.inside_live hl _ _, rfl, rfl, rfl, rfl, ?_, .empty (hr.counted_within hl)⟩
  have := hr.stack_length 0
  simp only [counted] at this
  omega

theorem Ready.at_items {r : CborReader} (hr : r.Ready (d + 1)) {length : ℕ} (hl : length ≤ r.rest.length) (n : ℕ) :
    AtItems d n (r.inside length .array (n * 1)) ⟨.array, n * 1, none, r.next + length⟩
      r.nest.settle.countItem.opened := by
  refine ⟨hr.inside_live hl _ _, rfl, rfl, rfl, Nat.mul_one n, ?_⟩
  have := hr.stack_length 0
  simp only [counted] at this
  omega

theorem Reads.watchedMap [FromCbor ε] (hbad : ∀ why, Bad (FromCbor.cbor why)) {step : ℤ → σ → Read ε σ}
    {f : ℤ → σ → Item → Option σ} {known : ℤ → Prop} {filled : σ → ℤ → Prop} {pass : ℤ → σ → σ}
    (hsteps : Watches Bad d step f known filled pass) (hfills : Fills f known filled pass) (start : ℕ → Except ε σ)
    (hstart : ∀ n why, start n = .error why → Bad why)
    (hempty : ∀ n s, start n = .ok s → ∀ j, known j → ¬filled s j) :
    Reads Bad (d + 1) (do let n ← ask CborReader.map; let s ← start n; pairLoop step n s)
      (fun i => i.pairs?.bind fun pairs => (start pairs.length).toOption.bind (foldPairs f pairs)) := by
  refine ⟨fun r hr => Doomed.asked hbad hr.map, fun r hr => ?_⟩
  rcases hr.box .map with ⟨w, n, tail, ht, hlen, hrest, hok⟩ | ⟨hother, hrefuses⟩
  · simp only [Nesting.per] at hrest hok
    have hrun : (do let n ← ask CborReader.map; let s ← start n; pairLoop step n s : Read ε σ) r =
        match start n with
        | .ok s => pairLoop step n s (r.inside (Nesting.map.token w n).spelling.length .map (n * 2))
        | .error why => .error why := by
      rw [bind_apply]
      simp only [ask, show CborReader.map r = _ from hok, bind_apply, liftExcept_apply]
      cases start n <;> rfl
    rw [hrun]
    have hitem : ∀ i tail', itemStep (d + 1) r.rest = some (i, tail') →
        ∃ pairs, pairsStep (itemStep d) [] n tail = some (pairs, tail') ∧ i = .map w pairs ∧
          pairs.length = n := by
      intro i tail' hi
      simp only [itemStep, itemWith, ht, Nesting.token, Option.bind_some, Option.map_eq_some_iff,
        Prod.mk.injEq] at hi
      obtain ⟨⟨pairs, _⟩, hp, rfl, rfl⟩ := hi
      exact ⟨pairs, hp, rfl,
        ((manyFresh_exact _ (pair_exact keyStep_exact (itemStep_exact d)) [] n _ _ _).mp hp).1.1⟩
    cases hs : start n with
    | error why =>
      refine .inr ⟨fun i tail' hi => ?_, hstart n why hs⟩
      obtain ⟨pairs, -, rfl, hl⟩ := hitem i tail' hi
      simp [Item.pairs?, hl, hs, Except.toOption]
    | ok s =>
      have hat := hr.at_pairs hlen n
      have hloop := pairLoop_reads hbad hsteps hfills n _ _ _ [] [] s hat (by simp [ranks])
        (fun j hj => by simp [hempty n s hs j hj])
      rw [hrest] at hloop
      rcases hloop with ⟨pairs, tail', s', r', hp, hf, hok', hb, hn, hlive, hu, hst⟩ | ⟨hnone, hfails⟩
      · have hl : pairs.length = n :=
          ((manyFresh_exact _ (pair_exact keyStep_exact (itemStep_exact d)) [] n _ _ _).mp hp).1.1
        refine .inl ⟨.map w pairs, tail', s', r', ?_, by simp [Item.pairs?, hl, hs, Except.toOption, hf], hok', hb,
          ?_, hlive, hu, hst⟩
        · simp only [itemStep, itemWith, ht, Nesting.token, Option.bind_some, hp, Option.map_some]
        · rw [hn]
          simp [inside, counted, Item.spelling, hl, Nesting.token, Nat.add_assoc]
      · refine .inr ⟨fun i tail' hi => ?_, hfails⟩
        obtain ⟨pairs, hp, rfl, hl⟩ := hitem i tail' hi
        simp [Item.pairs?, hl, hs, Except.toOption, hnone pairs tail' hp]
  · refine .inr ⟨fun i tail hi => ?_, Doomed.asked hbad hrefuses⟩
    cases i with
    | map w pairs => exact absurd rfl (hother _ tail hi w pairs.length)
    | unsigned | negative | bytes | text | array | bool => rfl

theorem Reads.map [FromCbor ε] (hbad : ∀ why, Bad (FromCbor.cbor why)) {step : ℤ → σ → Read ε σ}
    {f : ℤ → σ → Item → Option σ} {known : ℤ → Prop} {filled : σ → ℤ → Prop} {pass : ℤ → σ → σ}
    (hsteps : Steps Bad d step f known pass) (hfills : Fills f known filled pass) (start : ℕ → Except ε σ)
    (hstart : ∀ n why, start n = .error why → Bad why)
    (hempty : ∀ n s, start n = .ok s → ∀ j, known j → ¬filled s j) :
    Reads Bad (d + 1) (do let n ← ask CborReader.map; let s ← start n; pairLoop step n s)
      (fun i => i.pairs?.bind fun pairs => (start pairs.length).toOption.bind (foldPairs f pairs)) :=
  Reads.watchedMap hbad (hsteps.watches filled) hfills start hstart hempty

theorem Reads.watchedMapFrom [FromCbor ε] (hbad : ∀ why, Bad (FromCbor.cbor why)) {step : ℤ → σ → Read ε σ}
    {f : ℤ → σ → Item → Option σ} {known : ℤ → Prop} {filled : σ → ℤ → Prop} {pass : ℤ → σ → σ}
    (hsteps : Watches Bad d step f known filled pass) (hfills : Fills f known filled pass) {s : σ}
    (hempty : ∀ j, known j → ¬filled s j) :
    Reads Bad (d + 1) (do let n ← ask CborReader.map; pairLoop step n s)
      (fun i => i.pairs?.bind fun pairs => foldPairs f pairs s) := by
  refine Reads.watchedMap hbad hsteps hfills (fun _ => .ok s) (by simp) ?_
  rintro n _ ⟨⟩
  exact hempty

theorem Reads.mapFrom [FromCbor ε] (hbad : ∀ why, Bad (FromCbor.cbor why)) {step : ℤ → σ → Read ε σ}
    {f : ℤ → σ → Item → Option σ} {known : ℤ → Prop} {filled : σ → ℤ → Prop} {pass : ℤ → σ → σ}
    (hsteps : Steps Bad d step f known pass) (hfills : Fills f known filled pass) {s : σ}
    (hempty : ∀ j, known j → ¬filled s j) :
    Reads Bad (d + 1) (do let n ← ask CborReader.map; pairLoop step n s)
      (fun i => i.pairs?.bind fun pairs => foldPairs f pairs s) :=
  Reads.watchedMapFrom hbad (hsteps.watches filled) hfills hempty

theorem Reads.array [FromCbor ε] (hbad : ∀ why, Bad (FromCbor.cbor why)) {step : σ → Read ε σ}
    {f : σ → Item → Option σ} (hstep : ∀ s, Reads Bad d (step s) (f s)) (s : σ) :
    Reads Bad (d + 1) (do let n ← ask CborReader.array; itemLoop step n s)
      (fun i => i.items?.bind fun items => foldItems f items s) := by
  refine ⟨fun r hr => Doomed.asked hbad hr.array, fun r hr => ?_⟩
  rcases hr.box .array with ⟨w, n, tail, ht, hlen, hrest, hok⟩ | ⟨hother, hrefuses⟩
  · simp only [Nesting.per] at hrest hok
    have hrun : (do let n ← ask CborReader.array; itemLoop step n s : Read ε σ) r =
        itemLoop step n s (r.inside (Nesting.array.token w n).spelling.length .array (n * 1)) := by
      rw [bind_apply]
      simp only [ask, show CborReader.array r = _ from hok]
    rw [hrun]
    have hat := hr.at_items hlen n
    have hloop := itemLoop_reads hstep n _ _ _ s hat
    rw [hrest] at hloop
    rcases hloop with ⟨items, tail', s', r', hm, hf, hok', hb, hn, hlive, hu, hst⟩ | ⟨hnone, hfails⟩
    · have hl : items.length = n := ((many_exact (itemStep_exact d) n _ _ _).mp hm).1.1
      refine .inl ⟨.array w items, tail', s', r', ?_, hf, hok', hb, ?_, hlive, hu, hst⟩
      · simp only [itemStep, itemWith, ht, Nesting.token, Option.bind_some, hm, Option.map_some]
      · rw [hn]
        simp [inside, counted, Item.spelling, hl, Nesting.token, Nat.add_assoc]
    · refine .inr ⟨fun i tail' hi => ?_, hfails⟩
      simp only [itemStep, itemWith, ht, Nesting.token, Option.bind_some, Option.map_eq_some_iff,
        Prod.mk.injEq] at hi
      obtain ⟨⟨items, _⟩, hm, rfl, rfl⟩ := hi
      exact hnone items _ hm
  · refine .inr ⟨fun i tail hi => ?_, Doomed.asked hbad hrefuses⟩
    cases i with
    | array w items => exact absurd rfl (hother _ tail hi w items.length)
    | unsigned | negative | bytes | text | map | bool => rfl

theorem Reads.boundedArray [FromCbor ε] (hbad : ∀ why, Bad (FromCbor.cbor why)) {step : σ → Read ε σ}
    {f : σ → Item → Option σ} (hstep : ∀ s, Reads Bad d (step s) (f s)) (s : σ) (cap : ℕ) (tooMany : ℕ → ε)
    (htoo : ∀ n, Bad (tooMany n)) :
    Reads Bad (d + 1)
      (do
        let n ← ask CborReader.array
        if n > cap then throw (tooMany n) else itemLoop step n s)
      (fun i => i.items?.bind fun items => if items.length > cap then none else foldItems f items s) := by
  have hwhole := Reads.array hbad hstep s
  refine ⟨fun r hr => Doomed.asked hbad hr.array, fun r hr => ?_⟩
  have hrun : ∀ n r', CborReader.array r = .ok (n, r') → ∀ k : ℕ → Read ε σ,
      (do let n ← ask CborReader.array; k n : Read ε σ) r = k n r' := by
    intro n r' hok k
    rw [bind_apply]
    simp only [ask, hok]
  rcases hr.box .array with ⟨w, n, tail, ht, hlen, hrest, hok⟩ | ⟨hother, hrefuses⟩
  · have hlength : ∀ i tail', itemStep (d + 1) r.rest = some (i, tail') → ∃ items, i = .array w items ∧ items.length = n := by
      intro i tail' hi
      have htoken : i.token = .array w n := itemStep_first ht hi
      cases i with
      | array w' items =>
        cases htoken
        exact ⟨items, rfl, rfl⟩
      | unsigned | negative | bytes | text | map | bool => cases htoken
    have hwide := hwhole.reads r hr
    rw [hrun _ _ hok] at hwide ⊢
    by_cases hcap : n > cap
    · refine .inr ⟨fun i tail' hi => ?_, ?_⟩
      · obtain ⟨items, rfl, hitems⟩ := hlength i tail' hi
        simp only [Item.items?, Option.bind_some, hitems, if_pos hcap]
      · rw [if_pos hcap]
        exact htoo n
    · rw [if_neg hcap]
      have hsame : ∀ i tail', itemStep (d + 1) r.rest = some (i, tail') →
          (i.items?.bind fun items => if items.length > cap then none else foldItems f items s) =
            i.items?.bind fun items => foldItems f items s := by
        intro i tail' hi
        obtain ⟨items, rfl, hitems⟩ := hlength i tail' hi
        simp only [Item.items?, Option.bind_some, hitems, if_neg hcap]
      rcases hwide with ⟨i, tail', s', r', hi, hf, hread⟩ | ⟨hnone, hfails⟩
      · exact .inl ⟨i, tail', s', r', hi, by rw [hsame i tail' hi, hf], hread⟩
      · exact .inr ⟨fun i tail' hi => by rw [hsame i tail' hi]; exact hnone i tail' hi, hfails⟩
  · refine .inr ⟨fun i tail hi => ?_, Doomed.asked hbad hrefuses⟩
    cases i with
    | array w items => exact absurd rfl (hother _ tail hi w items.length)
    | unsigned | negative | bytes | text | map | bool => rfl

end CborReader

end Km43.Cbor
