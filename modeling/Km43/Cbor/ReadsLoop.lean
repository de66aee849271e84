import Km43.Cbor.Reads

namespace Km43.Cbor

open Library Library.StepParser

theorem Key.i64?_some {k : Key} {z : ℤ} (h : k.i64? = some z) : z = k.value := by
  unfold Key.i64? at h
  split_ifs at h
  exact (Option.some.inj h).symm

theorem Key.value_inj {k j : Key} (h : k.value = j.value) : k.rank = j.rank := by
  obtain ⟨kn, kw, ka⟩ := k
  obtain ⟨jn, jw, ja⟩ := j
  cases kn <;> cases jn <;> simp only [Key.value, Key.rank, if_true, if_false, Bool.false_eq_true] at h ⊢
  · rw [Int.ofNat_inj.mp h]
  · omega
  · omega
  · rw [show ka = ja by omega]

namespace CborReader

variable {ε α β γ σ : Type} {Bad : ε → Prop} {d : ℕ}

/-- Each key a map is read for fills its own slot once, and any other is passed over. -/
structure Fills (f : ℤ → σ → Item → Option σ) (known : ℤ → Prop) (filled : σ → ℤ → Prop)
    (pass : ℤ → σ → σ) : Prop where
  fills : ∀ k s i s', known k → f k s i = some s' →
    ¬filled s k ∧ ∀ j, known j → (filled s' j ↔ filled s j ∨ j = k)
  passes : ∀ k s i, ¬known k → f k s i = some (pass k s)
  passed : ∀ k s, ¬known k → ∀ j, known j → (filled (pass k s) j ↔ filled s j)

/-- A decoder of one map: it reads the keys it knows and skips the rest. -/
structure Steps [FromCbor ε] (Bad : ε → Prop) (d : ℕ) (step : ℤ → σ → Read ε σ) (f : ℤ → σ → Item → Option σ)
    (known : ℤ → Prop) (pass : ℤ → σ → σ) : Prop where
  typed : ∀ k s, known k → Reads Bad d (step k s) (f k s)
  skips : ∀ k s, ¬known k → step k s = (do ask skip; pure (pass k s))

def passing [FromCbor ε] (after : Bytes → σ) : Read ε σ := fun r =>
  match CborReader.skip r with
  | .error why => .error (FromCbor.cbor why)
  | .ok ((), r') => .ok (after (r.rest.take (r'.next - r.next)), r')

theorem Ready.raw_passing [FromCbor ε] {r : CborReader} (hr : r.Ready d) :
    (ask CborReader.raw : Read ε Bytes) r = passing id r := by
  have hskip := hr.skip
  unfold passing ask CborReader.raw
  cases hstep : itemStep d r.rest with
  | none =>
    rw [hstep] at hskip
    obtain ⟨why, hskip⟩ := hskip
    simp only [hskip, bind, Except.bind]
  | some p =>
    obtain ⟨i, tail⟩ := p
    rw [hstep] at hskip
    obtain ⟨r', hok, hb, hn, -⟩ := hskip
    obtain ⟨-, hrest⟩ := (itemStep_exact d _ _ _).mp hstep
    have hlen := congrArg List.length hrest
    have hwithin : r.next ≤ r.bytes.length := hr.live.within
    rw [hr.live.within.rest_length, List.length_append] at hlen
    have hslice : slice r'.bytes r.next r'.next = some (r.rest.take (r'.next - r.next)) := by
      rw [hb, slice, if_pos (by omega)]
      rfl
    simp only [hok, bind, Except.bind, hslice]
    rfl

structure Watched [FromCbor ε] (Bad : ε → Prop) (d : ℕ) (step : Read ε σ) (f : Item → Option σ) (met : Prop)
    (after : Bytes → σ) : Prop where
  twice : met → ∀ r, ∃ why, step r = .error why ∧ Bad why
  passes : ¬met → ∀ r, r.Ready d → step r = passing after r
  takes : ¬met → ∀ i, f i = some (after i.spelling)

structure Watches [FromCbor ε] (Bad : ε → Prop) (d : ℕ) (step : ℤ → σ → Read ε σ) (f : ℤ → σ → Item → Option σ)
    (known : ℤ → Prop) (filled : σ → ℤ → Prop) (pass : ℤ → σ → σ) : Prop where
  reads : ∀ k s, known k →
    Reads Bad d (step k s) (f k s) ∨ ∃ after, Watched Bad d (step k s) (f k s) (filled s k) after
  skips : ∀ k s, ¬known k → step k s = (do ask skip; pure (pass k s))

theorem Steps.watches [FromCbor ε] {step : ℤ → σ → Read ε σ} {f : ℤ → σ → Item → Option σ} {known : ℤ → Prop}
    {pass : ℤ → σ → σ} (h : Steps Bad d step f known pass) (filled : σ → ℤ → Prop) :
    Watches Bad d step f known filled pass :=
  ⟨fun k s hk => .inl (h.typed k s hk), h.skips⟩

structure AtPairs (d n : ℕ) (r : CborReader) (level : Open) (base : List Open)
    (done : List (Key × Item)) : Prop where
  live : r.Live
  unsettled : r.unsettled = none
  stack : r.stack = (level :: base).dropWhile (·.remaining == 0)
  kind : level.kind = .map
  remaining : level.remaining = n * 2
  levels : base.length + 1 + d = maxDepth
  keys : KeysAt r.bytes r.next level done

def LoopReads (Bad : ε → Prop) (read : Option (α × Bytes)) (f : α → Option σ) (spell : α → Bytes)
    (base : List Open) (r : CborReader) (x : Except ε (σ × CborReader)) : Prop :=
  (∃ a tail s r', read = some (a, tail) ∧ f a = some s ∧ x = .ok (s, r') ∧ r'.bytes = r.bytes ∧
    r'.next = r.next + (spell a).length ∧ r'.Live ∧ r'.unsettled = none ∧
    r'.stack = base.dropWhile (·.remaining == 0)) ∨
  ((∀ a tail, read = some (a, tail) → f a = none) ∧ Fails Bad x)

theorem pairsStep_succ {inner : Step UInt8 Item} {seen : List KeyRank} {n : ℕ} {bs tail tail' : Bytes}
    {k : Key} {pairs : List (Key × Item)} (hk : keyStep bs = some (k, tail)) :
    pairsStep inner seen (n + 1) bs = some (pairs, tail') ↔ k.rank ∉ seen ∧ ∃ v mid rest,
      inner tail = some (v, mid) ∧ pairsStep inner (k.rank :: seen) n mid = some (rest, tail') ∧
        pairs = (k, v) :: rest := by
  simp only [pairsStep, manyFresh, pair, hk]
  cases hv : inner tail with
  | none => simp
  | some p =>
    obtain ⟨v, mid⟩ := p
    by_cases hs : k.rank ∈ seen
    · simp [hs]
    · simp only [hs, if_false, not_false_eq_true, true_and, Option.some.injEq, Prod.mk.injEq]
      constructor
      · intro h
        split at h
        · cases h
        · rename_i rest tail'' hrest
          obtain ⟨rfl, rfl⟩ := Prod.mk.inj (Option.some.inj h)
          exact ⟨v, mid, rest, ⟨rfl, rfl⟩, hrest, rfl⟩
      · rintro ⟨v', mid', rest, ⟨rfl, rfl⟩, hrest, rfl⟩
        rw [hrest]

theorem Key.i64?_rank {k k' : Key} (h : k.rank = k'.rank) : k.i64? = k'.i64? := by
  obtain ⟨hn, ha⟩ := KeyRank.mk.inj h
  simp only [Key.i64?, Key.value, hn, ha]

def atValue (r : CborReader) (level : Open) (base : List Open) (n : ℕ) (k : Key)
    (last : Option KeyRank) (u : Option Unsettled) : CborReader :=
  { r with
    next := r.next + k.spelling.length
    nest := ⟨{ level with remaining := n * 2 + 1, lastKey := last } :: base, r.nest.deepest⟩
    unsettled := u, skipped := none }

section

variable {n : ℕ} {r : CborReader} {level : Open} {base : List Open} {done : List (Key × Item)}
  {k : Key} {tail : Bytes}

theorem AtPairs.owing (h : AtPairs d (n + 1) r level base done) : r.stack = level :: base := by
  rw [h.stack, List.dropWhile_cons_of_neg (by simp [h.remaining])]

theorem Live.ready_value (hlive : r.Live) (hstack : r.stack = level :: base) (hlevels : base.length + 1 + d = maxDepth)
    (hlength : k.spelling.length ≤ r.rest.length) (last : Option KeyRank) (u : Option Unsettled) :
    Ready d (r.atValue level base n k last u) := by
  have hdepth : r.nest.settle.opened.length = base.length + 1 := congrArg List.length hstack
  have hle := (settle_depth_le r.nest).trans hlive.deep
  refine ⟨⟨hlive.within.advance hlength, hlive.checks, hlive.walking, ?_, rfl⟩, ?_, ?_⟩
  · simp only [atValue, Nest.depth, List.length_cons]
    omega
  · simp only [atValue, Nest.atKey, Nest.settle]
    rw [List.dropWhile_cons_of_neg (by simp)]
    simp
  · simp only [atValue, CborReader.stack, Nest.settle]
    rw [List.dropWhile_cons_of_neg (by simp)]
    exact hlevels

theorem AtPairs.ready (h : AtPairs d (n + 1) r level base done)
    (hk : keyStep r.rest = some (k, tail)) (last : Option KeyRank) (u : Option Unsettled) :
    Ready d (r.atValue level base n k last u) := by
  obtain ⟨-, hb⟩ := (keyStep_exact _ _ _).mp hk
  exact h.live.ready_value h.owing h.levels (by simp [hb]) last u

theorem Past.value_stack {last : Option KeyRank} {u : Option Unsettled} {r' : CborReader} {length : ℕ}
    (h : Past (r.atValue level base n k last u) r' length) :
    r'.stack = ({ level with remaining := n * 2, lastKey := last } :: base).dropWhile (·.remaining == 0) := by
  rw [h.stack]
  simp only [atValue, Nest.settle]
  rw [List.dropWhile_cons_of_neg (by simp)]
  rfl

theorem atValue_rest (hk : keyStep r.rest = some (k, tail)) (last : Option KeyRank)
    (u : Option Unsettled) : (r.atValue level base n k last u).rest = tail := by
  obtain ⟨-, hb⟩ := (keyStep_exact _ _ _).mp hk
  have hdrop : (r.atValue level base n k last u).rest = r.rest.drop k.spelling.length :=
    advance_rest r _
  rw [hdrop, hb, List.drop_left]

theorem AtPairs.next (h : AtPairs d (n + 1) r level base done)
    (hk : keyStep r.rest = some (k, tail)) {last : Option KeyRank} {u : Option Unsettled}
    (hlast : Greatest last (ranks done ++ [k.rank])) {v : Item} {tail' : Bytes}
    (hv : itemStep d tail = some (v, tail')) {r' : CborReader}
    (hpast : Past (r.atValue level base n k last u) r' v.spelling.length) :
    AtPairs d n r' { level with remaining := n * 2, lastKey := last } base (done ++ [(k, v)]) ∧
      r'.rest = tail' := by
  obtain ⟨hkl, hkb⟩ := (keyStep_exact _ _ _).mp hk
  obtain ⟨hvl, hvb⟩ := (itemStep_exact d _ _ _).mp hv
  have hbytes : r'.bytes = r.bytes := hpast.bytes
  have hnext : r'.next = r.next + k.spelling.length + v.spelling.length := hpast.next
  refine ⟨⟨hpast.live, hpast.unsettled, hpast.value_stack, h.kind, rfl, h.levels, ?_⟩, ?_⟩
  · rw [hbytes, hnext]
    refine h.keys.snoc hkl (hvl.mono ?_) hlast ⟨tail', ?_⟩
    · have := h.levels
      omega
    · rw [show r.bytes.drop r.next = r.rest from rfl, hkb, hvb, List.append_assoc]
  · have hdrop : r'.rest = r.rest.drop (k.spelling.length + v.spelling.length) := by
      rw [rest, rest, hbytes, hnext, List.drop_drop, Nat.add_assoc]
    rw [hdrop, hkb, hvb, ← List.drop_drop, List.drop_left, List.drop_left]

theorem settleSkipped_none (h : r.skipped = none) :
    r.settleSkipped = .ok { r with skipped := none } := by
  obtain ⟨bytes, next, nest, checks, walking, unsettled, skipped⟩ := r
  simp only at h
  subst h
  rfl

theorem settleSkipped_some {u : Unsettled} (h : r.skipped = some u) :
    r.settleSkipped = (do let _ ← search r.bytes u; .ok { r with skipped := none }) := by
  simp only [settleSkipped, settleSkippedBy, h]
  cases search r.bytes u <;> rfl

theorem AtPairs.skip (h : AtPairs d (n + 1) r level base done) (hk : keyStep r.rest = some (k, tail))
    (last : Option KeyRank) {u : Option Unsettled}
    (hu : (u = none ∧ k.rank ∉ ranks done) ∨ u = some ⟨k.rank, level.start, r.next⟩) :
    match itemStep d tail with
    | none => Refuses (CborReader.skip (r.atValue level base n k last u))
    | some (v, _) => ∃ r', CborReader.skip (r.atValue level base n k last u) = .ok ((), r') ∧
        if k.rank ∈ ranks done then r'.Doomed
        else Past (r.atValue level base n k last u) r' v.spelling.length := by
  have hskip := (h.ready hk last u).skip
  rw [atValue_rest hk] at hskip
  cases hv : itemStep d tail with
  | none =>
    rw [hv] at hskip
    exact hskip
  | some p =>
    obtain ⟨v, tail'⟩ := p
    simp only [hv] at hskip ⊢
    obtain ⟨r', hok, hb, hn, hw, hc, hwalk, hdeep, hu', hsk, hst⟩ := hskip
    have hbytes : r'.bytes = r.bytes := hb
    have hskipped : r'.skipped = u := hsk
    have hsearch := search_finds r.bytes k.rank level.start r.next done h.keys.read h.keys.legal
    refine ⟨r', hok, ?_⟩
    split_ifs at hsearch ⊢ with hm
    · obtain ⟨-, hnot⟩ | rfl := hu
      · exact absurd hm hnot
      · exact ⟨hwalk, .repeatedKey, by rw [settleSkipped_some hskipped, hbytes, hsearch]; rfl⟩
    · refine ⟨hb, hn, ⟨hw, hc, hwalk, hdeep, ?_⟩, hu', hst⟩
      obtain ⟨rfl, -⟩ | rfl := hu
      · exact settleSkipped_none hskipped
      · rw [settleSkipped_some hskipped, hbytes, hsearch]
        rfl

theorem LoopReads.cons {inner : Step UInt8 Item} {seen : List KeyRank} {v : Item} {tail' : Bytes}
    {f : ℤ → σ → Item → Option σ} {z : ℤ} {s s' : σ} {r' : CborReader}
    {x : Except ε (σ × CborReader)} (hk : keyStep r.rest = some (k, tail))
    (hz : k.i64? = some z) (hfresh : k.rank ∉ seen) (hv : inner tail = some (v, tail'))
    (hf : f z s v = some s') (hbytes : r'.bytes = r.bytes)
    (hnext : r'.next = r.next + k.spelling.length + v.spelling.length) (hrest : r'.rest = tail')
    (h : LoopReads Bad (pairsStep inner (k.rank :: seen) n r'.rest) (foldPairs f · s')
      Item.spellPairs base r' x) :
    LoopReads Bad (pairsStep inner seen (n + 1) r.rest) (foldPairs f · s) Item.spellPairs base r x := by
  rw [hrest] at h
  rcases h with ⟨pairs, tail'', s'', r'', hp, hfold, hok, hb, hn, hlast⟩ | ⟨hnone, hfails⟩
  · refine .inl ⟨(k, v) :: pairs, tail'', s'', r'',
      (pairsStep_succ hk).mpr ⟨hfresh, v, tail', pairs, hv, hp, rfl⟩,
      by simp [foldPairs, hz, hf, hfold], hok, hb.trans hbytes, ?_, hlast⟩
    rw [hn, hnext]
    simp [Item.spellPairs, Nat.add_assoc]
  · refine .inr ⟨fun pairs tail'' hp => ?_, hfails⟩
    obtain ⟨-, v', mid, rest, hv', hp, rfl⟩ := (pairsStep_succ hk).mp hp
    obtain ⟨rfl, rfl⟩ := Prod.mk.inj (Option.some.inj (hv.symm.trans hv'))
    simp only [foldPairs, hz, Option.bind_some, hf]
    exact hnone rest tail'' hp

end

theorem pairLoop_reads [FromCbor ε] (hbad : ∀ why, Bad (FromCbor.cbor why)) {step : ℤ → σ → Read ε σ}
    {f : ℤ → σ → Item → Option σ} {known : ℤ → Prop} {filled : σ → ℤ → Prop} {pass : ℤ → σ → σ}
    (hsteps : Watches Bad d step f known filled pass) (hfills : Fills f known filled pass) (n : ℕ) :
    ∀ (r : CborReader) (level : Open) (base : List Open) (done : List (Key × Item))
      (seen : List KeyRank) (s : σ), AtPairs d n r level base done →
      (∀ k, k ∈ seen ↔ k ∈ ranks done) →
      (∀ j, known j → (filled s j ↔ ∃ p ∈ done, p.1.i64? = some j)) →
      LoopReads Bad (pairsStep (itemStep d) seen n r.rest) (foldPairs f · s) Item.spellPairs base r
        (pairLoop step n s r) := by
  induction n with
  | zero =>
    intro r level base done seen s h _ _
    refine .inl ⟨[], r.rest, s, r, rfl, rfl, rfl, rfl, rfl, h.live, h.unsettled, ?_⟩
    rw [h.stack, List.dropWhile_cons_of_pos (by simp [h.remaining])]
  | succ n ih =>
    intro r level base done seen s h hseen hfilled
    have hkey := h.live.key h.owing h.kind h.remaining h.keys
    rw [pairLoop, bind_apply]
    cases hks : keyStep r.rest with
    | none =>
      simp only [hks] at hkey
      refine .inr ⟨fun pairs tail hp => ?_, ?_⟩
      · simp only [pairsStep, manyFresh, pair, hks] at hp
        cases hp
      · obtain ⟨why, hkey⟩ := hkey
        simp only [ask, hkey]
        exact hbad why
    | some p =>
      obtain ⟨k, tail⟩ := p
      obtain ⟨hkl, hkb⟩ := (keyStep_exact _ _ _).mp hks
      simp only [hks] at hkey
      cases hz : k.i64? with
      | none =>
        simp only [hz] at hkey
        refine .inr ⟨fun pairs tail' hp => ?_, ?_⟩
        · obtain ⟨-, v, mid, rest, -, -, rfl⟩ := (pairsStep_succ hks).mp hp
          simp [foldPairs, hz]
        · obtain ⟨why, hkey⟩ := hkey
          simp only [ask, hkey]
          exact hbad why
      | some z =>
        simp only [hz] at hkey
        obtain ⟨last, u, hgreatest, hu, hkey⟩ := hkey
        have hready := h.ready hks last u
        have hrest : (r.atValue level base n k last u).rest = tail := atValue_rest hks last u
        have hknown : k.rank ∈ seen → known z → filled s z := by
          intro hin hz'
          obtain ⟨p, hp, hrank⟩ := List.mem_map.mp ((hseen _).mp hin)
          exact (hfilled z hz').mpr ⟨p, hp, (Key.i64?_rank hrank).trans hz⟩
        simp only [ask, hkey]
        change LoopReads Bad _ _ _ _ _
          ((step z s >>= fun s => pairLoop step n s) (r.atValue level base n k last u))
        -- a value read, what is left of the loop decides
        have hloop : ∀ v tail' s' r', itemStep d tail = some (v, tail') → f z s v = some s' →
            k.rank ∉ seen → step z s (r.atValue level base n k last u) = .ok (s', r') →
            Past (r.atValue level base n k last u) r' v.spelling.length →
            (∀ j, known j → (filled s' j ↔ filled s j ∨ j = z)) →
            LoopReads Bad (pairsStep (itemStep d) seen (n + 1) r.rest) (foldPairs f · s)
              Item.spellPairs base r
              ((step z s >>= fun s => pairLoop step n s) (r.atValue level base n k last u)) := by
          intro v tail' s' r' hv hf hfresh hok hpast hfill
          obtain ⟨hat, hrest'⟩ := h.next hks hgreatest hv hpast
          rw [bind_apply, hok]
          refine LoopReads.cons hks hz hfresh hv hf hpast.bytes hpast.next hrest'
            (ih r' _ base (done ++ [(k, v)]) (k.rank :: seen) s' hat ?_ ?_)
          · intro x
            simp [ranks, hseen x, or_comm]
          · intro j hj
            simp only [hfill j hj, hfilled j hj, List.mem_append, List.mem_singleton]
            constructor
            · rintro (⟨p, hp, hpj⟩ | rfl)
              · exact ⟨p, .inl hp, hpj⟩
              · exact ⟨_, .inr rfl, hz⟩
            · rintro ⟨p, hp | rfl, hpj⟩
              · exact .inl ⟨p, hp, hpj⟩
              · exact .inr (Option.some.inj (hpj.symm.trans hz))
        -- a value passed over, the key it repeats is met later
        have hskipped : ∀ after : Bytes → σ, (∀ r, r.Ready d → step z s r = passing after r) →
            (k.rank ∉ seen → ∀ i, f z s i = some (after i.spelling)) →
            (k.rank ∉ seen → ∀ (i : Item) j, known j → (filled (after i.spelling) j ↔ filled s j ∨ j = z)) →
            LoopReads Bad (pairsStep (itemStep d) seen (n + 1) r.rest) (foldPairs f · s)
              Item.spellPairs base r
              ((step z s >>= fun s => pairLoop step n s) (r.atValue level base n k last u)) := by
          intro after hstep hf hfill
          have hskip := h.skip hks last hu
          cases hv : itemStep d tail with
          | none =>
            rw [hv] at hskip
            obtain ⟨why, hskip⟩ := hskip
            refine .inr ⟨fun pairs tail' hp => ?_, ?_⟩
            · obtain ⟨-, v, mid, rest, hv', -⟩ := (pairsStep_succ hks).mp hp
              rw [hv] at hv'
              cases hv'
            · rw [bind_apply, hstep _ hready, passing, hskip]
              exact hbad why
          | some p =>
            obtain ⟨v, tail'⟩ := p
            simp only [hv] at hskip
            obtain ⟨r', hok, hr'⟩ := hskip
            obtain ⟨-, hvb⟩ := (itemStep_exact d _ _ _).mp hv
            have hok' := hstep _ hready
            simp only [passing, hok, hrest] at hok'
            split_ifs at hr' with hin
            · refine .inr ⟨fun pairs tail'' hp => ?_, ?_⟩
              · exact absurd ((hseen _).mpr hin) ((pairsStep_succ hks).mp hp).1
              · rw [bind_apply, hok']
                exact pairLoop_doomed hbad step n _ hr'
            · have hfresh : k.rank ∉ seen := fun hm => hin ((hseen _).mp hm)
              have hraw : tail.take (r'.next - (r.atValue level base n k last u).next) = v.spelling := by
                rw [hr'.next, Nat.add_sub_cancel_left, hvb, List.take_left]
              rw [hraw] at hok'
              exact hloop v tail' _ r' hv (hf hfresh v) hfresh hok' hr' (hfill hfresh v)
        by_cases hz' : known z
        · rcases hsteps.reads z s hz' with hreads | ⟨after, hwatched⟩
          · rcases hreads.reads _ hready with ⟨v, tail', s', r', hv, hf, hok, hpast⟩ | ⟨hnone, hfails⟩
            · rw [hrest] at hv
              obtain ⟨hempty, hfill⟩ := hfills.fills z s v s' hz' hf
              exact hloop v tail' s' r' hv hf (fun hin => hempty (hknown hin hz')) hok hpast hfill
            · rw [hrest] at hnone
              refine .inr ⟨fun pairs tail' hp => ?_, hfails.bind fun s r hr =>
                pairLoop_doomed hbad step n s hr⟩
              obtain ⟨-, v, mid, rest, hv, -, rfl⟩ := (pairsStep_succ hks).mp hp
              simp [foldPairs, hz, hnone v mid hv]
          · by_cases hmet : filled s z
            · refine .inr ⟨fun pairs tail' hp => ?_, ?_⟩
              · obtain ⟨p, hp', hpz⟩ := (hfilled z hz').mp hmet
                have hrank : p.1.rank = k.rank := by
                  apply Key.value_inj
                  rw [← Key.i64?_some hpz, ← Key.i64?_some hz]
                refine absurd ((hseen _).mpr ?_) ((pairsStep_succ hks).mp hp).1
                rw [← hrank]
                exact List.mem_map.mpr ⟨p, hp', rfl⟩
              · obtain ⟨why, htwice, hwhy⟩ := hwatched.twice hmet (r.atValue level base n k last u)
                rw [bind_apply, htwice]
                exact hwhy
            · apply hskipped after (hwatched.passes hmet)
              · intro _ i
                exact hwatched.takes hmet i
              · intro _ i j hj
                exact (hfills.fills z s i _ hz' (hwatched.takes hmet i)).2 j hj
        · apply hskipped (fun _ => pass z s)
          · intro r _
            rw [hsteps.skips z s hz', passing, bind_apply, ask]
            cases CborReader.skip r <;> rfl
          · intro _ i
            exact hfills.passes z s i hz'
          · intro _ _ j hj
            rw [hfills.passed z s hz' j hj]
            exact ⟨.inl, fun h => h.resolve_right fun hjz => hz' (hjz ▸ hj)⟩

structure AtItems (d n : ℕ) (r : CborReader) (level : Open) (base : List Open) : Prop where
  live : r.Live
  unsettled : r.unsettled = none
  stack : r.stack = (level :: base).dropWhile (·.remaining == 0)
  kind : level.kind = .array
  remaining : level.remaining = n
  levels : base.length + 1 + d = maxDepth

theorem AtItems.ready {n : ℕ} {r : CborReader} {level : Open} {base : List Open} (h : AtItems d (n + 1) r level base) :
    r.Ready d := by
  have hstack : r.stack = level :: base := by
    rw [h.stack, List.dropWhile_cons_of_neg (by simp [h.remaining])]
  have hopened : r.nest.settle.opened = level :: base := hstack
  refine ⟨h.live, ?_, ?_⟩
  · simp [Nest.atKey, hopened, h.kind]
  · rw [hstack]
    exact h.levels

theorem AtItems.past {n length : ℕ} {r r' : CborReader} {level : Open} {base : List Open}
    (h : AtItems d (n + 1) r level base) (hpast : Past r r' length) :
    AtItems d n r' { level with remaining := n } base := by
  have hopened : r.nest.settle.opened = level :: base := by
    have hstack := h.stack
    rw [List.dropWhile_cons_of_neg (by simp [h.remaining])] at hstack
    exact hstack
  have hcount : r.nest.settle.countItem.opened = { level with remaining := n } :: base := by
    simp only [Nest.countItem, hopened, h.remaining, Nat.add_sub_cancel]
  refine ⟨hpast.live, hpast.unsettled, ?_, h.kind, rfl, h.levels⟩
  rw [hpast.stack]
  show r.nest.settle.countItem.opened.dropWhile _ = _
  rw [hcount]

theorem Past.rest {r r' : CborReader} {i : Item} {tail : Bytes} (h : Past r r' i.spelling.length)
    (hr : r.rest = i.spelling ++ tail) : r'.rest = tail := by
  have hdrop : r'.rest = r.rest.drop i.spelling.length := by
    rw [CborReader.rest, CborReader.rest, h.bytes, h.next, List.drop_drop]
  rw [hdrop, hr, List.drop_left]

theorem AtItems.next {n : ℕ} {r r' : CborReader} {level : Open} {base : List Open} {v : Item} {mid : Bytes}
    (h : AtItems d (n + 1) r level base) (hv : itemStep d r.rest = some (v, mid)) (hpast : Past r r' v.spelling.length) :
    AtItems d n r' { level with remaining := n } base ∧ r'.rest = mid :=
  ⟨h.past hpast, hpast.rest ((itemStep_exact d _ _ _).mp hv).2⟩

theorem itemLoop_doomed {step : σ → Read ε σ}
    (hstep : ∀ s r, r.Doomed → Fails Bad (step s r)) (n : ℕ) (s : σ) {r : CborReader} (h : r.Doomed) :
    Fails Bad (itemLoop step n s r) := by
  induction n generalizing s r with
  | zero => exact h
  | succ n ih => exact Fails.bind (hstep s r h) fun s r hr => ih s hr

theorem many_succ {inner : Step UInt8 Item} {n : ℕ} {bs tail : Bytes} {items : List Item} :
    many inner (n + 1) bs = some (items, tail) ↔ ∃ v mid rest, inner bs = some (v, mid) ∧
      many inner n mid = some (rest, tail) ∧ items = v :: rest := by
  rw [many]
  cases hv : inner bs with
  | none => simp
  | some p =>
    obtain ⟨v, mid⟩ := p
    constructor
    · intro h
      dsimp only at h
      split at h
      · cases h
      · rename_i rest tail' hrest
        obtain ⟨rfl, rfl⟩ := Prod.mk.inj (Option.some.inj h)
        exact ⟨v, mid, rest, rfl, hrest, rfl⟩
    · rintro ⟨v', mid', rest, h, hrest, rfl⟩
      obtain ⟨rfl, rfl⟩ := Prod.mk.inj (Option.some.inj h)
      simp only [hrest]

theorem itemLoop_reads {step : σ → Read ε σ} {f : σ → Item → Option σ}
    (hstep : ∀ s, Reads Bad d (step s) (f s)) (n : ℕ) :
    ∀ (r : CborReader) (level : Open) (base : List Open) (s : σ), AtItems d n r level base →
      LoopReads Bad (many (itemStep d) n r.rest) (foldItems f · s) Item.spellAll base r
        (itemLoop step n s r) := by
  induction n with
  | zero =>
    intro r level base s h
    refine .inl ⟨[], r.rest, s, r, rfl, rfl, rfl, rfl, rfl, h.live, h.unsettled, ?_⟩
    rw [h.stack, List.dropWhile_cons_of_pos (by simp [h.remaining])]
  | succ n ih =>
    intro r level base s h
    rw [itemLoop, bind_apply]
    rcases (hstep s).reads r h.ready with ⟨v, mid, s', r', hv, hf, hok, hpast⟩ | ⟨hnone, hfails⟩
    · obtain ⟨hat, hrest⟩ := h.next hv hpast
      have hrec := ih r' _ base s' hat
      rw [hrest] at hrec
      simp only [hok]
      rcases hrec with ⟨items, tail, s'', r'', hm, hfold, hok', hb, hn, hlast⟩ | ⟨hnone, hfails⟩
      · refine .inl ⟨v :: items, tail, s'', r'', many_succ.mpr ⟨v, mid, items, hv, hm, rfl⟩,
          by simp [foldItems, hf, hfold], hok', hb.trans hpast.bytes, ?_, hlast⟩
        rw [hn, hpast.next]
        simp [Item.spellAll, Nat.add_assoc]
      · refine .inr ⟨fun items tail hm => ?_, hfails⟩
        obtain ⟨v', mid', rest, hv', hm, rfl⟩ := many_succ.mp hm
        obtain ⟨rfl, rfl⟩ := Prod.mk.inj (Option.some.inj (hv.symm.trans hv'))
        simp only [foldItems, hf, Option.bind_some]
        exact hnone rest tail hm
    · refine .inr ⟨fun items tail hm => ?_, ?_⟩
      · obtain ⟨v, mid, rest, hv, -, rfl⟩ := many_succ.mp hm
        simp [foldItems, hnone v mid hv]
      · rw [← bind_apply]
        exact hfails.bind fun s r hr => itemLoop_doomed (fun s => (hstep s).doomed) n s hr

end CborReader

end Km43.Cbor
