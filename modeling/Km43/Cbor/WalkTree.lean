import Km43.Cbor.WalkItem

namespace Km43.Cbor

open Library.StepParser

namespace CborReader

variable {search : Search} {floor d : ℕ}

/-- The walk takes an item off its input as `itemStep` does, or refuses where there is none. -/
def WalksItem (search : Search) (floor d : ℕ) : Prop :=
  ∀ (r : CborReader) (top : Open) (base : List Open), r.Walks search → r.nest.opened = top :: base →
    0 < top.remaining → r.nest.atKey = false → floor ≤ base.length → base.length + 1 + d = maxDepth →
    match itemStep d r.rest with
    | some (i, _) => r.walkLoop search floor = (r.past i).walkLoop search floor
    | none => r.checks = true → Refuses (r.walkLoop search floor)

theorem past_rest {r : CborReader} {i : Item} {tail : Bytes} (h : itemStep d r.rest = some (i, tail)) :
    (r.past i).rest = tail := by
  obtain ⟨-, hb⟩ := (itemStep_exact d _ _ _).mp h
  rw [past, leave_rest, hb, List.drop_left]

theorem Walks.past {r : CborReader} (hw : r.Walks search) {i : Item} {tail : Bytes}
    (h : itemStep d r.rest = some (i, tail)) : (r.past i).Walks search := by
  obtain ⟨-, hb⟩ := (itemStep_exact d _ _ _).mp h
  exact hw.leave (by simp [hb])

theorem walkLoop_many (hi : WalksItem search floor d) (n : ℕ) :
    ∀ (r : CborReader) (level : Open) (base : List Open), r.Walks search →
      r.nest.opened = level :: base → level.kind = .array → level.remaining = n →
      floor ≤ base.length → base.length + 1 + d = maxDepth →
      match many (itemStep d) n r.rest with
      | some (items, _) => r.walkLoop search floor =
          (r.leave base (Item.spellAll items).length (Item.depthAll items + 1)).walkLoop search floor
      | none => r.checks = true → Refuses (r.walkLoop search floor) := by
  induction n with
  | zero =>
    intro r level base hw ho _ hrem _ _
    exact walkLoop_close hw ho hrem
  | succ n ih =>
    intro r level base hw ho hkind hrem hf hdepth
    have hat : r.nest.atKey = false := by simp [Nest.atKey, ho, hkind]
    have hv := hi r level base hw ho (by omega) hat hf hdepth
    cases hp : itemStep d r.rest with
    | none =>
      simp only [many, hp] at hv ⊢
      exact hv
    | some p =>
      obtain ⟨i, tail⟩ := p
      simp only [hp] at hv
      have hcount : r.nest.countItem.opened = { level with remaining := n } :: base := by
        simp [Nest.countItem, ho, hrem]
      have hrec := ih (r.past i) { level with remaining := n } base (hw.past hp) hcount hkind rfl
        hf hdepth
      rw [past_rest hp] at hrec
      simp only [many, hp]
      cases hm : many (itemStep d) n tail with
      | none =>
        rw [hm] at hrec
        rw [hv]
        exact hrec
      | some q =>
        obtain ⟨items, tail'⟩ := q
        rw [hm] at hrec
        simp only
        rw [hv, hrec, past, leave_leave (d := max i.depth (Item.depthAll items) + 1)]
        · simp [Item.spellAll, Item.depthAll]
        · simp only [hcount, List.length_cons]
          omega

theorem walkLoop_pairs (hi : WalksItem search floor d) (n : ℕ) :
    ∀ (r : CborReader) (level : Open) (base : List Open) (done : List (Key × Item))
      (seen : List KeyRank), r.Walks search →
      r.nest.opened = level :: base → level.kind = .map → level.remaining = n * 2 →
      floor ≤ base.length → base.length + 1 + d = maxDepth →
      (r.checks = true → KeysAt r.bytes r.next level done ∧ ∀ k, k ∈ seen ↔ k ∈ ranks done) →
      match pairsStep (itemStep d) seen n r.rest with
      | some (pairs, _) => r.walkLoop search floor =
          (r.leave base (Item.spellPairs pairs).length (Item.depthPairs pairs + 1)).walkLoop
            search floor
      | none => r.checks = true → Refuses (r.walkLoop search floor) := by
  induction n with
  | zero =>
    intro r level base done seen hw ho _ hrem _ _ _
    exact walkLoop_close hw ho (by omega)
  | succ n ih =>
    intro r level base done seen hw ho hkind hrem hf hdepth hk
    have hkey := walkLoop_key hw ho hkind hrem hf fun hc => (hk hc).1
    cases hks : keyStep r.rest with
    | none =>
      simp only [hks] at hkey
      simp only [pairsStep, manyFresh, pair, hks]
      exact fun _ => hkey
    | some p =>
      obtain ⟨k, tail⟩ := p
      obtain ⟨hkl, hkb⟩ := (keyStep_exact _ _ _).mp hks
      simp only [hks] at hkey
      simp only [pairsStep, manyFresh, pair, hks]
      split_ifs at hkey with hrep
      · have hin : k.rank ∈ seen := ((hk hrep.1).2 _).mpr hrep.2
        cases itemStep d tail with
        | none => exact fun _ => hkey
        | some q =>
          simp only [hin, if_true]
          exact fun _ => hkey
      · obtain ⟨last, hlast, hloop⟩ := hkey
        -- the reader at the pair's value
        let level' : Open := { level with remaining := n * 2 + 1, lastKey := last }
        let mid := r.leave (level' :: base) k.spelling.length 0
        have hmid : mid.Walks search := hw.leave (by simp [hkb])
        have hrest : mid.rest = tail := by rw [leave_rest, hkb, List.drop_left]
        have hat : mid.nest.atKey = false := by
          simp only [mid, level', Nest.atKey, leave_opened]
          simp only [Bool.and_eq_false_iff, beq_eq_false_iff_ne]
          omega
        have hv := hi mid level' base hmid rfl (Nat.succ_pos _) hat hf hdepth
        rw [hrest] at hv
        cases hp : itemStep d tail with
        | none =>
          rw [hp] at hv
          rw [hloop]
          exact hv
        | some q =>
          obtain ⟨v, tail'⟩ := q
          obtain ⟨hvl, hvb⟩ := (itemStep_exact d _ _ _).mp hp
          rw [hp] at hv
          simp only at hv
          have hpr : itemStep d mid.rest = some (v, tail') := hrest ▸ hp
          have hcount : (mid.past v).nest.opened = { level' with remaining := n * 2 } :: base := rfl
          have hseen : r.checks = true → k.rank ∉ seen := fun hc hm =>
            hrep ⟨hc, ((hk hc).2 _).mp hm⟩
          have hnext : r.checks = true →
              KeysAt (mid.past v).bytes (mid.past v).next { level' with remaining := n * 2 }
                (done ++ [(k, v)]) ∧
              ∀ x, x ∈ k.rank :: seen ↔ x ∈ ranks (done ++ [(k, v)]) := by
            intro hc
            refine ⟨(hk hc).1.snoc hkl (hvl.mono (by omega)) (hlast hc) ?_, ?_⟩
            · exact ⟨tail', by rw [show r.bytes.drop r.next = r.rest from rfl, hkb, hvb]; simp⟩
            · intro x
              simp [ranks, (hk hc).2 x, or_comm]
          have hrec := ih (mid.past v) { level' with remaining := n * 2 } base (done ++ [(k, v)])
            (k.rank :: seen) (hmid.past hpr) hcount hkind rfl hf hdepth hnext
          rw [past_rest hpr] at hrec
          rw [hloop, hv]
          simp only [pairsStep] at hrec
          by_cases hin : k.rank ∈ seen
          · simp only [hin, if_true]
            exact fun hc => absurd hin (hseen hc)
          · simp only [hin, if_false]
            cases hm : manyFresh (fun p : Key × Item => p.1.rank) (pair keyStep (itemStep d))
                (k.rank :: seen) n tail' with
            | none =>
              rw [hm] at hrec
              exact hrec
            | some t =>
              obtain ⟨pairs, tail''⟩ := t
              rw [hm] at hrec
              simp only at hrec ⊢
              rw [hrec, past, leave_leave (d := max v.depth (Item.depthPairs pairs) + 1),
                leave_leave (d := max v.depth (Item.depthPairs pairs) + 1)]
              · simp [Item.spellPairs, Item.depthPairs]
              · simp only [List.length_cons]
                omega
              · simp only [mid, leave_opened, Nest.countItem, List.length_cons]
                omega

theorem spelling_pos (i : Item) : 1 ≤ i.spelling.length := by
  cases i <;> simp [Item.spelling, Token.spelling] <;> omega

theorem pair_pos (p : Key × Item) : 2 ≤ (p.1.spelling ++ p.2.spelling).length := by
  have hk : 1 ≤ p.1.spelling.length := Token.spelling_pos _
  have hv := spelling_pos p.2
  simp only [List.length_append]
  omega

theorem many_room {n : ℕ} {bs : Bytes} (h : bs.length < n) : many (itemStep d) n bs = none := by
  cases hm : many (itemStep d) n bs with
  | none => rfl
  | some p =>
    obtain ⟨items, tail⟩ := p
    obtain ⟨⟨hl, -⟩, hb⟩ := (many_exact (itemStep_exact d) n _ _ _).mp hm
    have hroom := length_le_flatMap spelling_pos items
    have hlen := congrArg List.length hb
    simp only [List.length_append] at hlen
    omega

theorem pairs_room {n : ℕ} {bs : Bytes} (h : bs.length < n * 2) :
    pairsStep (itemStep d) [] n bs = none := by
  cases hm : pairsStep (itemStep d) [] n bs with
  | none => rfl
  | some p =>
    obtain ⟨pairs, tail⟩ := p
    have hex := pair_exact keyStep_exact (itemStep_exact d)
    obtain ⟨⟨hl, -⟩, hb⟩ := (manyFresh_exact _ hex [] n _ _ _).mp hm
    have hroom := length_le_flatMap pair_pos pairs
    have hlen := congrArg List.length hb
    simp only [List.length_append] at hlen hroom
    omega

theorem push_leave {r : CborReader} {base : List Open} {l : ℕ} (kind : Nesting) (n start : ℕ)
    (h : base.length < maxDepth) :
    (r.leave base l 0).nest.push kind n start =
      .ok (r.leave (⟨kind, n, none, start⟩ :: base) l 0).nest := by
  have hd : (r.leave base l 0).nest.depth < maxDepth := h
  rw [Nest.push, if_pos hd]
  simp only [leave, Nest.depth, List.length_cons, Nat.add_zero, Except.ok.injEq, Nest.mk.injEq, true_and]
  omega

theorem push_full {r : CborReader} {base : List Open} {l : ℕ} (kind : Nesting) (n start : ℕ)
    (h : base.length = maxDepth) :
    (r.leave base l 0).nest.push kind n start = .error .depthExceeded := by
  simp [Nest.push, Nest.depth, h]

theorem leave_entered {r : CborReader} {level : Open} {base : List Open} (l₁ l₂ d : ℕ) :
    (r.leave (level :: base) l₁ 0).leave base l₂ (d + 1) = r.leave base (l₁ + l₂) (d + 1) :=
  leave_leave r l₁ l₂ (by simp only [List.length_cons]; omega)

theorem itemStep_token {bs : Bytes} (h : tokenStep bs = none) : itemStep d bs = none := by
  cases d <;> simp [itemStep, itemWith, h]

theorem itemStep_room {bs tail : Bytes} {t : Token} (h : tokenStep bs = some (t, tail))
    (hr : tail.length < t.room) : itemStep d bs = none := by
  cases t with
  | array w n =>
    cases d with
    | zero => simp [itemStep, itemWith, h]
    | succ d => simp [itemStep, itemWith, h, many_room (n := n) hr]
  | map w n =>
    cases d with
    | zero => simp [itemStep, itemWith, h]
    | succ d => simp [itemStep, itemWith, h, pairs_room (n := n) hr]
  | unsigned | negative | bytes | text | bool => simp [Token.room] at hr

theorem enter_item {r : CborReader} {t : Token} {tail : Bytes} (hw : r.Walks search)
    (ht : tokenStep r.rest = some (t, tail)) (hd : ∀ e, d = e + 1 → WalksItem search floor e)
    (hf : floor ≤ r.nest.countItem.opened.length)
    (hdepth : r.nest.countItem.opened.length + d = maxDepth) :
    let moved := (do
      let moved ← (r.leave r.nest.countItem.opened t.spelling.length 0).enter t.head
      moved.walkLoop search floor)
    match itemStep d r.rest with
    | some (i, _) => moved = (r.past i).walkLoop search floor
    | none => r.checks = true → Refuses moved := by
  obtain ⟨-, hb⟩ := (tokenStep_exact _ _ _).mp ht
  have hin : ∀ level, (r.leave (level :: r.nest.countItem.opened) t.spelling.length 0).Walks search :=
    fun _ => hw.leave (by simp [hb])
  have hrest : ∀ level,
      (r.leave (level :: r.nest.countItem.opened) t.spelling.length 0).rest = tail :=
    fun _ => by rw [leave_rest, hb, List.drop_left]
  cases d with
  | zero =>
    simp only [itemStep, itemWith, ht]
    cases t with
    | unsigned | negative | bytes | text | bool => rfl
    | array w n | map w n =>
      exact fun _ => ⟨.depthExceeded, by simp [Token.head, enter, push_full _ _ _ hdepth, bind,
        Except.bind]⟩
  | succ d =>
    have hroom : r.nest.countItem.opened.length < maxDepth := by omega
    simp only [itemStep, itemWith, ht]
    cases t with
    | unsigned | negative | bytes | text | bool => rfl
    | array w n =>
      simp only [Token.head, enter, push_leave _ _ _ hroom, bind, Except.bind, Option.bind_some]
      have hm := walkLoop_many (hd d rfl) n _ _ _ (hin ⟨.array, n, none, r.next + (Token.array w n).spelling.length⟩)
        rfl rfl rfl hf (by omega)
      rw [hrest] at hm
      cases hms : many (itemStep d) n tail with
      | none =>
        rw [hms] at hm
        exact hm
      | some q =>
        obtain ⟨items, tail'⟩ := q
        obtain ⟨⟨rfl, -⟩, -⟩ := (many_exact (itemStep_exact d) n _ _ _).mp hms
        simp only [hms, leave_entered] at hm
        simp only [Option.map_some, past, Item.spelling, Item.depth, List.length_append]
        exact hm
    | map w n =>
      simp only [Token.head, enter, push_leave _ _ _ hroom, bind, Except.bind, Option.bind_some]
      have hm := walkLoop_pairs (hd d rfl) n _ _ _ [] [] (hin ⟨.map, n * 2, none, r.next + (Token.map w n).spelling.length⟩)
        rfl rfl rfl hf (by omega) fun _ => ⟨KeysAt.empty (hin _).within, by simp [ranks]⟩
      rw [hrest] at hm
      cases hms : pairsStep (itemStep d) [] n tail with
      | none =>
        rw [hms] at hm
        exact hm
      | some q =>
        obtain ⟨pairs, tail'⟩ := q
        obtain ⟨⟨rfl, -⟩, -⟩ :=
          (manyFresh_exact _ (pair_exact keyStep_exact (itemStep_exact d)) [] n _ _ _).mp hms
        simp only [hms, leave_entered] at hm
        simp only [Option.map_some, past, Item.spelling, Item.depth, List.length_append]
        exact hm

theorem headBy_item {r : CborReader} (hw : r.Walks search) (hs : r.settled = r)
    (hk : r.nest.atKey = false) (hd : ∀ e, d = e + 1 → WalksItem search floor e)
    (hf : floor ≤ r.nest.opened.length) (hdepth : r.nest.opened.length + d = maxDepth) :
    let walked := (do
      let (_, moved) ← r.headBy search
      moved.walkLoop search floor)
    match itemStep d r.rest with
    | some (i, _) => walked = (r.past i).walkLoop search floor
    | none => r.checks = true → Refuses walked := by
  have hv := headBy_value hw hs hk
  rw [← countItem_length] at hf hdepth
  cases ht : tokenStep r.rest with
  | none =>
    rw [ht] at hv
    simp only [itemStep_token ht]
    exact fun _ => refuses_bind hv _
  | some p =>
    obtain ⟨t, tail⟩ := p
    simp only [ht] at hv
    split_ifs at hv with hroom
    · simp only [itemStep_room ht hroom]
      exact fun _ => refuses_bind hv _
    · have he := enter_item hw ht hd hf hdepth
      rw [hv]
      cases hm : (r.leave r.nest.countItem.opened t.spelling.length 0).enter t.head with
      | error e =>
        rw [hm] at he
        exact he
      | ok moved =>
        rw [hm] at he
        exact he

theorem walkLoop_item (search : Search) (floor d : ℕ) : WalksItem search floor d := by
  induction d with
  | zero =>
    intro r top base hw ho ht hk hf hdepth
    have hs := settled_of_owing ho ht
    have hlen : r.nest.opened.length = base.length + 1 := by simp [ho]
    have hlt : floor < r.settled.nest.depth := by simp only [hs, Nest.depth]; omega
    rw [walkLoop_step hlt, hs]
    exact headBy_item hw hs hk (fun _ h => by cases h) (by omega) (by omega)
  | succ d ih =>
    intro r top base hw ho ht hk hf hdepth
    have hs := settled_of_owing ho ht
    have hlen : r.nest.opened.length = base.length + 1 := by simp [ho]
    have hlt : floor < r.settled.nest.depth := by simp only [hs, Nest.depth]; omega
    rw [walkLoop_step hlt, hs]
    exact headBy_item hw hs hk (fun e h => by cases h; exact ih) (by omega) (by omega)

theorem walkBy_item {r : CborReader} (hw : r.Walks search) (hs : r.settled = r)
    (hk : r.nest.atKey = false) (hdepth : r.nest.opened.length + d = maxDepth) :
    match itemStep d r.rest with
    | some (i, _) => r.walkBy search = .ok (r.past i).settled
    | none => r.checks = true → Refuses (r.walkBy search) := by
  have hi := headBy_item hw hs hk (fun e _ => walkLoop_item search r.nest.depth e) le_rfl hdepth
  simp only [walkBy, hs]
  cases hp : itemStep d r.rest with
  | none =>
    rw [hp] at hi
    exact hi
  | some p =>
    obtain ⟨i, tail⟩ := p
    simp only [hp] at hi
    have hle : (r.past i).settled.nest.depth ≤ r.nest.depth := by
      simp only [Nest.depth, ← countItem_length r.nest]
      exact (List.dropWhile_suffix _).length_le
    exact hi.trans (walkLoop_done hle)

end CborReader

end Km43.Cbor
