import Km43.Cbor.Item
import Km43.Cbor.Walk

namespace Km43.Cbor

open Library Library.StepParser

def Greatest (last : Option KeyRank) (ks : List KeyRank) : Prop :=
  match last with
  | none => ks = []
  | some g => g ∈ ks ∧ ∀ k ∈ ks, k.le g = true

def ranks (pairs : List (Key × Item)) : List KeyRank := pairs.map fun p => p.1.rank

def LegalPairs (d : ℕ) (pairs : List (Key × Item)) : Prop :=
  ∀ p ∈ pairs, p.1.Legal ∧ p.2.Legal d

def Finds (search : CborReader.Search) : Prop :=
  ∀ bytes key start stop pairs, slice bytes start stop = some (Item.spellPairs pairs) →
    LegalPairs maxDepth pairs →
    search bytes ⟨key, start, stop⟩ =
      if key ∈ ranks pairs then .error .repeatedKey else .ok ()

theorem Greatest.last {g key : KeyRank} {ks : List KeyRank} (h : Greatest (some g) ks)
    (hk : key.le g = true) : Greatest (some g) (ks ++ [key]) := by
  refine ⟨by simp [h.1], ?_⟩
  intro k hm
  rcases List.mem_append.mp hm with hm | hm
  · exact h.2 k hm
  · rw [List.mem_singleton.mp hm]; exact hk

theorem Greatest.next {last : Option KeyRank} {ks : List KeyRank} (h : Greatest last ks)
    (key : KeyRank) (hk : ∀ g, last = some g → key.le g = false) :
    key ∉ ks ∧ Greatest (some key) (ks ++ [key]) := by
  cases last with
  | none =>
    obtain rfl : ks = [] := h
    simp [Greatest, KeyRank.le_refl]
  | some g =>
    have hg := hk g rfl
    refine ⟨fun hm => by simp [h.2 key hm] at hg, by simp, ?_⟩
    intro k hm
    rcases List.mem_append.mp hm with hm | hm
    · have hgk : g.le key = true := by
        rcases KeyRank.le_total g key with h' | h'
        · exact h'
        · simp [h'] at hg
      exact KeyRank.le_trans (h.2 k hm) hgk
    · rw [List.mem_singleton.mp hm]; exact KeyRank.le_refl key

theorem Nest.readKey_eq {n : Nest} {level : Open} {base : List Open} {ks : List KeyRank}
    (ho : n.opened = level :: base) (hg : Greatest level.lastKey ks) (key : KeyRank) (pos : ℕ) :
    ∃ last u, n.readKey key pos =
        .ok (u, { n with opened := { level with lastKey := last } :: base }) ∧
      Greatest last (ks ++ [key]) ∧
      ((u = none ∧ key ∉ ks) ∨ u = some ⟨key, level.start, pos⟩) := by
  obtain ⟨opened, deepest⟩ := n
  obtain ⟨kind, remaining, lastKey, start⟩ := level
  simp only at ho hg
  subst ho
  cases lastKey with
  | none =>
    obtain ⟨hn, hg'⟩ := hg.next key (by simp)
    exact ⟨some key, none, rfl, hg', .inl ⟨rfl, hn⟩⟩
  | some g =>
    cases hle : key.le g with
    | false =>
      obtain ⟨hn, hg'⟩ := hg.next key (by rintro _ ⟨rfl⟩; exact hle)
      exact ⟨some key, none, by simp [Nest.readKey, hle], hg', .inl ⟨rfl, hn⟩⟩
    | true =>
      exact ⟨some g, some ⟨key, start, pos⟩, by simp [Nest.readKey, hle], hg.last hle, .inr rfl⟩

/-- Where a map's keys are read: its earlier pairs, and what its `last_key` says of them. -/
structure KeysAt (bytes : Bytes) (pos : ℕ) (level : Open) (done : List (Key × Item)) : Prop where
  read : slice bytes level.start pos = some (Item.spellPairs done)
  legal : LegalPairs maxDepth done
  greatest : Greatest level.lastKey (ranks done)

theorem KeysAt.empty {bytes : Bytes} {pos remaining : ℕ} (h : pos ≤ bytes.length) :
    KeysAt bytes pos ⟨.map, remaining, none, pos⟩ [] :=
  ⟨slice_self h, by simp [LegalPairs], rfl⟩

theorem KeysAt.snoc {bytes : Bytes} {pos remaining : ℕ} {level : Open} {done : List (Key × Item)}
    (h : KeysAt bytes pos level done) {k : Key} {v : Item} {last : Option KeyRank}
    (hk : k.Legal) (hv : v.Legal maxDepth) (hl : Greatest last (ranks done ++ [k.rank]))
    (hp : k.spelling ++ v.spelling <+: bytes.drop pos) :
    KeysAt bytes (pos + k.spelling.length + v.spelling.length)
      { level with remaining := remaining, lastKey := last } (done ++ [(k, v)]) := by
  refine ⟨?_, ?_, by simpa [ranks] using hl⟩
  · have := slice_extend h.read hp
    simpa [Item.spellPairs_append, Item.spellPairs, Nat.add_assoc] using this
  · intro p hm
    rcases List.mem_append.mp hm with hm | hm
    · exact h.legal p hm
    · rw [List.mem_singleton.mp hm]; exact ⟨hk, hv⟩

namespace CborReader

structure Walks (search : Search) (r : CborReader) : Prop where
  within : r.Within
  walking : r.walking = true
  deep : r.nest.depth ≤ r.nest.deepest
  finds : r.checks = true → Finds search

/-- The reader past `length` bytes, with only `base` left open, having been `depth` levels deeper. -/
def leave (r : CborReader) (base : List Open) (length depth : ℕ) : CborReader :=
  { r with next := r.next + length, nest := ⟨base, max r.nest.deepest (base.length + depth)⟩ }

def past (r : CborReader) (i : Item) : CborReader :=
  r.leave r.nest.countItem.opened i.spelling.length i.depth

@[simp] theorem leave_bytes (r : CborReader) (base : List Open) (length depth : ℕ) :
    (r.leave base length depth).bytes = r.bytes := rfl
@[simp] theorem leave_next (r : CborReader) (base : List Open) (length depth : ℕ) :
    (r.leave base length depth).next = r.next + length := rfl
@[simp] theorem leave_checks (r : CborReader) (base : List Open) (length depth : ℕ) :
    (r.leave base length depth).checks = r.checks := rfl
@[simp] theorem leave_opened (r : CborReader) (base : List Open) (length depth : ℕ) :
    (r.leave base length depth).nest.opened = base := rfl

theorem leave_rest (r : CborReader) (base : List Open) (length depth : ℕ) :
    (r.leave base length depth).rest = r.rest.drop length := by
  simp [rest, leave, List.drop_drop]

theorem leave_leave (r : CborReader) {b₁ b₂ : List Open} (l₁ l₂ : ℕ) {d₁ d₂ d : ℕ}
    (h : b₂.length + d = max (b₁.length + d₁) (b₂.length + d₂)) :
    (r.leave b₁ l₁ d₁).leave b₂ l₂ d₂ = r.leave b₂ (l₁ + l₂) d := by
  simp only [leave, Nat.add_assoc, CborReader.mk.injEq, Nest.mk.injEq, true_and, and_true]
  omega

theorem Walks.leave {search : Search} {r : CborReader} (h : r.Walks search) {base : List Open}
    {length depth : ℕ} (hl : length ≤ r.rest.length) : (r.leave base length depth).Walks search where
  within := by
    have := h.within.advance hl
    simpa only [Within, CborReader.leave, advance] using this
  walking := h.walking
  deep := by simp only [CborReader.leave, Nest.depth]; omega
  finds := h.finds

theorem settled_of_owing {r : CborReader} {top : Open} {base : List Open}
    (ho : r.nest.opened = top :: base) (ht : 0 < top.remaining) : r.settled = r := by
  obtain ⟨bytes, next, ⟨opened, deepest⟩, checks, walking, unsettled, skipped⟩ := r
  simp only at ho
  subst ho
  simp [settled, Nest.settle, Nat.ne_of_gt ht]

theorem walkLoop_congr {search : Search} {floor : ℕ} {r r' : CborReader}
    (h : r.settled = r'.settled) : r.walkLoop search floor = r'.walkLoop search floor := by
  by_cases hd : r.settled.nest.depth ≤ floor
  · rw [walkLoop_done hd, walkLoop_done (h ▸ hd), h]
  · rw [walkLoop_step (Nat.not_le.mp hd), walkLoop_step (h ▸ Nat.not_le.mp hd), h]

theorem walkLoop_close {search : Search} {floor : ℕ} {r : CborReader} {level : Open}
    {base : List Open} (hw : r.Walks search) (ho : r.nest.opened = level :: base)
    (hl : level.remaining = 0) :
    r.walkLoop search floor = (r.leave base 0 1).walkLoop search floor := by
  have hd := hw.deep
  obtain ⟨bytes, next, ⟨opened, deepest⟩, checks, walking, unsettled, skipped⟩ := r
  simp only [Nest.depth] at ho hd
  subst ho
  apply walkLoop_congr
  simp only [List.length_cons] at hd
  simp [settled, Nest.settle, hl, CborReader.leave, Nat.max_eq_left hd]

theorem countItem_length (n : Nest) : n.countItem.opened.length = n.opened.length := by
  unfold Nest.countItem
  split <;> simp_all

theorem Walks.beforeHead {search : Search} {r : CborReader} (hw : r.Walks search) :
    r.beforeHead search = .ok r := by simp [CborReader.beforeHead, hw.walking]

theorem Walks.counted {search : Search} {r : CborReader} (hw : r.Walks search) (l : ℕ) :
    { r.advance l with nest := r.nest.countItem } = r.leave r.nest.countItem.opened l 0 := by
  have hd : r.nest.countItem.deepest = r.nest.deepest := by unfold Nest.countItem; split <;> rfl
  have hm : max r.nest.deepest r.nest.opened.length = r.nest.deepest := Nat.max_eq_left hw.deep
  simp only [advance, CborReader.leave, countItem_length, Nat.add_zero, hm]
  rw [← hd]

theorem headBy_value {search : Search} {r : CborReader} (hw : r.Walks search)
    (hs : r.settled = r) (hk : r.nest.atKey = false) :
    match tokenStep r.rest with
    | none => Refuses (r.headBy search)
    | some (t, tail) =>
      if tail.length < t.room then Refuses (r.headBy search)
      else r.headBy search = (do
        let moved ← (r.leave r.nest.countItem.opened t.spelling.length 0).enter t.head
        .ok (t.head, moved)) := by
  have hl := headBy_eq hw.within hw.beforeHead
  rw [hs] at hl
  cases hts : tokenStep r.rest with
  | none =>
    rw [hts] at hl
    exact hl
  | some p =>
    obtain ⟨t, tail⟩ := p
    rw [hts] at hl
    simp only [Lands] at hl
    simp only
    split_ifs at hl ⊢
    · exact hl
    · have hwalk : (r.advance t.spelling.length).walking = true := hw.walking
      rw [hl, land, hk, accountKey, if_neg Bool.false_ne_true, if_pos hwalk]
      simp only [bind, Except.bind, advance_nest, hw.counted]

theorem keyStep_token {bs : Bytes} {t : Token} {tail : Bytes} (h : tokenStep bs = some (t, tail)) :
    match t.head.rank with
    | .ok rank => ∃ k : Key, keyStep bs = some (k, tail) ∧ k.rank = rank ∧ k.token = t
    | .error _ => keyStep bs = none := by
  cases t with
  | unsigned w n => exact ⟨⟨false, w, n⟩, by simp [keyStep, h], rfl, rfl⟩
  | negative w n => exact ⟨⟨true, w, n⟩, by simp [keyStep, h], rfl, rfl⟩
  | bytes | text | array | map | bool => simp [keyStep, h, Token.head, Head.rank]

theorem enter_key (r : CborReader) (k : Key) : r.enter k.token.head = .ok r := by
  obtain ⟨_ | _, w, n⟩ := k <;> rfl

theorem rank_key (k : Key) : k.token.head.rank = .ok k.rank := by
  obtain ⟨_ | _, w, n⟩ := k <;> rfl

theorem room_key (k : Key) : k.token.room = 0 := by
  obtain ⟨_ | _, w, n⟩ := k <;> rfl

theorem noteKey_searched {search : Search} {r : CborReader} (ks : List KeyRank) (hw : r.walking = true)
    {level : Open} {base : List Open} {pos : ℕ} (ho : r.nest.opened = level :: base) (hg : Greatest level.lastKey ks)
    {key : KeyRank} (hsearch : search r.bytes ⟨key, level.start, pos⟩ =
      if key ∈ ks then .error .repeatedKey else .ok ()) :
    if key ∈ ks then r.noteKey search key pos = .error .repeatedKey
    else ∃ last, Greatest last (ks ++ [key]) ∧ r.noteKey search key pos =
      .ok { r with nest := { r.nest with opened := { level with lastKey := last } :: base } } := by
  obtain ⟨last, u, hr, hg', hu⟩ := Nest.readKey_eq ho hg key pos
  unfold noteKey
  rw [hr]
  rcases hu with ⟨rfl, hn⟩ | rfl
  · rw [if_neg hn]
    exact ⟨last, hg', by simp [bind, Except.bind, hw]⟩
  · split_ifs with hm
    · rw [if_pos hm] at hsearch
      simp [bind, Except.bind, hw, hsearch]
    · rw [if_neg hm] at hsearch
      exact ⟨last, hg', by simp [bind, Except.bind, hw, hsearch]⟩

theorem walkLoop_over_key {search : Search} {floor n : ℕ} {r : CborReader} {level : Open} {base : List Open}
    {k : Key} {tail : Bytes} (ks : List KeyRank) (hw : r.Walks search) (ho : r.nest.opened = level :: base)
    (hkind : level.kind = .map) (hrem : level.remaining = (n + 1) * 2) (hf : floor ≤ base.length)
    (ht : tokenStep r.rest = some (k.token, tail)) (hg : r.checks = true → Greatest level.lastKey ks)
    (hsearch : r.checks = true → search r.bytes ⟨k.rank, level.start, r.next⟩ =
      if k.rank ∈ ks then .error .repeatedKey else .ok ()) :
    if r.checks = true ∧ k.rank ∈ ks then r.walkLoop search floor = .error .repeatedKey
    else ∃ last, (r.checks = true → Greatest last (ks ++ [k.rank])) ∧
      r.walkLoop search floor =
        (r.leave ({ level with remaining := n * 2 + 1, lastKey := last } :: base)
          k.spelling.length 0).walkLoop search floor := by
  have hs := settled_of_owing ho (by omega)
  have hdepth : floor < r.settled.nest.depth := by simp [hs, Nest.depth, ho]; omega
  have hat : r.nest.atKey = true := by simp [Nest.atKey, ho, hkind, hrem]
  have hl := headBy_eq hw.within hw.beforeHead
  have hd : base.length + 1 ≤ r.nest.deepest := by simpa [Nest.depth, ho] using hw.deep
  have hclosed : ∀ last, ({ r.advance k.spelling.length with
      nest := { r.nest with
        opened := { level with remaining := n * 2 + 1, lastKey := last } :: base } }) =
      r.leave ({ level with remaining := n * 2 + 1, lastKey := last } :: base)
        k.spelling.length 0 := by
    intro last
    simp [CborReader.leave, advance, Nat.max_eq_left hd]
  have hcount : (n + 1) * 2 - 1 = n * 2 + 1 := by omega
  rw [walkLoop_step hdepth, hs]
  rw [hs, ht] at hl
  simp only [Lands, room_key, Nat.not_lt_zero, if_false] at hl
  rw [hl]
  simp only [land, hat, accountKey, rank_key, if_true]
  cases hc : r.checks with
  | false =>
    simp only [Bool.false_eq_true, false_and, if_false, false_imp_iff, true_and]
    refine ⟨level.lastKey, ?_⟩
    rw [← hclosed]
    simp [show (r.advance k.token.spelling.length).checks = false from hc, bind, Except.bind,
      enter_key, Nest.countItem, ho, hrem, hcount, Key.spelling]
  | true =>
    have hnote := noteKey_searched (r := r.advance k.token.spelling.length) ks hw.walking ho (hg hc)
      (hsearch hc)
    simp only [true_and, show (r.advance k.token.spelling.length).checks = true from hc, if_true]
    split_ifs at hnote ⊢ with hm
    · rw [hnote]
      rfl
    · obtain ⟨last, hg', hn⟩ := hnote
      refine ⟨last, fun _ => hg', ?_⟩
      rw [← hclosed, hn]
      simp [bind, Except.bind, enter_key, Nest.countItem, hrem, hcount, Key.spelling]

theorem walkLoop_key {search : Search} {floor n : ℕ} {r : CborReader} {level : Open}
    {base : List Open} {done : List (Key × Item)} (hw : r.Walks search)
    (ho : r.nest.opened = level :: base) (hkind : level.kind = .map)
    (hrem : level.remaining = (n + 1) * 2) (hf : floor ≤ base.length)
    (hk : r.checks = true → KeysAt r.bytes r.next level done) :
    match keyStep r.rest with
    | none => Refuses (r.walkLoop search floor)
    | some (k, _) =>
      if r.checks = true ∧ k.rank ∈ ranks done then Refuses (r.walkLoop search floor)
      else ∃ last, (r.checks = true → Greatest last (ranks done ++ [k.rank])) ∧
        r.walkLoop search floor =
          (r.leave ({ level with remaining := n * 2 + 1, lastKey := last } :: base)
            k.spelling.length 0).walkLoop search floor := by
  have hs := settled_of_owing ho (by omega)
  have hdepth : floor < r.settled.nest.depth := by simp [hs, Nest.depth, ho]; omega
  have hat : r.nest.atKey = true := by simp [Nest.atKey, ho, hkind, hrem]
  have hl := headBy_eq hw.within hw.beforeHead
  rw [hs] at hl
  cases hts : tokenStep r.rest with
  | none =>
    rw [hts] at hl
    rw [walkLoop_step hdepth, hs]
    simp only [keyStep, hts]
    exact refuses_bind hl _
  | some p =>
    obtain ⟨t, tail⟩ := p
    rw [hts] at hl
    have hkey := keyStep_token hts
    cases hrank : t.head.rank with
    | error e =>
      rw [hrank] at hkey
      rw [walkLoop_step hdepth, hs]
      simp only [hkey]
      simp only [Lands] at hl
      split_ifs at hl
      · exact refuses_bind hl _
      · rw [hl]
        exact refuses_bind ⟨e, by simp [land, hat, accountKey, hrank, bind, Except.bind]⟩ _
    | ok rank =>
      rw [hrank] at hkey
      obtain ⟨k, hks, rfl, rfl⟩ := hkey
      have hover := walkLoop_over_key (ranks done) hw ho hkind hrem hf hts (fun hc => (hk hc).greatest)
        fun hc => hw.finds hc r.bytes k.rank level.start r.next done (hk hc).read (hk hc).legal
      simp only [hks]
      split_ifs at hover ⊢
      · exact ⟨_, hover⟩
      · exact hover

end CborReader

end Km43.Cbor
