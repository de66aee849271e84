import Km43.Cbor.Formed

namespace Km43.Cbor

open Library Library.StepParser

namespace CborReader

structure Apart (q : CborReader) : Prop where
  within : q.Within
  opened : q.nest.opened = []
  checks : q.checks = false
  walking : q.walking = false
  unsettled : q.unsettled = none
  skipped : q.skipped = none

theorem settled_of_empty {r : CborReader} (h : r.nest.opened = []) : r.settled = r := by
  obtain ⟨bytes, next, ⟨opened, deepest⟩, checks, walking, unsettled, skipped⟩ := r
  simp only at h
  simp [settled, Nest.settle, h]

theorem Apart.head {q : CborReader} (hq : q.Apart) {k : Key} {tail : Bytes} (hk : k.Legal)
    (hr : q.rest = k.spelling ++ tail) :
    q.headBy unsearched = .ok (k.token.head, q.advance k.spelling.length) := by
  have hb : q.beforeHead unsearched = .ok q := by
    simp [beforeHead, settleSkippedBy, hq.walking, hq.skipped]
  have hl := headBy_eq hq.within hb
  have hat : q.nest.atKey = false := by simp [Nest.atKey, hq.opened]
  have hn : q.nest.countItem = q.nest := by simp [Nest.countItem, hq.opened]
  rw [hr, settled_of_empty hq.opened, Key.spelling,
    tokenStep_exact.read (Key.token_legal.mpr hk)] at hl
  simp only [Lands, room_key, Nat.not_lt_zero, if_false] at hl
  have hwalk : (q.advance k.spelling.length).walking = false := hq.walking
  rw [hl, land, ← Key.spelling]
  simp only [accountKey, hat, hwalk, advance_nest, hn, bind, Except.bind, Bool.false_eq_true,
    if_false, enter_key]
  simp [advance, hq.walking, hq.unsettled]

theorem Apart.skip {q : CborReader} (hq : q.Apart) {i : Item} {tail : Bytes}
    (hi : i.Formed maxDepth) (hr : q.rest = i.spelling ++ tail) :
    ∃ q', q.skipBy unsearched = .ok q' ∧ q'.Apart ∧ q'.rest = tail := by
  let q₁ : CborReader := { q with walking := true }
  have hoff : q₁.checks = false := hq.checks
  have hw : q₁.Walks unsearched := ⟨hq.within, rfl, by simp [q₁, Nest.depth, hq.opened],
    fun hc => by simp [hoff] at hc⟩
  have hat : q₁.nest.atKey = false := by simp [q₁, Nest.atKey, hq.opened]
  have hs : q₁.settled = q₁ := settled_of_empty hq.opened
  have hr₁ : q₁.rest = i.spelling ++ tail := hr
  have hwalk := walkBy_formed hw (fun hc => by simp [hoff] at hc) hs hat (d := maxDepth)
    (by simp [q₁, hq.opened]) hi hr₁
  have hopened : (q₁.past i).nest.opened = [] := by simp [past, Nest.countItem, q₁, hq.opened]
  rw [hoff, Bool.false_and, if_neg Bool.false_ne_true, settled_of_empty hopened] at hwalk
  have hskip : q.skipBy unsearched = .ok { q₁.past i with walking := false } := by
    have hset : q.settleSkippedBy unsearched = .ok q := by simp [settleSkippedBy, hq.skipped]
    have hcur : { q with skipped := q.unsettled, unsettled := none, walking := true } = q₁ := by
      simp [q₁, hq.unsettled, hq.skipped]
    simp only [skipBy, hset, bind, Except.bind, hcur, hwalk, hq.walking]
  obtain ⟨hpast, hrest⟩ := past_formed hw hr₁
  exact ⟨_, hskip, ⟨hpast.within, hopened, hq.checks, rfl, hq.unsettled, hq.skipped⟩, hrest⟩

theorem Apart.search {key : KeyRank} (pairs : List (Key × Item)) (hp : FormedPairs maxDepth pairs) :
    ∀ q : CborReader, q.Apart → q.rest = Item.spellPairs pairs →
      searchLoop key q = if key ∈ ranks pairs then .error .repeatedKey else .ok () := by
  induction pairs with
  | nil =>
    intro q hq hr
    have hlen := congrArg List.length hr
    rw [hq.within.rest_length] at hlen
    simp only [Item.spellPairs, List.length_nil] at hlen
    rw [searchLoop, if_neg (by omega)]
    simp [ranks]
  | cons p pairs ih =>
    obtain ⟨k, v⟩ := p
    intro q hq hr
    obtain ⟨hk, hv⟩ := hp (k, v) (by simp)
    have hlen := congrArg List.length hr
    have hpos : 0 < k.spelling.length := Token.spelling_pos _
    rw [hq.within.rest_length] at hlen
    simp only [Item.spellPairs, List.length_append] at hlen
    rw [Item.spellPairs, List.append_assoc] at hr
    have hmid : (q.advance k.spelling.length).Apart :=
      ⟨hq.within.advance (by simp [hr]), hq.opened, hq.checks, hq.walking, hq.unsettled, hq.skipped⟩
    have hrest : (q.advance k.spelling.length).rest = v.spelling ++ Item.spellPairs pairs := by
      rw [advance_rest, hr, List.drop_left]
    obtain ⟨q', hskip, hq', hr'⟩ := hmid.skip hv hrest
    have hrec := ih (fun p hm => hp p (List.mem_cons_of_mem _ hm)) q' hq' hr'
    rw [searchLoop, if_pos (by omega)]
    split
    · rename_i e he
      rw [hq.head hk hr] at he
      cases he
    · rename_i head moved he
      rw [hq.head hk hr] at he
      cases he
      simp only [rank_key]
      split_ifs with hfound hm hm
      · rfl
      · exact absurd (by simp [ranks, hfound]) hm
      · split
        · rename_i e hs
          rw [hskip] at hs
          cases hs
        · rename_i q'' hs
          rw [hskip] at hs
          cases hs
          rw [hrec, if_pos]
          simpa [ranks, Ne.symm hfound] using hm
      · split
        · rename_i e hs
          rw [hskip] at hs
          cases hs
        · rename_i q'' hs
          rw [hskip] at hs
          cases hs
          rw [hrec, if_neg]
          exact fun h => hm (List.mem_cons_of_mem _ h)

theorem search_seeks : Seeks search := by
  intro bytes key start stop pairs hs hp
  simp only [search, hs]
  exact Apart.search pairs hp _ ⟨Nat.zero_le _, rfl, rfl, rfl, rfl, rfl⟩ rfl

theorem search_finds : Finds search := fun bytes key start stop pairs hs hp =>
  search_seeks bytes key start stop pairs hs fun p hm =>
    ⟨(hp p hm).1, (Item.legal_iff_formed.mp (hp p hm).2).1⟩

theorem finish_new {r : CborReader} (hw : r.Within) (ho : r.nest.opened = []) (hs : r.skipped = none) :
    r.finish = .ok () ↔ r.rest = [] := by
  have hlen := hw.rest_length
  have hset : r.settleSkipped = .ok r := by simp [settleSkipped, settleSkippedBy, hs]
  rw [finish, hset]
  simp only [bind, Except.bind, settled_of_empty ho, Nest.depth, ho, List.length_nil, ne_eq,
    not_true_eq_false, if_false, ← List.length_eq_zero_iff]
  split_ifs
  · simp only [false_iff]
    omega
  · simp only [true_iff]
    omega

theorem skip_new (b : Bytes) :
    match itemStep maxDepth b with
    | some (i, tail) => ∃ r, (new b).skip = .ok ((), r) ∧ r.Within ∧ r.nest.opened = [] ∧
        r.skipped = none ∧ r.rest = tail ∧ r.nest.deepest = i.depth
    | none => Refuses ((new b).skip) := by
  let r₁ : CborReader := { new b with walking := true }
  have hw : r₁.Walks search :=
    ⟨Nat.zero_le _, rfl, by simp [r₁, new, Nest.new, Nest.depth], fun _ => search_finds⟩
  have hrest : r₁.rest = b := rfl
  have hskip : (new b).skip = (do
      let r ← r₁.walkBy search
      .ok ((), { r with walking := false })) := by
    simp only [skip, skipBy, settleSkippedBy, new, bind, Except.bind, r₁]
    cases walkBy search _ <;> rfl
  have hwalk := walkBy_item hw (settled_of_empty rfl) (d := maxDepth) rfl rfl
  rw [hrest] at hwalk
  cases hp : itemStep maxDepth b with
  | none =>
    rw [hp] at hwalk
    rw [hskip]
    exact refuses_bind (hwalk rfl) _
  | some p =>
    obtain ⟨i, tail⟩ := p
    simp only [hp] at hwalk
    have hopened : (r₁.past i).nest.opened = [] := rfl
    rw [settled_of_empty hopened] at hwalk
    have hdeep : (r₁.past i).nest.deepest = i.depth := by simp [r₁, past, leave, new, Nest.new, Nest.countItem]
    refine ⟨{ r₁.past i with walking := false }, ?_, (hw.past (hrest ▸ hp)).within, rfl, rfl,
      past_rest (hrest ▸ hp), hdeep⟩
    rw [hskip, hwalk]
    rfl

theorem skip_finish_deepest {b : Bytes} {r : CborReader} (h : (new b).skip = .ok ((), r))
    (hf : r.finish = .ok ()) : ∃ i : Item, i.Legal maxDepth ∧ i.spelling = b ∧ r.nest.deepest = i.depth := by
  have hs := skip_new b
  cases hp : itemStep maxDepth b with
  | none =>
    rw [hp] at hs
    obtain ⟨e, he⟩ := hs
    rw [h] at he
    cases he
  | some p =>
    obtain ⟨i, tail⟩ := p
    simp only [hp] at hs
    obtain ⟨r', hok, hw, ho, hsk, hr, hdeep⟩ := hs
    rw [h] at hok
    cases hok
    obtain ⟨hi, hb⟩ := (itemStep_exact maxDepth b i tail).mp hp
    rw [finish_new hw ho hsk, hr] at hf
    exact ⟨i, hi, by simpa [hf] using hb.symm, hdeep⟩

inductive Walked : ℕ → CborReader → CborReader → Prop
  | start (r : CborReader) : Walked 0 r r
  | head {n : ℕ} {r r' r'' : CborReader} {head : Head} : Walked n r r' →
      r'.settled.headBy search = .ok (head, r'') → Walked (n + 1) r r''

theorem Walked.within {n : ℕ} {r r' : CborReader} (h : Walked n r r') (hw : r.Within) :
    r'.bytes = r.bytes ∧ r.next + n ≤ r'.next ∧ r'.next ≤ r.bytes.length := by
  induction h with
  | start => exact ⟨rfl, le_rfl, hw⟩
  | head _ he ih =>
    obtain ⟨hb, hn, hl⟩ := ih hw
    obtain ⟨hb', hn', hl'⟩ := headBy_advances he
    simp only [settled] at hb' hn' hl'
    rw [hb] at hl'
    exact ⟨hb'.trans hb, by omega, hl'⟩

theorem skip_finish_iff (b : Bytes) :
    ((∃ r, (new b).skip = .ok ((), r) ∧ r.finish = .ok ()) ↔
      ∃ i : Item, i.Legal maxDepth ∧ i.spelling = b) ∧
    ∀ n r, Walked n { new b with walking := true } r →
      n ≤ b.length ∧ r.bytes = b ∧ r.next ≤ b.length := by
  refine ⟨?_, fun n r hr => ?_⟩
  · have hs := skip_new b
    have hex := itemStep_exact maxDepth b
    constructor
    · rintro ⟨r, hok, hfin⟩
      obtain ⟨i, hi, hb, -⟩ := skip_finish_deepest hok hfin
      exact ⟨i, hi, hb⟩
    · rintro ⟨i, hi, hb⟩
      have hp := (hex i []).mpr ⟨hi, by simp [hb]⟩
      simp only [hp] at hs
      obtain ⟨r, hok, hw, ho, hsk, hr, -⟩ := hs
      exact ⟨r, hok, (finish_new hw ho hsk).mpr hr⟩
  · obtain ⟨hb, hn, hl⟩ := hr.within (Nat.zero_le _)
    exact ⟨by simpa [new] using le_trans hn hl, hb, hl⟩

end CborReader

end Km43.Cbor
