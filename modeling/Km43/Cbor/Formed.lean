import Km43.Cbor.WalkTree

namespace Km43.Cbor

open Library Library.StepParser

namespace Item

def Formed : ℕ → Item → Prop
  | _, unsigned w n | _, negative w n => w.Holds n
  | _, bytes w raw => w.Holds raw.length
  | _, text w raw => w.Holds raw.length ∧ raw.length ≤ maxString ∧ isUtf8 raw = true
  | _, bool _ => True
  | 0, array .. | 0, map .. => False
  | d + 1, array w items => w.Holds items.length ∧ ∀ i ∈ items, Formed d i
  | d + 1, map w pairs => w.Holds pairs.length ∧ ∀ p ∈ pairs, p.1.Legal ∧ Formed d p.2

mutual
def repeats : Item → Bool
  | unsigned .. | negative .. | bytes .. | text .. | bool _ => false
  | array _ items => repeatsAll items
  | map _ pairs => repeatsPairs [] pairs
def repeatsAll : List Item → Bool
  | [] => false
  | i :: rest => i.repeats || repeatsAll rest
def repeatsPairs (seen : List KeyRank) : List (Key × Item) → Bool
  | [] => false
  | (k, v) :: rest => decide (k.rank ∈ seen) || (v.repeats || repeatsPairs (seen ++ [k.rank]) rest)
end

theorem Formed.mono {d e : ℕ} (hde : d ≤ e) {i : Item} (h : i.Formed d) : i.Formed e := by
  induction e generalizing d i with
  | zero =>
    obtain rfl := Nat.le_zero.mp hde
    exact h
  | succ e ih =>
    cases d with
    | zero => cases i <;> first | exact h | exact absurd h (by simp [Formed])
    | succ d =>
      have hde' : d ≤ e := Nat.le_of_succ_le_succ hde
      cases i with
      | array w items => exact ⟨h.1, fun i hi => ih hde' (h.2 i hi)⟩
      | map w pairs => exact ⟨h.1, fun p hp => ⟨(h.2 p hp).1, ih hde' (h.2 p hp).2⟩⟩
      | unsigned | negative | bytes | text | bool => exact h

theorem repeatsAll_false {items : List Item} :
    repeatsAll items = false ↔ ∀ i ∈ items, i.repeats = false := by
  induction items with
  | nil => simp [repeatsAll]
  | cons i items ih => simp [repeatsAll, ih]

theorem repeatsPairs_false {pairs : List (Key × Item)} {seen : List KeyRank} :
    repeatsPairs seen pairs = false ↔
      (∀ k ∈ ranks pairs, k ∉ seen) ∧ (ranks pairs).Nodup ∧ ∀ p ∈ pairs, p.2.repeats = false := by
  induction pairs generalizing seen with
  | nil => simp [repeatsPairs, ranks]
  | cons p pairs ih =>
    obtain ⟨k, v⟩ := p
    simp only [repeatsPairs, Bool.or_eq_false_iff, decide_eq_false_iff_not, ih, ranks, List.map_cons,
      List.forall_mem_cons, List.nodup_cons, List.mem_append, List.mem_singleton, not_or]
    constructor
    · rintro ⟨hk, hv, hfresh, hnodup, hrest⟩
      exact ⟨⟨hk, fun j hj => (hfresh j hj).1⟩, ⟨fun hm => (hfresh _ hm).2 rfl, hnodup⟩, hv, hrest⟩
    · rintro ⟨⟨hk, hfresh⟩, ⟨hnot, hnodup⟩, hv, hrest⟩
      exact ⟨hk, hv, fun j hj => ⟨hfresh j hj, fun hjk => hnot (hjk ▸ hj)⟩, hnodup, hrest⟩

theorem legal_iff_formed {d : ℕ} {i : Item} : i.Legal d ↔ i.Formed d ∧ i.repeats = false := by
  induction d generalizing i with
  | zero => cases i <;> simp [Legal, Formed, repeats]
  | succ d ih =>
    cases i with
    | unsigned | negative | bytes | text | bool => simp [Legal, Formed, repeats]
    | array w items =>
      simp only [Legal, Formed, repeats, repeatsAll_false, ih]
      constructor
      · rintro ⟨hw, hitems⟩
        exact ⟨⟨hw, fun i hi => (hitems i hi).1⟩, fun i hi => (hitems i hi).2⟩
      · rintro ⟨⟨hw, hformed⟩, hrepeats⟩
        exact ⟨hw, fun i hi => ⟨hformed i hi, hrepeats i hi⟩⟩
    | map w pairs =>
      simp only [Legal, Formed, repeats, repeatsPairs_false, ih]
      constructor
      · rintro ⟨hw, hnodup, hpairs⟩
        exact ⟨⟨hw, fun p hp => ⟨(hpairs p hp).1, (hpairs p hp).2.1⟩⟩, by simp, hnodup, fun p hp => (hpairs p hp).2.2⟩
      · rintro ⟨⟨hw, hformed⟩, -, hnodup, hrepeats⟩
        exact ⟨hw, hnodup, fun p hp => ⟨(hformed p hp).1, (hformed p hp).2, hrepeats p hp⟩⟩

end Item

def FormedPairs (d : ℕ) (pairs : List (Key × Item)) : Prop :=
  ∀ p ∈ pairs, p.1.Legal ∧ p.2.Formed d

/-- The search tells whether the pairs it is pointed at carry the key, whatever those pairs repeat. -/
def Seeks (search : CborReader.Search) : Prop :=
  ∀ bytes key start stop pairs, slice bytes start stop = some (Item.spellPairs pairs) →
    FormedPairs maxDepth pairs →
    search bytes ⟨key, start, stop⟩ =
      if key ∈ ranks pairs then .error .repeatedKey else .ok ()

/-- Where a map's keys are read, its earlier pairs free to repeat theirs. -/
structure KeysPast (bytes : Bytes) (pos : ℕ) (level : Open) (done : List (Key × Item)) : Prop where
  read : slice bytes level.start pos = some (Item.spellPairs done)
  formed : FormedPairs maxDepth done
  greatest : Greatest level.lastKey (ranks done)

theorem KeysPast.empty {bytes : Bytes} {pos remaining : ℕ} (h : pos ≤ bytes.length) :
    KeysPast bytes pos ⟨.map, remaining, none, pos⟩ [] :=
  ⟨slice_self h, by simp [FormedPairs], rfl⟩

theorem KeysPast.snoc {bytes : Bytes} {pos remaining : ℕ} {level : Open} {done : List (Key × Item)}
    (h : KeysPast bytes pos level done) {k : Key} {v : Item} {last : Option KeyRank}
    (hk : k.Legal) (hv : v.Formed maxDepth) (hl : Greatest last (ranks done ++ [k.rank]))
    (hp : k.spelling ++ v.spelling <+: bytes.drop pos) :
    KeysPast bytes (pos + k.spelling.length + v.spelling.length)
      { level with remaining := remaining, lastKey := last } (done ++ [(k, v)]) := by
  refine ⟨?_, ?_, by simpa [ranks] using hl⟩
  · have hread := slice_extend h.read hp
    simpa [Item.spellPairs_append, Item.spellPairs, Nat.add_assoc] using hread
  · intro p hm
    rcases List.mem_append.mp hm with hm | hm
    · exact h.formed p hm
    · rw [List.mem_singleton.mp hm]
      exact ⟨hk, hv⟩

namespace CborReader

variable {search : Search} {floor d : ℕ}

def WalksFormed (search : Search) (floor d : ℕ) : Prop :=
  ∀ (r : CborReader) (top : Open) (base : List Open) (i : Item) (tail : Bytes), r.Walks search →
    (r.checks = true → Seeks search) → r.nest.opened = top :: base → 0 < top.remaining →
    r.nest.atKey = false → floor ≤ base.length → base.length + 1 + d = maxDepth → i.Formed d →
    r.rest = i.spelling ++ tail →
    r.walkLoop search floor =
      if (r.checks && i.repeats) = true then .error .repeatedKey else (r.past i).walkLoop search floor

theorem past_formed {r : CborReader} (hw : r.Walks search) {i : Item} {tail : Bytes}
    (hr : r.rest = i.spelling ++ tail) : (r.past i).Walks search ∧ (r.past i).rest = tail :=
  ⟨hw.leave (by simp [hr]), by rw [past, leave_rest, hr, List.drop_left]⟩

theorem walkLoop_formedAll (hi : WalksFormed search floor d) (items : List Item)
    (hitems : ∀ i ∈ items, i.Formed d) :
    ∀ (r : CborReader) (level : Open) (base : List Open) (tail : Bytes), r.Walks search →
      (r.checks = true → Seeks search) → r.nest.opened = level :: base → level.kind = .array →
      level.remaining = items.length → floor ≤ base.length → base.length + 1 + d = maxDepth →
      r.rest = Item.spellAll items ++ tail →
      r.walkLoop search floor =
        if (r.checks && Item.repeatsAll items) = true then .error .repeatedKey
        else (r.leave base (Item.spellAll items).length (Item.depthAll items + 1)).walkLoop search floor := by
  induction items with
  | nil =>
    intro r level base tail hw _ ho _ hrem _ _ _
    rw [Item.repeatsAll, Bool.and_false, if_neg Bool.false_ne_true]
    exact walkLoop_close hw ho hrem
  | cons i items ih =>
    intro r level base tail hw hseek ho hkind hrem hf hdepth hr
    rw [Item.spellAll, List.append_assoc] at hr
    have hat : r.nest.atKey = false := by simp [Nest.atKey, ho, hkind]
    have hpos : 0 < level.remaining := by rw [hrem]; exact Nat.succ_pos _
    have hv := hi r level base i _ hw hseek ho hpos hat hf hdepth (hitems i (by simp)) hr
    obtain ⟨hpast, hrest⟩ := past_formed hw hr
    have hcount : r.nest.countItem.opened = { level with remaining := items.length } :: base := by
      simp [Nest.countItem, ho, hrem]
    have hrec := ih (fun j hj => hitems j (List.mem_cons_of_mem _ hj)) (r.past i)
      { level with remaining := items.length } base tail hpast hseek hcount hkind rfl hf hdepth hrest
    have hleave : (r.past i).leave base (Item.spellAll items).length (Item.depthAll items + 1) =
        r.leave base (Item.spellAll (i :: items)).length (Item.depthAll (i :: items) + 1) := by
      rw [past, leave_leave (d := max i.depth (Item.depthAll items) + 1)]
      · simp [Item.spellAll, Item.depthAll]
      · simp only [hcount, List.length_cons]
        omega
    rw [hleave] at hrec
    have hchecks : (r.past i).checks = r.checks := rfl
    rw [hv, hrec, hchecks, Item.repeatsAll]
    cases r.checks <;> cases i.repeats <;> simp

theorem walkLoop_formedPairs (hi : WalksFormed search floor d) (pairs : List (Key × Item))
    (hpairs : FormedPairs d pairs) :
    ∀ (r : CborReader) (level : Open) (base : List Open) (done : List (Key × Item)) (tail : Bytes),
      r.Walks search → (r.checks = true → Seeks search) → r.nest.opened = level :: base →
      level.kind = .map → level.remaining = pairs.length * 2 → floor ≤ base.length →
      base.length + 1 + d = maxDepth → (r.checks = true → KeysPast r.bytes r.next level done) →
      r.rest = Item.spellPairs pairs ++ tail →
      r.walkLoop search floor =
        if (r.checks && Item.repeatsPairs (ranks done) pairs) = true then .error .repeatedKey
        else (r.leave base (Item.spellPairs pairs).length (Item.depthPairs pairs + 1)).walkLoop search floor := by
  induction pairs with
  | nil =>
    intro r level base done tail hw _ ho _ hrem _ _ _ _
    rw [Item.repeatsPairs, Bool.and_false, if_neg Bool.false_ne_true]
    exact walkLoop_close hw ho (by simpa using hrem)
  | cons p pairs ih =>
    obtain ⟨k, v⟩ := p
    intro r level base done tail hw hseek ho hkind hrem hf hdepth hk hr
    obtain ⟨hkl, hvf⟩ := hpairs (k, v) (by simp)
    rw [Item.spellPairs, List.append_assoc, List.append_assoc] at hr
    have ht : tokenStep r.rest = some (k.token, v.spelling ++ (Item.spellPairs pairs ++ tail)) := by
      rw [hr]
      exact tokenStep_exact.read (Key.token_legal.mpr hkl) _
    have hkey := walkLoop_over_key (ranks done) hw ho hkind hrem hf ht (fun hc => (hk hc).greatest)
      fun hc => hseek hc r.bytes k.rank level.start r.next done (hk hc).read (hk hc).formed
    split_ifs at hkey with hrep
    · rw [hkey, if_pos]
      simp [Item.repeatsPairs, hrep.1, hrep.2]
    · obtain ⟨last, hlast, hloop⟩ := hkey
      -- the reader at the pair's value
      let level' : Open := { level with remaining := pairs.length * 2 + 1, lastKey := last }
      let mid := r.leave (level' :: base) k.spelling.length 0
      have hmid : mid.Walks search := hw.leave (by simp [hr])
      have hrest : mid.rest = v.spelling ++ (Item.spellPairs pairs ++ tail) := by
        rw [leave_rest, hr, List.drop_left]
      have hat : mid.nest.atKey = false := by
        simp only [mid, level', Nest.atKey, leave_opened]
        simp only [Bool.and_eq_false_iff, beq_eq_false_iff_ne]
        omega
      have hv := hi mid level' base v _ hmid hseek rfl (Nat.succ_pos _) hat hf hdepth hvf hrest
      obtain ⟨hpast, hrest'⟩ := past_formed hmid hrest
      have hcount : (mid.past v).nest.opened = { level' with remaining := pairs.length * 2 } :: base := rfl
      have hnext : r.checks = true →
          KeysPast (mid.past v).bytes (mid.past v).next { level' with remaining := pairs.length * 2 }
            (done ++ [(k, v)]) := by
        intro hc
        refine (hk hc).snoc hkl (hvf.mono (by omega)) (hlast hc) ⟨Item.spellPairs pairs ++ tail, ?_⟩
        rw [show r.bytes.drop r.next = r.rest from rfl, hr, List.append_assoc]
      have hrec := ih (fun p hp => hpairs p (List.mem_cons_of_mem _ hp)) (mid.past v)
        { level' with remaining := pairs.length * 2 } base (done ++ [(k, v)]) tail hpast hseek hcount hkind
        rfl hf hdepth hnext hrest'
      have hranks : ranks (done ++ [(k, v)]) = ranks done ++ [k.rank] := by simp [ranks]
      have hleave : (mid.past v).leave base (Item.spellPairs pairs).length (Item.depthPairs pairs + 1) =
          r.leave base (Item.spellPairs ((k, v) :: pairs)).length (Item.depthPairs ((k, v) :: pairs) + 1) := by
        rw [past, leave_leave (d := max v.depth (Item.depthPairs pairs) + 1),
          leave_leave (d := max v.depth (Item.depthPairs pairs) + 1)]
        · simp [Item.spellPairs, Item.depthPairs]
        · simp only [List.length_cons]
          omega
        · simp only [mid, leave_opened, Nest.countItem, List.length_cons]
          omega
      rw [hleave, hranks] at hrec
      have hchecks : mid.checks = r.checks := rfl
      have hchecks' : (mid.past v).checks = r.checks := rfl
      rw [hloop, hv, hrec, hchecks, hchecks', Item.repeatsPairs]
      cases hc : r.checks with
      | false => simp
      | true =>
        have hfresh : k.rank ∉ ranks done := fun hm => hrep ⟨hc, hm⟩
        cases v.repeats <;> simp [hfresh]

theorem headBy_token {r : CborReader} (hw : r.Walks search) (hs : r.settled = r) (hk : r.nest.atKey = false)
    {t : Token} {tail : Bytes} (ht : tokenStep r.rest = some (t, tail)) (hroom : t.room ≤ tail.length) :
    r.headBy search = (do
      let moved ← (r.leave r.nest.countItem.opened t.spelling.length 0).enter t.head
      .ok (t.head, moved)) := by
  have hv := headBy_value hw hs hk
  simpa only [ht, if_neg (Nat.not_lt.mpr hroom)] using hv

theorem headBy_formed {r : CborReader} (hw : r.Walks search) (hseek : r.checks = true → Seeks search)
    (hs : r.settled = r) (hk : r.nest.atKey = false) (hd : ∀ e, d = e + 1 → WalksFormed search floor e)
    (hf : floor ≤ r.nest.opened.length) (hdepth : r.nest.opened.length + d = maxDepth) {i : Item} {tail : Bytes}
    (hi : i.Formed d) (hr : r.rest = i.spelling ++ tail) :
    (do
      let (_, moved) ← r.headBy search
      moved.walkLoop search floor) =
      if (r.checks && i.repeats) = true then .error .repeatedKey else (r.past i).walkLoop search floor := by
  have hlen := countItem_length r.nest
  have hleaf : ∀ (t : Token), t.Legal → t.room = 0 → i.spelling = t.spelling → i.depth = 0 → i.repeats = false →
      (∀ q : CborReader, q.enter t.head = .ok q) →
      (do
        let (_, moved) ← r.headBy search
        moved.walkLoop search floor) =
        if (r.checks && i.repeats) = true then .error .repeatedKey else (r.past i).walkLoop search floor := by
    intro t ht hroom hspell hdeep hrep henter
    have hread : tokenStep r.rest = some (t, tail) := by
      rw [hr, hspell]
      exact tokenStep_exact.read ht tail
    rw [headBy_token hw hs hk hread (by omega), henter, hrep, Bool.and_false, if_neg Bool.false_ne_true, past, hspell,
      hdeep]
    rfl
  cases i with
  | unsigned w n => exact hleaf (.unsigned w n) (by cases d <;> exact hi) rfl rfl rfl rfl fun _ => rfl
  | negative w n => exact hleaf (.negative w n) (by cases d <;> exact hi) rfl rfl rfl rfl fun _ => rfl
  | bytes w raw => exact hleaf (.bytes w raw) (by cases d <;> exact hi) rfl rfl rfl rfl fun _ => rfl
  | text w raw => exact hleaf (.text w raw) (by cases d <;> exact hi) rfl rfl rfl rfl fun _ => rfl
  | bool value => exact hleaf (.bool value) trivial rfl rfl rfl rfl fun _ => rfl
  | array w items =>
    cases d with
    | zero => exact hi.elim
    | succ d =>
      rw [Item.spelling, List.append_assoc] at hr
      have ht : tokenStep r.rest = some (.array w items.length, Item.spellAll items ++ tail) := by
        rw [hr]
        exact tokenStep_exact.read (x := .array w items.length) hi.1 _
      have hroom : items.length ≤ (Item.spellAll items ++ tail).length := by
        have hle := length_le_flatMap spelling_pos items
        rw [Item.spellAll_eq, List.length_append]
        omega
      let level : Open := ⟨.array, items.length, none, r.next + (Token.array w items.length).spelling.length⟩
      have hin : (r.leave (level :: r.nest.countItem.opened) (Token.array w items.length).spelling.length 0).Walks
          search := hw.leave (by simp [hr])
      have hall := walkLoop_formedAll (hd d rfl) items hi.2 _ level r.nest.countItem.opened tail hin hseek rfl rfl rfl
        (by omega) (by omega) (by rw [leave_rest, hr, List.drop_left])
      rw [headBy_token hw hs hk ht hroom]
      simp only [Token.head, enter, push_leave _ _ _ (show r.nest.countItem.opened.length < maxDepth by omega), bind,
        Except.bind]
      rw [leave_entered] at hall
      simp only [Item.repeats, past, Item.spelling, Item.depth, List.length_append]
      exact hall
  | map w pairs =>
    cases d with
    | zero => exact hi.elim
    | succ d =>
      rw [Item.spelling, List.append_assoc] at hr
      have ht : tokenStep r.rest = some (.map w pairs.length, Item.spellPairs pairs ++ tail) := by
        rw [hr]
        exact tokenStep_exact.read (x := .map w pairs.length) hi.1 _
      have hroom : pairs.length * 2 ≤ (Item.spellPairs pairs ++ tail).length := by
        have hle := length_le_flatMap pair_pos pairs
        rw [Item.spellPairs_eq, List.length_append]
        omega
      let level : Open := ⟨.map, pairs.length * 2, none, r.next + (Token.map w pairs.length).spelling.length⟩
      have hin : (r.leave (level :: r.nest.countItem.opened) (Token.map w pairs.length).spelling.length 0).Walks
          search := hw.leave (by simp [hr])
      have hall := walkLoop_formedPairs (hd d rfl) pairs hi.2 _ level r.nest.countItem.opened [] tail hin hseek rfl rfl
        rfl (by omega) (by omega) (fun _ => .empty hin.within) (by rw [leave_rest, hr, List.drop_left])
      rw [headBy_token hw hs hk ht hroom]
      simp only [Token.head, enter, push_leave _ _ _ (show r.nest.countItem.opened.length < maxDepth by omega), bind,
        Except.bind]
      rw [leave_entered] at hall
      simp only [Item.repeats, past, Item.spelling, Item.depth, List.length_append]
      exact hall

theorem walkLoop_formed (search : Search) (floor d : ℕ) : WalksFormed search floor d := by
  induction d with
  | zero =>
    intro r top base i tail hw hseek ho ht hk hf hdepth hi hr
    have hs := settled_of_owing ho ht
    have hlen : r.nest.opened.length = base.length + 1 := by simp [ho]
    have hlt : floor < r.settled.nest.depth := by simp only [hs, Nest.depth]; omega
    rw [walkLoop_step hlt, hs]
    exact headBy_formed hw hseek hs hk (fun _ h => by cases h) (by omega) (by omega) hi hr
  | succ d ih =>
    intro r top base i tail hw hseek ho ht hk hf hdepth hi hr
    have hs := settled_of_owing ho ht
    have hlen : r.nest.opened.length = base.length + 1 := by simp [ho]
    have hlt : floor < r.settled.nest.depth := by simp only [hs, Nest.depth]; omega
    rw [walkLoop_step hlt, hs]
    exact headBy_formed hw hseek hs hk (fun e h => by cases h; exact ih) (by omega) (by omega) hi hr

theorem walkBy_formed {r : CborReader} (hw : r.Walks search) (hseek : r.checks = true → Seeks search)
    (hs : r.settled = r) (hk : r.nest.atKey = false) (hdepth : r.nest.opened.length + d = maxDepth) {i : Item}
    {tail : Bytes} (hi : i.Formed d) (hr : r.rest = i.spelling ++ tail) :
    r.walkBy search =
      if (r.checks && i.repeats) = true then .error .repeatedKey else .ok (r.past i).settled := by
  have hwalk := headBy_formed hw hseek hs hk (fun e _ => walkLoop_formed search r.nest.depth e) le_rfl hdepth hi hr
  have hle : (r.past i).settled.nest.depth ≤ r.nest.depth := by
    simp only [Nest.depth, ← countItem_length r.nest]
    exact (List.dropWhile_suffix _).length_le
  rw [walkLoop_done hle] at hwalk
  simp only [walkBy, hs]
  exact hwalk

end CborReader

end Km43.Cbor
