import Km43.Vouch.Statement

namespace Km43.Vouch

open Library Identity Cbor CborReader CborWriter

variable {d : ℕ}

def fixedOf (n : ℕ) (i : Item) : Option (Vector UInt8 n) :=
  i.bytes?.bind fun bytes => if bytes.length = n then some (fill n bytes) else none

theorem fixedOf_ofBytes {n : ℕ} (bytes : Vector UInt8 n) : fixedOf n (.ofBytes bytes.toList) = some bytes := by
  have hlen : bytes.toList.length = n := bytes.length_toList
  rw [fixedOf, Item.ofBytes, Item.bytes?, Option.bind_some, if_pos hlen, Option.some.injEq]
  exact Vector.toList_inj.mp (fill_toList hlen)

theorem fixedBytes_reads (n : ℕ) (field : VouchField) :
    Reads (fun _ => True) d (fixedBytes n field) (fixedOf n) := by
  have h := (Reads.bytesValue (ε := VouchError) (d := d) fun _ => trivial).checked (fixed n field) fun _ _ _ => trivial
  have hspec : fixedOf n = fun i => i.bytes?.bind fun bytes => (fixed n field bytes).toOption := by
    funext i
    refine congrArg _ (funext fun bytes => ?_)
    unfold fixed
    split_ifs <;> rfl
  rw [hspec]
  exact h

theorem fixedBytes_legal {n : ℕ} (bytes : Vector UInt8 n) (hn : n < 2 ^ 64) : (Item.ofBytes bytes.toList).Legal d :=
  Item.ofBytes_legal (by simpa using hn)

namespace RequestSlots

def fill : ℤ → Item → Option (RequestSlots → RequestSlots)
  | 1, i => (fixedOf 32 i).map fun v s => { s with verifier := some v }
  | 2, i => (fixedOf 16 i).map fun v s => { s with nonce := some v }
  | 3, i => (fixedOf 32 i).map fun v s => { s with binding := some v }
  | _, _ => none

def has : RequestSlots → ℤ → Bool
  | s, 1 => s.verifier.isSome
  | s, 2 => s.nonce.isSome
  | s, 3 => s.binding.isSome
  | _, _ => false

abbrev Known (k : ℤ) : Prop := 1 ≤ k ∧ k ≤ 3

def take : ℤ → RequestSlots → Item → Option RequestSlots := slotStep has fill Known

def ofItem (i : Item) : Option RequestSlots := i.pairs?.bind fun pairs => foldPairs take pairs empty

theorem known_cases {k : ℤ} (h : Known k) : k = 1 ∨ k = 2 ∨ k = 3 := by
  obtain ⟨hlow, hhigh⟩ := h
  omega

theorem own_slots : OwnSlots has fill Known := by
  constructor
  · intro k j i put s hk hj hput
    rcases known_cases hk with rfl | rfl | rfl
    all_goals
      obtain ⟨v, -, rfl⟩ := Option.map_eq_some_iff.mp hput
      rcases known_cases hj with rfl | rfl | rfl <;> rfl
  · intro k j i i' put put' s hk hj hkj hput hput'
    rcases known_cases hk with rfl | rfl | rfl
    all_goals
      obtain ⟨v, -, rfl⟩ := Option.map_eq_some_iff.mp hput
      rcases known_cases hj with rfl | rfl | rfl
      all_goals
        obtain ⟨w, -, rfl⟩ := Option.map_eq_some_iff.mp hput'
        first | rfl | exact absurd rfl hkj

theorem any_order : AnyOrder take := slotStep_order own_slots

theorem take_unknown (k : ℤ) (s : RequestSlots) (i : Item) (hk : ¬Known k) : take k s i = some s := slotStep_unknown hk s i

theorem steps : Steps (fun _ => True) d step take Known fun _ s => s := by
  constructor
  · intro k s hk
    rcases known_cases hk with rfl | rfl | rfl
    · exact slotStep_reads (fixedBytes_reads 32 .verifier) trivial hk rfl (fun _ => rfl) fun _ => rfl
    · exact slotStep_reads (fixedBytes_reads 16 .nonce) trivial hk rfl (fun _ => rfl) fun _ => rfl
    · exact slotStep_reads (fixedBytes_reads 32 .binding) trivial hk rfl (fun _ => rfl) fun _ => rfl
  · intro k s hk
    unfold step
    split <;> first | rfl | exact absurd (by decide) hk

theorem reads : Reads (fun _ => True) (d + 1) read ofItem := by
  apply Reads.mapFrom (fun _ => trivial) steps (slotStep_fills own_slots)
  intro j hj
  rcases known_cases hj with rfl | rfl | rfl <;> simp [has, empty]

end RequestSlots

namespace VouchRequest

variable (r : VouchRequest)

def pairs : List (Key × Item) :=
  [(Key.ofNat 1, .ofBytes r.verifier.toList), (Key.ofNat 2, .ofBytes r.nonce.toList),
    (Key.ofNat 3, .ofBytes r.binding.toList)]

def calls : List Call :=
  [.map 3, .key 1, .bytes r.verifier.toList, .key 2, .bytes r.nonce.toList, .key 3, .bytes r.binding.toList]

theorem pairs_ascend : Ascends none r.pairs := by simp [pairs, Ascends, Key.ofNat, Key.rank, KeyRank.le]

theorem pairs_few : r.pairs.length < 2 ^ 64 := by
  simp [pairs]

theorem encodeInto_tells : Tells r.encodeInto r.calls :=
  .cons (c := .map 3) <| .cons (c := .key 1) <| .cons (c := .bytes r.verifier.toList) <| .cons (c := .key 2) <|
    .cons (c := .bytes r.nonce.toList) <| .cons (c := .key 3) <| .call (.bytes r.binding.toList)

theorem writes : Writes (d + 1) (writeAll r.calls) (.ofPairs r.pairs) := by
  have hverifier : WritesPairs d (writeAll [.key 1, .bytes r.verifier.toList])
      [(Key.ofNat 1, .ofBytes r.verifier.toList)] :=
    .keyed (k := 1) (by decide) (writes_one (c := .bytes r.verifier.toList) rfl)
  have hnonce : WritesPairs d (writeAll [.key 2, .bytes r.nonce.toList]) [(Key.ofNat 2, .ofBytes r.nonce.toList)] :=
    .keyed (k := 2) (by decide) (writes_one (c := .bytes r.nonce.toList) rfl)
  have hbinding : WritesPairs d (writeAll [.key 3, .bytes r.binding.toList])
      [(Key.ofNat 3, .ofBytes r.binding.toList)] :=
    .keyed (k := 3) (by decide) (writes_one (c := .bytes r.binding.toList) rfl)
  exact writes_mapCalls (hverifier.both (hnonce.both hbinding)) rfl r.pairs_ascend

theorem encode_eq {dst : ℕ} {out : Bytes} : r.encode dst = .ok out ↔
    out = (Item.ofPairs r.pairs).spelling ∧ (Item.ofPairs r.pairs).spelling.length ≤ dst :=
  encodeBody_item r.encodeInto_tells r.writes

theorem slots : foldPairs RequestSlots.take r.pairs .empty = some ⟨some r.verifier, some r.nonce, some r.binding⟩ := by
  simp only [pairs, foldPairs, Key.ofNat_i64 (show 1 ≤ i64Max by decide), Key.ofNat_i64 (show 2 ≤ i64Max by decide),
    Key.ofNat_i64 (show 3 ≤ i64Max by decide), Option.bind_some]
  simp [RequestSlots.take, slotStep, RequestSlots.Known, RequestSlots.has, RequestSlots.fill, RequestSlots.empty,
    fixedOf_ofBytes]

theorem decode_pairs {w : Width} {here extra : List (Key × Item)} (hhere : here.Perm (r.pairs ++ extra))
    (hextra : Unread RequestSlots.Known extra) (hlegal : (Item.map w here).Legal maxDepth) :
    decode (Item.map w here).spelling = .ok r := by
  have hfold : foldPairs RequestSlots.take here .empty = some ⟨some r.verifier, some r.nonce, some r.binding⟩ := by
    rw [foldPairs_known RequestSlots.any_order RequestSlots.take_unknown hhere hlegal.2.1 hextra]
    exact r.slots
  rw [decode, decodeBody_item (RequestSlots.reads (d := 7)) hlegal hfold]
  rfl

theorem decode_encode {dst : ℕ} {out : Bytes} (h : r.encode dst = .ok out) : decode out = .ok r := by
  obtain ⟨rfl, -⟩ := r.encode_eq.mp h
  have hlegal : (Item.ofPairs r.pairs).Legal maxDepth := by
    refine Item.ofPairs_legal r.pairs_few r.pairs_ascend ?_
    simp only [pairs, List.forall_mem_cons]
    exact ⟨⟨Key.ofNat_legal (by decide), fixedBytes_legal _ (by decide)⟩,
      ⟨Key.ofNat_legal (by decide), fixedBytes_legal _ (by decide)⟩,
      ⟨Key.ofNat_legal (by decide), fixedBytes_legal _ (by decide)⟩, by simp⟩
  exact r.decode_pairs (List.Perm.of_eq (List.append_nil _).symm) (fun p hp => absurd hp (List.not_mem_nil)) hlegal

end VouchRequest

namespace AnswerSlots

def fill : ℤ → Item → Option (AnswerSlots → AnswerSlots)
  | 1, i => (u8Of i).map fun v s => { s with outcome := some v }
  | 2, i => (u32Of i).map fun v s => { s with epoch := some v }
  | 3, i => (u32Of i).map fun v s => { s with clientId := some v }
  | 4, i => (u32Of i).map fun v s => { s with generation := some v }
  | 5, i => (fixedOf 16 i).map fun v s => { s with tag := some v }
  | _, _ => none

def has : AnswerSlots → ℤ → Bool
  | s, 1 => s.outcome.isSome
  | s, 2 => s.epoch.isSome
  | s, 3 => s.clientId.isSome
  | s, 4 => s.generation.isSome
  | s, 5 => s.tag.isSome
  | _, _ => false

abbrev Known (k : ℤ) : Prop := 1 ≤ k ∧ k ≤ 5

def take : ℤ → AnswerSlots → Item → Option AnswerSlots := slotStep has fill Known

def ofItem (i : Item) : Option AnswerSlots := i.pairs?.bind fun pairs => foldPairs take pairs empty

theorem known_cases {k : ℤ} (h : Known k) : k = 1 ∨ k = 2 ∨ k = 3 ∨ k = 4 ∨ k = 5 := by
  obtain ⟨hlow, hhigh⟩ := h
  omega

theorem own_slots : OwnSlots has fill Known := by
  constructor
  · intro k j i put s hk hj hput
    rcases known_cases hk with rfl | rfl | rfl | rfl | rfl
    all_goals
      obtain ⟨v, -, rfl⟩ := Option.map_eq_some_iff.mp hput
      rcases known_cases hj with rfl | rfl | rfl | rfl | rfl <;> rfl
  · intro k j i i' put put' s hk hj hkj hput hput'
    rcases known_cases hk with rfl | rfl | rfl | rfl | rfl
    all_goals
      obtain ⟨v, -, rfl⟩ := Option.map_eq_some_iff.mp hput
      rcases known_cases hj with rfl | rfl | rfl | rfl | rfl
      all_goals
        obtain ⟨w, -, rfl⟩ := Option.map_eq_some_iff.mp hput'
        first | rfl | exact absurd rfl hkj

theorem any_order : AnyOrder take := slotStep_order own_slots

theorem take_unknown (k : ℤ) (s : AnswerSlots) (i : Item) (hk : ¬Known k) : take k s i = some s := slotStep_unknown hk s i

theorem steps : Steps (fun _ => True) d step take Known fun _ s => s := by
  constructor
  · intro k s hk
    rcases known_cases hk with rfl | rfl | rfl | rfl | rfl
    · exact slotStep_reads (.u8 fun _ => trivial) trivial hk rfl (fun _ => rfl) fun _ => rfl
    · exact slotStep_reads (.u32 fun _ => trivial) trivial hk rfl (fun _ => rfl) fun _ => rfl
    · exact slotStep_reads (.u32 fun _ => trivial) trivial hk rfl (fun _ => rfl) fun _ => rfl
    · exact slotStep_reads (.u32 fun _ => trivial) trivial hk rfl (fun _ => rfl) fun _ => rfl
    · exact slotStep_reads (fixedBytes_reads 16 .tag) trivial hk rfl (fun _ => rfl) fun _ => rfl
  · intro k s hk
    unfold step
    split <;> first | rfl | exact absurd (by decide) hk

theorem reads : Reads (fun _ => True) (d + 1) read ofItem := by
  apply Reads.mapFrom (fun _ => trivial) steps (slotStep_fills own_slots)
  intro j hj
  rcases known_cases hj with rfl | rfl | rfl | rfl | rfl <;> simp [has, empty]

theorem outcome_kept {raw : UInt8} (k : ℤ) (s : AnswerSlots) (i : Item) (s' : AnswerSlots) (h : take k s i = some s')
    (hs : s.outcome = some raw) : s'.outcome = some raw := by
  by_cases hk : Known k
  · obtain ⟨hempty, put, hput, rfl⟩ := (slotStep_some hk).mp h
    rcases known_cases hk with rfl | rfl | rfl | rfl | rfl
    · simp [has, hs] at hempty
    all_goals
      obtain ⟨v, -, rfl⟩ := Option.map_eq_some_iff.mp hput
      exact hs
  · rw [take_unknown k s i hk, Option.some.injEq] at h
    rw [← h]
    exact hs

theorem fold_outcome {here : List (Key × Item)} {s : AnswerSlots} (hfresh : (ranks here).Nodup)
    (h : foldPairs take here empty = some s) {p : Key × Item} (hp : p ∈ here) (hkey : p.1.i64? = some 1) :
    s.outcome = u8Of p.2 := by
  obtain ⟨before, after, rfl⟩ := List.append_of_mem hp
  rw [foldPairs_perm any_order List.perm_middle hfresh] at h
  obtain ⟨k, hk, h⟩ := Option.bind_eq_some_iff.mp h
  obtain rfl := Option.some.inj (hkey.symm.trans hk)
  obtain ⟨s₁, hs₁, h⟩ := Option.bind_eq_some_iff.mp h
  obtain ⟨-, put, hput, rfl⟩ := (slotStep_some (by decide)).mp hs₁
  obtain ⟨raw, hraw, rfl⟩ := Option.map_eq_some_iff.mp hput
  rw [hraw]
  exact foldPairs_kept outcome_kept h rfl

end AnswerSlots

def Carried (k : ℤ) : Prop := 2 ≤ k ∧ k ≤ 5

theorem carried_cases {k : ℤ} (h : Carried k) : k = 2 ∨ k = 3 ∨ k = 4 ∨ k = 5 := by
  obtain ⟨hlow, hhigh⟩ := h
  omega

namespace AnswerSlots

variable (s : AnswerSlots) {k : ℤ}

theorem answer_vouched (hraw : s.outcome = some 1) (hk : Carried k) (hempty : s.has k = false) :
    s.answer = .error .outcomeDisagrees := by
  obtain ⟨raw, epoch, clientId, generation, tag⟩ := s
  obtain rfl : raw = some 1 := hraw
  rcases carried_cases hk with rfl | rfl | rfl | rfl
  · cases epoch with
    | none => rfl
    | some _ => cases hempty
  · cases clientId with
    | none => cases epoch <;> rfl
    | some _ => cases hempty
  · cases generation with
    | none => cases epoch <;> cases clientId <;> rfl
    | some _ => cases hempty
  · cases tag with
    | none => cases epoch <;> cases clientId <;> cases generation <;> rfl
    | some _ => cases hempty

theorem answer_bad (hraw : s.outcome = some 2) (hk : Carried k) (hfull : s.has k = true) :
    s.answer = .error .outcomeDisagrees := by
  obtain ⟨raw, epoch, clientId, generation, tag⟩ := s
  obtain rfl : raw = some 2 := hraw
  have hany : (epoch.isSome || clientId.isSome || generation.isSome || tag.isSome) = true := by
    rcases carried_cases hk with rfl | rfl | rfl | rfl
    all_goals
      have hsome : Option.isSome _ = true := hfull
      simp [hsome]
  show (if (epoch.isSome || clientId.isSome || generation.isSome || tag.isSome) = true then
    (Except.error .outcomeDisagrees : Except VouchError VouchAnswer) else .ok .badVerifier) = _
  rw [if_pos hany]

end AnswerSlots

def Disagrees (here : List (Key × Item)) : Outcome → Prop
  | .vouched => ∃ k, Carried k ∧ ¬HasKey here k
  | .badVerifier => ∃ k, Carried k ∧ HasKey here k

namespace VouchAnswer

def outcome : VouchAnswer → Outcome
  | vouched .. => .vouched
  | badVerifier => .badVerifier

def pairs : VouchAnswer → List (Key × Item)
  | vouched epoch clientId generation tag =>
    [(Key.ofNat 1, .ofNat Outcome.vouched.byte.toNat), (Key.ofNat 2, .ofNat epoch.get.toNat),
      (Key.ofNat 3, .ofNat clientId.get.toNat), (Key.ofNat 4, .ofNat generation.get.toNat),
      (Key.ofNat 5, .ofBytes tag.toList)]
  | badVerifier => [(Key.ofNat 1, .ofNat Outcome.badVerifier.byte.toNat)]

def calls : VouchAnswer → List Call
  | vouched epoch clientId generation tag =>
    [.map 5, .key 1, .u64 Outcome.vouched.byte.toUInt64, .key 2, .u64 epoch.get.toUInt64, .key 3,
      .u64 clientId.get.toUInt64, .key 4, .u64 generation.get.toUInt64, .key 5, .bytes tag.toList]
  | badVerifier => [.map 1, .key 1, .u64 Outcome.badVerifier.byte.toUInt64]

theorem pairs_ascend (a : VouchAnswer) : Ascends none a.pairs := by
  cases a <;> simp [pairs, Ascends, Key.ofNat, Key.rank, KeyRank.le]

theorem pairs_few (a : VouchAnswer) : a.pairs.length < 2 ^ 64 := by
  cases a <;> simp [pairs]

theorem encodeInto_tells (a : VouchAnswer) : Tells a.encodeInto a.calls := by
  cases a with
  | vouched epoch clientId generation tag =>
    exact .cons (c := .map 5) <| .cons (c := .key 1) <| .cons (c := .u64 Outcome.vouched.byte.toUInt64) <|
      .cons (c := .key 2) <| .cons (c := .u64 epoch.get.toUInt64) <| .cons (c := .key 3) <|
      .cons (c := .u64 clientId.get.toUInt64) <| .cons (c := .key 4) <| .cons (c := .u64 generation.get.toUInt64) <|
      .cons (c := .key 5) <| .call (.bytes tag.toList)
  | badVerifier =>
    exact .cons (c := .map 1) <| .cons (c := .key 1) <| .call (.u64 Outcome.badVerifier.byte.toUInt64)

theorem writes (a : VouchAnswer) : Writes (d + 1) (writeAll a.calls) (.ofPairs a.pairs) := by
  cases a with
  | vouched epoch clientId generation tag =>
    have houtcome : WritesPairs d (writeAll [.key 1, .u64 Outcome.vouched.byte.toUInt64])
        [(Key.ofNat 1, .ofNat Outcome.vouched.byte.toNat)] :=
      .keyed (k := 1) (by decide) (writes_one (c := .u64 Outcome.vouched.byte.toUInt64) rfl)
    have hepoch : WritesPairs d (writeAll [.key 2, .u64 epoch.get.toUInt64])
        [(Key.ofNat 2, .ofNat epoch.get.toNat)] :=
      .keyed (k := 2) (by decide) (writes_one (c := .u64 epoch.get.toUInt64) rfl)
    have hclient : WritesPairs d (writeAll [.key 3, .u64 clientId.get.toUInt64])
        [(Key.ofNat 3, .ofNat clientId.get.toNat)] :=
      .keyed (k := 3) (by decide) (writes_one (c := .u64 clientId.get.toUInt64) rfl)
    have hgeneration : WritesPairs d (writeAll [.key 4, .u64 generation.get.toUInt64])
        [(Key.ofNat 4, .ofNat generation.get.toNat)] :=
      .keyed (k := 4) (by decide) (writes_one (c := .u64 generation.get.toUInt64) rfl)
    have htag : WritesPairs d (writeAll [.key 5, .bytes tag.toList]) [(Key.ofNat 5, .ofBytes tag.toList)] :=
      .keyed (k := 5) (by decide) (writes_one (c := .bytes tag.toList) rfl)
    exact writes_mapCalls (houtcome.both (hepoch.both (hclient.both (hgeneration.both htag)))) rfl (pairs_ascend _)
  | badVerifier =>
    have houtcome : WritesPairs d (writeAll [.key 1, .u64 Outcome.badVerifier.byte.toUInt64])
        [(Key.ofNat 1, .ofNat Outcome.badVerifier.byte.toNat)] :=
      .keyed (k := 1) (by decide) (writes_one (c := .u64 Outcome.badVerifier.byte.toUInt64) rfl)
    exact writes_mapCalls houtcome rfl (pairs_ascend _)

theorem encode_eq (a : VouchAnswer) {dst : ℕ} {out : Bytes} : a.encode dst = .ok out ↔
    out = (Item.ofPairs a.pairs).spelling ∧ (Item.ofPairs a.pairs).spelling.length ≤ dst :=
  encodeBody_item a.encodeInto_tells a.writes

def slots : VouchAnswer → AnswerSlots
  | vouched epoch clientId generation tag => ⟨some 1, some epoch.get, some clientId.get, some generation.get, some tag⟩
  | badVerifier => ⟨some 2, none, none, none, none⟩

theorem slots_fold (a : VouchAnswer) : foldPairs AnswerSlots.take a.pairs .empty = some a.slots := by
  have hvouched : u8Of (.ofNat 1) = some 1 := u8Of_ofNat 1
  have hbad : u8Of (.ofNat 2) = some 2 := u8Of_ofNat 2
  cases a with
  | vouched epoch clientId generation tag =>
    simp only [pairs, foldPairs, Key.ofNat_i64 (show 1 ≤ i64Max by decide), Key.ofNat_i64 (show 2 ≤ i64Max by decide),
      Key.ofNat_i64 (show 3 ≤ i64Max by decide), Key.ofNat_i64 (show 4 ≤ i64Max by decide),
      Key.ofNat_i64 (show 5 ≤ i64Max by decide), Option.bind_some]
    simp [AnswerSlots.take, slotStep, AnswerSlots.Known, AnswerSlots.has, AnswerSlots.fill, AnswerSlots.empty,
      fixedOf_ofBytes, u32Of_ofNat, hvouched, slots, Outcome.byte]
  | badVerifier =>
    simp only [pairs, foldPairs, Key.ofNat_i64 (show 1 ≤ i64Max by decide), Option.bind_some]
    simp [AnswerSlots.take, slotStep, AnswerSlots.Known, AnswerSlots.has, AnswerSlots.fill, AnswerSlots.empty,
      hbad, slots, Outcome.byte]

theorem slots_answer (a : VouchAnswer) : a.slots.answer = .ok a := by
  cases a with
  | vouched epoch clientId generation tag =>
    have hzero : ∀ (field : VouchField) (n : NonZeroU32), nonZero field n.get = .ok n := by
      intro field n
      rw [nonZero, NonZeroU32.new_get]
    show (do
      let epoch ← nonZero .epoch epoch.get
      let clientId ← nonZero .clientId clientId.get
      let generation ← nonZero .generation generation.get
      .ok (.vouched epoch clientId generation tag)) = Except.ok (VouchAnswer.vouched epoch clientId generation tag)
    rw [hzero, hzero, hzero]
    rfl
  | badVerifier => rfl

theorem decode_pairs (a : VouchAnswer) {w : Width} {here extra : List (Key × Item)}
    (hhere : here.Perm (a.pairs ++ extra)) (hextra : Unread AnswerSlots.Known extra)
    (hlegal : (Item.map w here).Legal maxDepth) : decode (Item.map w here).spelling = .ok a := by
  have hfold : foldPairs AnswerSlots.take here .empty = some a.slots := by
    rw [foldPairs_known AnswerSlots.any_order AnswerSlots.take_unknown hhere hlegal.2.1 hextra]
    exact a.slots_fold
  rw [decode, decodeBody_item (AnswerSlots.reads (d := 7)) hlegal hfold]
  exact a.slots_answer

theorem decode_encode (a : VouchAnswer) {dst : ℕ} {out : Bytes} (h : a.encode dst = .ok out) : decode out = .ok a := by
  obtain ⟨rfl, -⟩ := a.encode_eq.mp h
  have hnumber : ∀ n : UInt32, (Item.ofNat n.toNat).Legal 7 := fun n => Item.ofNat_legal (by have := n.toNat_lt; omega)
  have hlegal : (Item.ofPairs a.pairs).Legal maxDepth := by
    cases a with
    | vouched epoch clientId generation tag =>
      refine Item.ofPairs_legal (pairs_few _) (pairs_ascend _) ?_
      simp only [pairs, List.forall_mem_cons]
      exact ⟨⟨Key.ofNat_legal (by decide), Item.ofNat_legal (by decide)⟩,
        ⟨Key.ofNat_legal (by decide), hnumber _⟩, ⟨Key.ofNat_legal (by decide), hnumber _⟩,
        ⟨Key.ofNat_legal (by decide), hnumber _⟩, ⟨Key.ofNat_legal (by decide), fixedBytes_legal _ (by decide)⟩, by simp⟩
    | badVerifier =>
      refine Item.ofPairs_legal (pairs_few _) (pairs_ascend _) ?_
      simp only [pairs, List.forall_mem_cons]
      exact ⟨⟨Key.ofNat_legal (by decide), Item.ofNat_legal (by decide)⟩, by simp⟩
  exact a.decode_pairs (List.Perm.of_eq (List.append_nil _).symm) (fun p hp => absurd hp List.not_mem_nil) hlegal

theorem decode_disagrees {w : Width} {here : List (Key × Item)} (hlegal : (Item.map w here).Legal maxDepth)
    {p : Key × Item} (hp : p ∈ here) (hkey : p.1.i64? = some 1) {outcome : Outcome}
    (houtcome : u8Of p.2 = some outcome.byte) (hdisagrees : Disagrees here outcome) :
    ∃ why, decode (Item.map w here).spelling = .error why := by
  rcases decodeBody_cases (fun _ => trivial) (AnswerSlots.reads (d := 7)) (Item.map w here).spelling with
    ⟨i, s, hi, hspell, hfold, hok⟩ | ⟨-, why, herror, -⟩
  · obtain rfl := Item.spelling_inj hi hlegal hspell
    refine ⟨.outcomeDisagrees, ?_⟩
    have hraw : s.outcome = some outcome.byte := by
      rw [AnswerSlots.fold_outcome hlegal.2.1 hfold hp hkey, houtcome]
    have hfilled : ∀ k, Carried k → (s.has k = true ↔ HasKey here k) := by
      intro k hk
      have hknown : AnswerSlots.Known k := ⟨by have := hk.1; omega, hk.2⟩
      rw [foldPairs_filled (slotStep_fills AnswerSlots.own_slots) hfold hknown]
      rcases AnswerSlots.known_cases hknown with rfl | rfl | rfl | rfl | rfl <;> simp [AnswerSlots.has, AnswerSlots.empty]
    rw [decode, hok]
    show s.answer = _
    cases outcome with
    | vouched =>
      obtain ⟨k, hk, hmissing⟩ := hdisagrees
      have hempty : s.has k = false := Bool.eq_false_iff.mpr fun h => hmissing ((hfilled k hk).mp h)
      exact s.answer_vouched hraw hk hempty
    | badVerifier =>
      obtain ⟨k, hk, hpresent⟩ := hdisagrees
      exact s.answer_bad hraw hk ((hfilled k hk).mpr hpresent)
  · rw [decode, herror]
    exact ⟨why, rfl⟩

end VouchAnswer

end Km43.Vouch
