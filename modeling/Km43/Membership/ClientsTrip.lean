import Km43.Membership.ClientRows

namespace Km43.Membership

open Library Library.StepParser Identity Invite Cbor CborReader CborWriter Link

namespace Rows

variable {R : Type} [Row R] {d : ℕ}

/-- A list goes out as one item, wherever there is this much depth left. -/
structure Spells (d : ℕ) (list : Rows R) (i : Item) : Prop where
  legal : i.Legal d
  writes : ∃ calls, Tells list.encode calls ∧ Writes d (writeAll calls) i

theorem read_spells {i : Item} (hi : i.Legal d) (count : ℕ) : Spells d (.read i.spelling count : Rows R) i :=
  ⟨hi, [.raw i.spelling], .call (.raw i.spelling), writes_one (c := .raw i.spelling) ⟨hi, rfl⟩⟩

variable [RowLaws R] {rows : List R}

def rowsItem (rows : List R) : Item := .ofItems (rows.map RowLaws.item)

theorem rowsItem_legal (h : Sound rows) : (rowsItem rows).Legal (d + 2) := by
  have hfew := h.few.trans_lt (RowLaws.few (R := R))
  apply Item.ofItems_legal
  · rw [List.length_map]
    exact hfew.trans (by decide)
  · intro i hi
    obtain ⟨row, hrow, rfl⟩ := List.mem_map.mp hi
    exact RowLaws.legal d row (h.fits row hrow)

theorem rowsItem_length (h : Sound rows) :
    (rowsItem rows).spelling.length ≤ 1 + Row.max R * RowLaws.width (R := R) := by
  have hfew := h.few
  have hall := spellAll_length (rows.map RowLaws.item) (c := RowLaws.width (R := R)) (by
    intro i hi
    obtain ⟨row, hrow, rfl⟩ := List.mem_map.mp hi
    exact RowLaws.length row (h.fits row hrow))
  rw [List.length_map] at hall
  have hshort : (rows.map RowLaws.item).length < 24 := by
    rw [List.length_map]
    exact hfew.trans_lt (RowLaws.few (R := R))
  rw [rowsItem, ofItems_length hshort]
  have hmul := Nat.mul_le_mul_right (RowLaws.width (R := R)) hfew
  omega

/-- A list of these rows and no others, each of them read without an error. -/
structure Holds (list : Rows R) (rows : List R) : Prop where
  len : list.len = rows.length
  items : list.items = rows.map .ok

omit [RowLaws R] in
theorem Holds.same [DecidableEq R] {a b : Rows R} (ha : a.Holds rows) (hb : b.Holds rows) : a.same b = true :=
  same_of_rows (ha.len.trans hb.len.symm) ha.items hb.items

omit [RowLaws R] in
theorem items_read {item : Bytes} {count : ℕ} {r : CborReader} (h : CborReader.array (.new item) = .ok (count, r)) :
    items (.read item count : Rows R) = RowIter.walk count ⟨[], r, count, .ok ()⟩ := by
  rw [items]
  simp only [iter, h, len]

theorem rowsItem_read (h : Sound rows) :
    ∃ list : Rows R, ofArray (rowsItem rows).spelling = .ok list ∧ list.Holds rows := by
  have hlegal : (rowsItem rows).Legal maxDepth := rowsItem_legal h
  rcases array_head hlegal with ⟨w, elems, r, heq, harray, ⟨level, base, hat⟩, hrest⟩ | ⟨hnone, -⟩
  · obtain ⟨-, rfl⟩ := Item.array.inj heq
    rw [List.length_map] at harray hat
    rw [← List.append_nil (Item.spellAll _)] at hrest
    have hitems : items (.read (rowsItem rows).spelling rows.length) = rows.map .ok := by
      rw [items_read harray]
      exact RowIter.walk_read h.fits hat hrest
    have hcheck : check (.read (rowsItem rows).spelling rows.length : Rows R) = .ok () :=
      (check_items hitems).mpr ⟨h.few, h.fits, h.follow⟩
    exact ⟨_, ofArray_ok.mpr ⟨rows.length, r, harray, h.few, rfl, hcheck⟩, rfl, hitems⟩
  · cases hnone

theorem built_spells (h : Sound rows) : Spells (d + 2) (.built rows) (rowsItem rows) := by
  have hfew := h.few.trans_lt (RowLaws.few (R := R))
  have hcount : (UInt64.ofNat rows.length).toNat = rows.length := UInt64.toNat_ofNat_of_lt' (hfew.trans (by decide))
  have htells : Tells (encode (.built rows)) (.array (UInt64.ofNat rows.length) :: rows.flatMap RowLaws.calls) := by
    have hrows := Tells.cons (c := .array (UInt64.ofNat rows.length))
      (Tells.forM_mem fun row hrow => RowLaws.tells row (h.fits row hrow))
    rw [show (Call.array (UInt64.ofNat rows.length)).write = CborWriter.array rows.length by rw [Call.write, hcount]]
      at hrows
    exact hrows
  have hwrites : Writes (d + 2) (writeAll (.array (UInt64.ofNat rows.length) :: rows.flatMap RowLaws.calls))
      (rowsItem rows) := by
    apply writes_arrayCalls
    · exact WritesItems.flatMap fun row hrow => RowLaws.writes d row (h.fits row hrow)
    · rw [List.length_map, hcount]
  exact ⟨rowsItem_legal h, _, htells, hwrites⟩

def Lists (Stands : Item → R → Prop) (i : Item) (rows : List R) : Prop :=
  ∃ w elems, i = .array w elems ∧ List.Forall₂ Stands elems rows

/-- A list goes out as one item, and the list read from it has the same rows. -/
structure Carries (list : Rows R) (i : Item) (list' : Rows R) (rows : List R) : Prop where
  spells : Spells 7 list i
  read : ofArray i.spelling = .ok list'
  sent : list.Holds rows
  read_back : list'.Holds rows

theorem built_carries (h : Sound rows) : ∃ list', Carries (.built rows) (rowsItem rows) list' rows := by
  obtain ⟨list', hread, hholds⟩ := rowsItem_read h
  have hspells : Spells (5 + 2) (.built rows) (rowsItem rows) := built_spells h
  exact ⟨list', hspells, hread, ⟨rfl, items_built rows⟩, hholds⟩

theorem read_carries {i : Item} (hi : i.Legal 7) {list : Rows R} (h : ofArray i.spelling = .ok list) :
    ∃ rows, Carries list i list rows ∧ Lists RowLaws.Stands i rows ∧ Sound rows := by
  obtain ⟨count, r, harray, -, rfl, hcheck⟩ := ofArray_ok.mp h
  obtain ⟨rows, hrows, hsound⟩ := check_sound hcheck
  rcases array_head (hi.mono (by decide)) with ⟨w, elems, r', rfl, harray', ⟨level, base, hat⟩, hrest⟩ | ⟨-, why, harray'⟩
  · obtain ⟨rfl, rfl⟩ := Prod.mk.inj (Except.ok.inj (harray.symm.trans harray'))
    rw [← List.append_nil (Item.spellAll _)] at hrest
    have hlegal : ∀ e ∈ elems, e.Legal (6 + 1) := fun e he => (hi.2 e he).mono (by decide)
    have hstands := RowIter.walk_elements hlegal hat hrest ((items_read harray).symm.trans hrows)
    have hholds : Holds (.read (Item.array w elems).spelling elems.length) rows := ⟨hstands.length_eq, hrows⟩
    exact ⟨rows, ⟨read_spells hi _, h, hholds, hholds⟩, ⟨w, elems, rfl, hstands⟩, hsound⟩
  · rw [harray'] at harray
    cases harray

end Rows

namespace ClientsAnswer

def items (i j : Item) : List (AnswerKey × Item) := [(.clients, i), (.invites, j)]

theorem items_rising (i j : Item) : Rising (items i j) := by
  simp [Rising, items]
  decide

theorem encode_iff {answer : ClientsAnswer} {i j : Item} (hi : answer.clients.Spells 7 i) (hj : answer.invites.Spells 7 j)
    {dst : ℕ} {out : Bytes} : answer.encode dst = .ok out ↔
      out = (bodyItem (items i j)).spelling ∧ (bodyItem (items i j)).spelling.length ≤ dst := by
  obtain ⟨clients, hclients, hwritesClients⟩ := hi.writes
  obtain ⟨invites, hinvites, hwritesInvites⟩ := hj.writes
  have htells : Tells answer.encodeInto (.map 2 :: entryCalls [(AnswerKey.clients, clients), (.invites, invites)]) := by
    have hlast : Tells answer.invites.encode (invites ++ []) := by rwa [List.append_nil]
    exact .cons (c := .map 2) <| .cons (c := .key 1) <| hclients.append <| .cons (c := .key 2) hlast
  have hspelled : Spelled 7 [(AnswerKey.clients, clients), (.invites, invites)] (items i j) :=
    .cons ⟨rfl, hwritesClients⟩ (.cons ⟨rfl, hwritesInvites⟩ .nil)
  exact encodeBody_item htells (bodyItem_writes hspelled (items_rising i j) rfl)

theorem raw_takes (i : Item) : some i.spelling = (.ok i.spelling : Except ClientsError Bytes).toOption := rfl

def arms (k : AnswerKey) : table.Arm 7 (fun _ i => some i.spelling) k := .kept .ok raw_checked raw_takes

def slots (clients invites : Bytes) : table.Slots
  | .clients => some clients
  | .invites => some invites

theorem ofSlots_ok {s : table.Slots} {answer : ClientsAnswer} : ofSlots s = .ok answer ↔
    ∃ clients invites, s = slots clients invites ∧ Rows.ofArray clients = .ok answer.clients ∧
      Rows.ofArray invites = .ok answer.invites := by
  simp only [ofSlots, bind_ok, slotRequired_ok]
  constructor
  · rintro ⟨clients, h₁, list, hclients, invites, h₂, list', hinvites, ⟨⟩⟩
    refine ⟨clients, invites, ?_, hclients, hinvites⟩
    funext k
    cases k <;> assumption
  · rintro ⟨clients, invites, rfl, hclients, hinvites⟩
    exact ⟨clients, rfl, _, hclients, invites, rfl, _, hinvites, rfl⟩

theorem decode_items {i j : Item} (hi : i.Legal 7) (hj : j.Legal 7) {answer : ClientsAnswer}
    (hclients : Rows.ofArray i.spelling = .ok answer.clients) (hinvites : Rows.ofArray j.spelling = .ok answer.invites) :
    decode (bodyItem (items i j)).spelling = .ok answer := by
  have hslots : decodeBody table.slots (bodyItem (items i j)).spelling = .ok (slots i.spelling j.spelling) := by
    apply (Table.arms_decode arms).entries (items_rising i j)
    · simp only [items, List.forall_mem_cons]
      exact ⟨hi, hj, by simp⟩
    · simp only [items, List.forall_mem_cons]
      exact ⟨⟨rfl, rfl⟩, ⟨rfl, rfl⟩, by simp⟩
    · intro k hk
      cases k <;> simp [items] at hk
  exact bind_ok.mpr ⟨_, hslots, ofSlots_ok.mpr ⟨_, _, rfl, hclients, hinvites⟩⟩

theorem decode_ok {payload : Bytes} {answer : ClientsAnswer} (h : decode payload = .ok answer) :
    ∃ w ps i j, (Item.map w ps).Legal maxDepth ∧ (Item.map w ps).spelling = payload ∧ valueAt ps 1 = some i ∧
      valueAt ps 2 = some j ∧ Rows.ofArray i.spelling = .ok answer.clients ∧
      Rows.ofArray j.spelling = .ok answer.invites := by
  obtain ⟨s, hs, hanswer⟩ := bind_ok.mp h
  obtain ⟨clients, invites, rfl, hclients, hinvites⟩ := ofSlots_ok.mp hanswer
  obtain ⟨w, ps, hlegal, hspell, -, hslots⟩ := (Table.arms_decode arms _ _).mp hs
  obtain ⟨i, hi, hclient⟩ := (Table.slotOf_holds rfl).mp (hslots .clients)
  obtain ⟨j, hj, hinvite⟩ := (Table.slotOf_holds rfl).mp (hslots .invites)
  obtain rfl := Option.some.inj hclient
  obtain rfl := Option.some.inj hinvite
  exact ⟨w, ps, i, j, hlegal, hspell, hi, hj, hclients, hinvites⟩

theorem items_spelling (i j : Item) :
    (bodyItem (items i j)).spelling = 0xA2 :: 0x01 :: (i.spelling ++ 0x02 :: j.spelling) := by
  have hmap : (bodyItem (items i j)).spelling = [0xA2] ++ ([0x01] ++ i.spelling ++ ([0x02] ++ j.spelling ++ [])) := rfl
  rw [hmap]
  simp

end ClientsAnswer

/-- At most as many clients as there are slots, lowest first and none twice. -/
structure ClientsSound (rows : List ClientRow) : Prop where
  few : rows.length ≤ maxClients
  rising : rows.Pairwise fun a b => a.clientId.get < b.clientId.get
  labels : ∀ row ∈ rows, row.label.raw.length ≤ maxLabel

/-- At most as many invites as may be pending, no two of one name, each with a label and at most an hour. -/
structure InvitesSound (rows : List InviteRow) : Prop where
  few : rows.length ≤ maxInvites
  distinct : (rows.map InviteRow.nonce).Nodup
  labels : ∀ row ∈ rows, 1 ≤ row.label.raw.length ∧ row.label.raw.length ≤ maxLabel
  deadlines : ∀ row ∈ rows, row.expiresIn.toNat ≤ 3600

theorem clients_sound {rows : List ClientRow} : Rows.Sound rows ↔ ClientsSound rows := by
  have hfollow : ∀ a b : ClientRow, Row.follows b a = .ok () ↔ a.clientId.get < b.clientId.get := by
    intro a b
    change ClientRow.follows b a = .ok () ↔ _
    unfold ClientRow.follows
    rw [← UInt32.not_le]
    split_ifs with h <;> simp [h]
  constructor
  · rintro ⟨hfew, hfits, hpairs⟩
    exact ⟨hfew, hpairs.imp fun {a b} => (hfollow a b).mp, fun row hrow => ClientRow.check_ok.mp (hfits row hrow)⟩
  · rintro ⟨hfew, hrising, hlabels⟩
    exact ⟨hfew, fun row hrow => ClientRow.check_ok.mpr (hlabels row hrow), hrising.imp fun {a b} => (hfollow a b).mpr⟩

theorem invites_sound {rows : List InviteRow} : Rows.Sound rows ↔ InvitesSound rows := by
  have hfollow : ∀ a b : InviteRow, Row.follows b a = .ok () ↔ a.nonce ≠ b.nonce := by
    intro a b
    change InviteRow.follows b a = .ok () ↔ _
    unfold InviteRow.follows
    split_ifs with h
    · simp [h]
    · simp [Ne.symm h]
  constructor
  · rintro ⟨hfew, hfits, hpairs⟩
    have hchecked := fun row hrow => InviteRow.check_ok.mp (hfits row hrow)
    refine ⟨hfew, ?_, fun row hrow => (hchecked row hrow).1, fun row hrow => (hchecked row hrow).2⟩
    rw [List.Nodup, List.pairwise_map]
    exact hpairs.imp fun {a b} => (hfollow a b).mp
  · rintro ⟨hfew, hdistinct, hlabels, hdeadlines⟩
    refine ⟨hfew, fun row hrow => InviteRow.check_ok.mpr ⟨hlabels row hrow, hdeadlines row hrow⟩, ?_⟩
    rw [List.Nodup, List.pairwise_map] at hdistinct
    exact hdistinct.imp fun {a b} => (hfollow a b).mpr

def clientsMaxBytes : ℕ := 5 + maxClients * clientRowMaxBytes + maxInvites * inviteRowMaxBytes

theorem ClientsAnswer.new_ok {clients : List ClientRow} {invites : List InviteRow} {answer : ClientsAnswer} :
    new clients invites = .ok answer ↔
      ClientsSound clients ∧ InvitesSound invites ∧ answer = ⟨.built clients, .built invites⟩ := by
  have hnew : new clients invites = .ok answer ↔ Rows.check (.built clients) = .ok () ∧
      Rows.check (.built invites) = .ok () ∧ (.ok ⟨.built clients, .built invites⟩ : Except ClientsError _) = .ok answer :=
    seq_ok.trans (and_congr_right fun _ => seq_ok)
  rw [hnew, Rows.built_check, Rows.built_check, clients_sound, invites_sound, Except.ok.injEq, eq_comm (a := answer)]

/-- Rows a controller built go out within the bound and come back as those very rows; rows that were read are the elements
of the arrays they arrived in, as sound as built ones, walked without an error as often as they are asked for, and go out
as the bytes they arrived in. -/
theorem clients_carried :
    (∀ clients invites, (∃ answer, ClientsAnswer.new clients invites = .ok answer) ↔
      ClientsSound clients ∧ InvitesSound invites) ∧
    (∀ clients invites answer, ClientsAnswer.new clients invites = .ok answer →
      answer.clients.Holds clients ∧ answer.invites.Holds invites ∧
      ∃ bytes answer', bytes.length ≤ clientsMaxBytes ∧
        (∀ dst out, answer.encode dst = .ok out ↔ out = bytes ∧ bytes.length ≤ dst) ∧
        ClientsAnswer.decode bytes = .ok answer' ∧
        answer'.clients.Holds clients ∧ answer'.invites.Holds invites ∧ answer.same answer' = true) ∧
    ∀ payload answer, ClientsAnswer.decode payload = .ok answer →
      (∀ n, ∀ x ∈ answer.clients.iter.walk n, ∃ row, x = .ok row) ∧
      (∀ n, ∀ x ∈ answer.invites.iter.walk n, ∃ row, x = .ok row) ∧
      ∃ w ps i j clients invites bytes, (Item.map w ps).Legal maxDepth ∧ (Item.map w ps).spelling = payload ∧
        valueAt ps 1 = some i ∧ valueAt ps 2 = some j ∧
        Rows.Lists ClientRow.Stands i clients ∧ Rows.Lists InviteRow.Stands j invites ∧
        answer.clients.Holds clients ∧ answer.invites.Holds invites ∧
        ClientsSound clients ∧ InvitesSound invites ∧
        bytes = 0xA2 :: 0x01 :: (i.spelling ++ 0x02 :: j.spelling) ∧
        (∀ dst out, answer.encode dst = .ok out ↔ out = bytes ∧ bytes.length ≤ dst) ∧
        ClientsAnswer.decode bytes = .ok answer ∧ answer.same answer = true := by
  refine ⟨?_, ?_, ?_⟩
  · intro clients invites
    simp only [ClientsAnswer.new_ok]
    constructor
    · rintro ⟨answer, hclients, hinvites, -⟩
      exact ⟨hclients, hinvites⟩
    · rintro ⟨hclients, hinvites⟩
      exact ⟨_, hclients, hinvites, rfl⟩
  · intro clients invites answer hnew
    obtain ⟨hclients, hinvites, rfl⟩ := ClientsAnswer.new_ok.mp hnew
    obtain ⟨list, hlist⟩ := Rows.built_carries (clients_sound.mpr hclients)
    obtain ⟨list', hlist'⟩ := Rows.built_carries (invites_sound.mpr hinvites)
    have hlen := Rows.rowsItem_length (clients_sound.mpr hclients)
    have hlen' := Rows.rowsItem_length (invites_sound.mpr hinvites)
    refine ⟨hlist.sent, hlist'.sent, _, ⟨list, list'⟩, ?_,
      fun dst out => ClientsAnswer.encode_iff hlist.spells hlist'.spells,
      ClientsAnswer.decode_items hlist.spells.legal hlist'.spells.legal hlist.read hlist'.read, hlist.read_back,
      hlist'.read_back, ?_⟩
    · rw [ClientsAnswer.items_spelling]
      simp only [List.length_cons, List.length_append]
      change _ ≤ 5 + Row.max ClientRow * RowLaws.width ClientRow + Row.max InviteRow * RowLaws.width InviteRow
      omega
    · rw [ClientsAnswer.same, hlist.sent.same hlist.read_back, hlist'.sent.same hlist'.read_back, Bool.true_and]
  · intro payload answer hdecode
    obtain ⟨w, ps, i, j, hlegal, hspell, hi, hj, hclients, hinvites⟩ := ClientsAnswer.decode_ok hdecode
    have hlegalAt : ∀ {n : ℤ} {v : Item}, valueAt ps n = some v → v.Legal 7 := by
      intro n v hv
      obtain ⟨k, -, hmem⟩ := valueAt_mem hv
      exact (hlegal.2.2 _ hmem).2
    obtain ⟨clients, hcarries, hlists, hsound⟩ := Rows.read_carries (hlegalAt hi) hclients
    obtain ⟨invites, hcarries', hlists', hsound'⟩ := Rows.read_carries (hlegalAt hj) hinvites
    obtain ⟨-, -, -, -, -, hcheck⟩ := Rows.ofArray_ok.mp hclients
    obtain ⟨-, -, -, -, -, hcheck'⟩ := Rows.ofArray_ok.mp hinvites
    refine ⟨Rows.check_walk hcheck, Rows.check_walk hcheck', w, ps, i, j, clients, invites, _, hlegal, hspell, hi, hj,
      hlists, hlists', hcarries.sent, hcarries'.sent, clients_sound.mp hsound, invites_sound.mp hsound',
      ClientsAnswer.items_spelling i j, fun dst out => ClientsAnswer.encode_iff hcarries.spells hcarries'.spells,
      ClientsAnswer.decode_items hcarries.spells.legal hcarries'.spells.legal hclients hinvites, ?_⟩
    rw [ClientsAnswer.same, hcarries.sent.same hcarries.sent, hcarries'.sent.same hcarries'.sent, Bool.true_and]

end Km43.Membership
