import Km43.Cbor.Packed
import Km43.Cbor.Whole
import Km43.Wifi.Lists
import Km43.Wifi.Scan

namespace Km43.Wifi

open Library Library.StepParser Cbor CborReader CborWriter

def rowsItem (rows : List AccessPoint) : Item := .ofItems (rows.map AccessPoint.item)

theorem rowsItem_legal {d : ℕ} {rows : List AccessPoint} (h : ScanList.Sound rows) :
    (rowsItem rows).Legal (d + 2) := by
  have hfew := h.few
  apply Item.ofItems_legal
  · rw [List.length_map]
    exact hfew.trans_lt (by decide)
  · intro i hi
    obtain ⟨row, hrow, rfl⟩ := List.mem_map.mp hi
    exact AccessPoint.item_legal (h.fits row hrow)

theorem rowsItem_read {rows : List AccessPoint} (h : ScanList.Sound rows) (unlisted : UInt16) :
    ∃ list, ScanList.read (rowsItem rows).spelling unlisted = .ok list ∧ list.unlisted = unlisted ∧ list.Holds rows := by
  have hlegal : (rowsItem rows).Legal maxDepth := rowsItem_legal h
  rcases array_head hlegal with ⟨w, elems, r, heq, harray, ⟨level, base, hat⟩, hrest⟩ | ⟨hnone, -⟩
  · obtain ⟨-, rfl⟩ := Item.array.inj heq
    rw [List.length_map] at harray hat
    rw [← List.append_nil (Item.spellAll _)] at hrest
    have hitems : ScanList.items ⟨.read (rowsItem rows).spelling rows.length, unlisted⟩ = rows.map .ok := by
      have hiter : ScanList.iter ⟨.read (rowsItem rows).spelling rows.length, unlisted⟩ =
          ⟨[], r, rows.length, .ok ()⟩ := by
        simp only [ScanList.iter, harray]
      rw [ScanList.items, hiter]
      exact AccessPoints.walk_read h.fits hat hrest
    have hcheck : ScanList.check ⟨.read (rowsItem rows).spelling rows.length, unlisted⟩ = .ok () := by
      obtain ⟨⟨⟩, hcheck, -⟩ := bind_ok.mp ((@ScanList.new_ok rows unlisted _).mpr ⟨h, rfl⟩)
      rw [ScanList.check, ScanList.items_built] at hcheck
      rw [ScanList.check, hitems]
      exact hcheck
    exact ⟨_, ScanList.read_ok.mpr ⟨rows.length, r, harray, h.few, rfl, hcheck⟩, rfl, rfl, hitems⟩
  · cases hnone

/-- A list goes out as one item, wherever there is this much depth left. -/
structure Spells (d : ℕ) (list : ScanList) (i : Item) : Prop where
  legal : i.Legal d
  writes : ∃ calls, Tells list.encodeRows calls ∧ Writes d (writeAll calls) i

theorem built_spells {d : ℕ} {rows : List AccessPoint} (h : ScanList.Sound rows) (unlisted : UInt16) :
    Spells (d + 2) ⟨.built rows, unlisted⟩ (rowsItem rows) := by
  have hfew : rows.length ≤ 16 := h.few
  have hcount : (UInt64.ofNat rows.length).toNat = rows.length := UInt64.toNat_ofNat_of_lt' (hfew.trans_lt (by decide))
  have htells : Tells (ScanList.encodeRows ⟨.built rows, unlisted⟩)
      (.array (UInt64.ofNat rows.length) :: rows.flatMap AccessPoint.calls) := by
    have hrows := Tells.cons (c := .array (UInt64.ofNat rows.length))
      (Tells.forM_mem fun row hrow => AccessPoint.encodeInto_tells (h.fits row hrow))
    rw [show (Call.array (UInt64.ofNat rows.length)).write = CborWriter.array rows.length by rw [Call.write, hcount]]
      at hrows
    exact hrows
  have hwrites : Writes (d + 2) (writeAll (.array (UInt64.ofNat rows.length) :: rows.flatMap AccessPoint.calls))
      (rowsItem rows) := by
    apply writes_arrayCalls
    · exact WritesItems.flatMap fun row hrow => AccessPoint.writes (h.fits row hrow)
    · rw [List.length_map, hcount]
  exact ⟨rowsItem_legal h, _, htells, hwrites⟩

theorem read_spells {d : ℕ} {i : Item} (hi : i.Legal d) (count : ℕ) (unlisted : UInt16) :
    Spells d ⟨.read i.spelling count, unlisted⟩ i :=
  ⟨hi, [.raw i.spelling], .call (.raw i.spelling), writes_one (c := .raw i.spelling) ⟨hi, rfl⟩⟩

theorem built_holds (rows : List AccessPoint) (unlisted : UInt16) : ScanList.Holds ⟨.built rows, unlisted⟩ rows :=
  ⟨rfl, ScanList.items_built rows unlisted⟩

theorem built_equal {rows : List AccessPoint} (h : ScanList.Sound rows) (unlisted : UInt16) :
    ∃ list', ScanList.read (rowsItem rows).spelling unlisted = .ok list' ∧ list'.unlisted = unlisted ∧
      ScanList.Equal ⟨.built rows, unlisted⟩ list' := by
  obtain ⟨list', hread, hunlisted, hholds⟩ := rowsItem_read h unlisted
  exact ⟨list', hread, hunlisted, (built_holds rows unlisted).equal hholds hunlisted.symm⟩

theorem read_equal {item : Bytes} {unlisted : UInt16} {list : ScanList} (h : ScanList.read item unlisted = .ok list) :
    list.unlisted = unlisted ∧ list.Equal list := by
  obtain ⟨count, r, -, -, rfl, hcheck⟩ := ScanList.read_ok.mp h
  obtain ⟨rows, hholds⟩ := ScanList.check_holds hcheck
  exact ⟨rfl, hholds.equal hholds rfl⟩

/-- A list goes out as one item, and is read from it as the same list. -/
structure Carries (list : ScanList) (i : Item) (list' : ScanList) : Prop where
  legal : i.Legal (maxDepth - 1)
  writes : ∃ calls, Tells list.encodeRows calls ∧ Writes (maxDepth - 1) (writeAll calls) i
  read : ScanList.read i.spelling list.unlisted = .ok list'
  unlisted : list'.unlisted = list.unlisted
  equal : list.Equal list'

theorem built_carries {rows : List AccessPoint} (h : ScanList.Sound rows) (unlisted : UInt16) :
    ∃ list', Carries ⟨.built rows, unlisted⟩ (rowsItem rows) list' := by
  obtain ⟨list', hread, hunlisted, hequal⟩ := built_equal h unlisted
  have hspells : Spells (5 + 2) ⟨.built rows, unlisted⟩ (rowsItem rows) := built_spells h unlisted
  exact ⟨list', hspells.legal, hspells.writes, hread, hunlisted, hequal⟩

theorem read_carries {i : Item} (hi : i.Legal (maxDepth - 1)) {unlisted : UInt16} {list : ScanList}
    (h : ScanList.read i.spelling unlisted = .ok list) : Carries list i list := by
  obtain ⟨-, hequal⟩ := read_equal h
  obtain ⟨count, r, -, -, rfl, -⟩ := ScanList.read_ok.mp h
  have hspells := read_spells hi count unlisted
  exact ⟨hspells.legal, hspells.writes, h, rfl, hequal⟩

variable {d : ℕ}

namespace AnswerSlots

def fill : ℤ → Item → Option (AnswerSlots → AnswerSlots)
  | 1, i => (closedOf ScanState.tryFrom i).map fun v s => { s with scan := some v }
  | 2, i => (closedOf ScanRefusal.tryFrom i).map fun v s => { s with refused := some v }
  | 3, i => (u32Of i).map fun v s => { s with age := some v }
  | 4, i => (some i.spelling).map fun v s => { s with rows := some v }
  | 5, i => (u16Of i).map fun v s => { s with unlisted := some v }
  | _, _ => none

def has : AnswerSlots → ℤ → Bool
  | s, 1 => s.scan.isSome
  | s, 2 => s.refused.isSome
  | s, 3 => s.age.isSome
  | s, 4 => s.rows.isSome
  | s, 5 => s.unlisted.isSome
  | _, _ => false

abbrev Known (k : ℤ) : Prop := 1 ≤ k ∧ k ≤ 5

def take : ℤ → AnswerSlots → Item → Option AnswerSlots := slotStep has fill Known

theorem known_cases {k : ℤ} (h : Known k) : k = 1 ∨ k = 2 ∨ k = 3 ∨ k = 4 ∨ k = 5 := by
  obtain ⟨hlow, hhigh⟩ := h
  omega

theorem fill_cases {k : ℤ} {i : Item} {put : AnswerSlots → AnswerSlots} (h : fill k i = some put) :
    (k = 1 ∧ ∃ v, put = fun s => { s with scan := some v }) ∨
    (k = 2 ∧ ∃ v, put = fun s => { s with refused := some v }) ∨
    (k = 3 ∧ ∃ v, put = fun s => { s with age := some v }) ∨
    (k = 4 ∧ ∃ v, put = fun s => { s with rows := some v }) ∨
    (k = 5 ∧ ∃ v, put = fun s => { s with unlisted := some v }) := by
  unfold fill at h
  split at h
  case h_6 => cases h
  all_goals
    obtain ⟨v, -, rfl⟩ := Option.map_eq_some_iff.mp h
    first
    | exact .inl ⟨rfl, v, rfl⟩
    | exact .inr (.inl ⟨rfl, v, rfl⟩)
    | exact .inr (.inr (.inl ⟨rfl, v, rfl⟩))
    | exact .inr (.inr (.inr (.inl ⟨rfl, v, rfl⟩)))
    | exact .inr (.inr (.inr (.inr ⟨rfl, v, rfl⟩)))

theorem own_slots : OwnSlots has fill Known := by
  constructor
  · intro k j i put s _ hj hput
    rcases fill_cases hput with ⟨rfl, v, rfl⟩ | ⟨rfl, v, rfl⟩ | ⟨rfl, v, rfl⟩ | ⟨rfl, v, rfl⟩ | ⟨rfl, v, rfl⟩ <;>
      rcases known_cases hj with rfl | rfl | rfl | rfl | rfl <;> rfl
  · intro k j i i' put put' s _ _ hkj hput hput'
    rcases fill_cases hput with ⟨rfl, v, rfl⟩ | ⟨rfl, v, rfl⟩ | ⟨rfl, v, rfl⟩ | ⟨rfl, v, rfl⟩ | ⟨rfl, v, rfl⟩ <;>
      rcases fill_cases hput' with ⟨rfl, w, rfl⟩ | ⟨rfl, w, rfl⟩ | ⟨rfl, w, rfl⟩ | ⟨rfl, w, rfl⟩ | ⟨rfl, w, rfl⟩ <;>
      first | rfl | exact absurd rfl hkj

def putRows (v : Bytes) (s : AnswerSlots) : AnswerSlots := { s with rows := some v }

theorem watches : Watches (fun _ => True) d step take Known (fun s k => has s k) fun _ s => s := by
  constructor
  · intro k s hk
    rcases known_cases hk with rfl | rfl | rfl | rfl | rfl
    · exact .inl (slotStep_reads (readClosed_reads .scan _) trivial hk rfl (fun _ => rfl) fun _ => rfl)
    · exact .inl (slotStep_reads (readClosed_reads .refused _) trivial hk rfl (fun _ => rfl) fun _ => rfl)
    · exact .inl (slotStep_reads (Reads.u32 fun _ => trivial) trivial hk rfl (fun _ => rfl) fun _ => rfl)
    · exact .inr ⟨_, slotStep_keeps (fun _ => trivial) trivial hk rfl (fun _ => rfl) fun v => (rfl : putRows v s = _)⟩
    · exact .inl (slotStep_reads (Reads.u16 fun _ => trivial) trivial hk rfl (fun _ => rfl) fun _ => rfl)
  · intro k s hk
    unfold step
    split <;> first | rfl | exact absurd (by decide) hk

def ofItem (i : Item) : Option AnswerSlots := i.pairs?.bind fun pairs => foldPairs take pairs empty

theorem reads : Reads (fun _ => True) (d + 1) read ofItem := by
  apply Reads.watchedMapFrom (fun _ => trivial) watches (slotStep_fills own_slots)
  intro j hj
  rcases known_cases hj with rfl | rfl | rfl | rfl | rfl <;> simp [has, empty]

theorem rows_read {pairs : List (Key × Item)} {s : AnswerSlots} (h : foldPairs take pairs empty = some s)
    (rows : Bytes) : s.rows = some rows ↔ ∃ p ∈ pairs, p.1.i64? = some 4 ∧ p.2.spelling = rows := by
  have hvalue := slotStep_value AnswerSlots.rows (fun i => some i.spelling) (k := 4)
    (by decide) (fun _ => rfl) ?_ ?_ h (b := rows)
  · rw [hvalue]
    simp [empty]
  · intro i put s hput
    cases hput
    rfl
  · intro j i put s _ hne hput
    rcases fill_cases hput with ⟨rfl, v, rfl⟩ | ⟨rfl, v, rfl⟩ | ⟨rfl, v, rfl⟩ | ⟨rfl, v, rfl⟩ | ⟨rfl, v, rfl⟩ <;>
      first | rfl | exact absurd rfl hne

end AnswerSlots

namespace ScanAnswer

theorem new_ok {scan : ScanState} {refused : Option ScanRefusal} {held : Option HeldList} {answer : ScanAnswer} :
    new scan refused held = .ok answer ↔ answer = ⟨scan, refused, held⟩ ∧
      ¬(scan = .running ∧ refused.isSome) ∧ (scan = .complete → held.isSome) ∧ (scan = .none → held.isNone) := by
  unfold new
  constructor
  · intro h
    split_ifs at h with hrunning hstate
    refine ⟨(Except.ok.inj h).symm, hrunning, ?_, ?_⟩
    · rintro rfl
      cases held <;> simp at hstate ⊢
    · rintro rfl
      cases held <;> simp at hstate ⊢
  · rintro ⟨rfl, hrunning, hcomplete, hnone⟩
    rw [if_neg hrunning, if_neg]
    rintro (⟨hscan, hheld⟩ | ⟨hscan, hheld⟩)
    · have hsome := hcomplete hscan
      cases held <;> simp at hheld hsome
    · have hempty := hnone hscan
      cases held <;> simp at hheld hempty

variable (scan : ScanState) (refused : Option ScanRefusal) (age : UInt32) (i : Item) (unlisted : UInt16)

def pairs : List (Key × Item) :=
  (Key.ofNat 1, .ofNat scan.byte.toNat) ::
    (optionalPair 2 refused (fun refusal => .ofNat refusal.byte.toNat) ++
      [(Key.ofNat 3, .ofNat age.toNat), (Key.ofNat 4, i), (Key.ofNat 5, .ofNat unlisted.toNat)])

theorem pairs_ascend : Ascends none (pairs scan refused age i unlisted) := by
  cases refused <;> simp [pairs, optionalPair, Ascends, Key.ofNat, Key.rank, KeyRank.le]

theorem slots : foldPairs AnswerSlots.take (pairs scan refused age i unlisted) .empty =
    some ⟨some scan, refused, some age, some i.spelling, some unlisted⟩ := by
  cases refused with
  | none =>
    simp only [pairs, optionalPair, foldPairs, Option.map_none, Option.toList_none, List.nil_append,
      Key.ofNat_i64 (show 1 ≤ i64Max by decide), Key.ofNat_i64 (show 3 ≤ i64Max by decide),
      Key.ofNat_i64 (show 4 ≤ i64Max by decide), Key.ofNat_i64 (show 5 ≤ i64Max by decide), Option.bind_some]
    simp [AnswerSlots.take, slotStep, AnswerSlots.Known, AnswerSlots.has, AnswerSlots.fill, AnswerSlots.empty,
      closedOf_byte, u32Of_ofNat, u16Of_ofNat]
  | some refusal =>
    simp only [pairs, optionalPair, foldPairs, Option.map_some, Option.toList_some, List.cons_append, List.nil_append,
      Key.ofNat_i64 (show 1 ≤ i64Max by decide), Key.ofNat_i64 (show 2 ≤ i64Max by decide),
      Key.ofNat_i64 (show 3 ≤ i64Max by decide), Key.ofNat_i64 (show 4 ≤ i64Max by decide),
      Key.ofNat_i64 (show 5 ≤ i64Max by decide), Option.bind_some]
    simp [AnswerSlots.take, slotStep, AnswerSlots.Known, AnswerSlots.has, AnswerSlots.fill, AnswerSlots.empty,
      closedOf_byte, u32Of_ofNat, u16Of_ofNat]

def item : Item := .ofPairs (pairs scan refused age i unlisted)

variable {scan refused age i unlisted} {list list' : ScanList} {calls : List Call}

theorem encodeInto_tells (h : Tells list.encodeRows calls) :
    Tells (encodeInto ⟨scan, refused, some ⟨age, list⟩⟩)
      (.map (UInt64.ofNat (4 + refused.isSome.toNat)) :: .key 1 :: .u64 scan.byte.toUInt64 ::
        ((refused.toList.flatMap fun refusal => [.key 2, .u64 refusal.byte.toUInt64]) ++
          (.key 3 :: .u64 age.toUInt64 :: .key 4 :: (calls ++ [.key 5, .u64 list.unlisted.toUInt64])))) := by
  have hrefused := Tells.whenSome (ε := WifiError)
    (fun refusal : ScanRefusal => Tells.cons (c := .key 2) (.call (.u64 refusal.byte.toUInt64))) refused
  have hheld : Tells (encodeHeld ⟨age, list⟩)
      (.key 3 :: .u64 age.toUInt64 :: .key 4 :: (calls ++ [.key 5, .u64 list.unlisted.toUInt64])) :=
    .cons (c := .key 3) <| .cons (c := .u64 age.toUInt64) <| .cons (c := .key 4) <|
      h.append <| .cons (c := .key 5) <| .call (.u64 list.unlisted.toUInt64)
  have hkeys : keys ⟨scan, refused, some ⟨age, list⟩⟩ = (UInt64.ofNat (4 + refused.isSome.toNat)).toNat := by
    cases refused <;> rfl
  have hall := Tells.cons (c := .map (UInt64.ofNat (4 + refused.isSome.toNat))) <|
    .cons (c := .key 1) <| .cons (c := .u64 scan.byte.toUInt64) <| hrefused.append hheld
  rw [show (Call.map (UInt64.ofNat (4 + refused.isSome.toNat))).write =
    CborWriter.map (keys ⟨scan, refused, some ⟨age, list⟩⟩) by rw [Call.write, hkeys]] at hall
  exact hall

theorem item_writes (h : Writes (maxDepth - 1) (writeAll calls) i) :
    Writes maxDepth (writeAll (.map (UInt64.ofNat (4 + refused.isSome.toNat)) :: .key 1 :: .u64 scan.byte.toUInt64 ::
        ((refused.toList.flatMap fun refusal => [.key 2, .u64 refusal.byte.toUInt64]) ++
          (.key 3 :: .u64 age.toUInt64 :: .key 4 :: (calls ++ [.key 5, .u64 unlisted.toUInt64])))))
      (item scan refused age i unlisted) := by
  have hscan : WritesPairs (maxDepth - 1) (writeAll [.key 1, .u64 scan.byte.toUInt64])
      [(Key.ofNat 1, .ofNat scan.byte.toNat)] :=
    .keyed (k := 1) (by decide) (writes_one (c := .u64 scan.byte.toUInt64) rfl)
  have hrefused : WritesPairs (maxDepth - 1)
      (writeAll (refused.toList.flatMap fun refusal => [.key 2, .u64 refusal.byte.toUInt64]))
      (optionalPair 2 refused fun refusal => .ofNat refusal.byte.toNat) := by
    cases refused with
    | none => exact .nil
    | some refusal => exact .keyed (k := 2) (by decide) (writes_one (c := .u64 refusal.byte.toUInt64) rfl)
  have hage : WritesPairs (maxDepth - 1) (writeAll [.key 3, .u64 age.toUInt64]) [(Key.ofNat 3, .ofNat age.toNat)] :=
    .keyed (k := 3) (by decide) (writes_one (c := .u64 age.toUInt64) rfl)
  have hrows : WritesPairs (maxDepth - 1) (writeAll (.key 4 :: calls)) [(Key.ofNat 4, i)] :=
    .keyed (k := 4) (by decide) h
  have hunlisted : WritesPairs (maxDepth - 1) (writeAll [.key 5, .u64 unlisted.toUInt64])
      [(Key.ofNat 5, .ofNat unlisted.toNat)] :=
    .keyed (k := 5) (by decide) (writes_one (c := .u64 unlisted.toUInt64) rfl)
  have hpairs := hscan.both (hrefused.both (hage.both (hrows.both hunlisted)))
  apply writes_mapCalls (d := maxDepth - 1) hpairs
  · cases refused <;> rfl
  · exact pairs_ascend scan refused age i unlisted

theorem item_legal (h : i.Legal (maxDepth - 1)) : (item scan refused age i unlisted).Legal maxDepth := by
  have hbyte : ∀ b : UInt8, (Item.ofNat b.toNat).Legal (maxDepth - 1) := by
    intro b
    have hb := b.toNat_lt
    exact Item.ofNat_legal (by omega)
  have hage := age.toNat_lt
  have hunlisted := unlisted.toNat_lt
  apply Item.ofPairs_legal (d := maxDepth - 1) _ (pairs_ascend scan refused age i unlisted)
  · intro p hp
    simp only [pairs, optionalPair, List.mem_cons, List.mem_append, Option.mem_toList, Option.map_eq_some_iff,
      List.not_mem_nil, or_false] at hp
    rcases hp with rfl | ⟨refusal, -, rfl⟩ | rfl | rfl | rfl
    · exact ⟨Key.ofNat_legal (by decide), hbyte _⟩
    · exact ⟨Key.ofNat_legal (by decide), hbyte _⟩
    · exact ⟨Key.ofNat_legal (by decide), Item.ofNat_legal (by omega)⟩
    · exact ⟨Key.ofNat_legal (by decide), h⟩
    · exact ⟨Key.ofNat_legal (by decide), Item.ofNat_legal (by omega)⟩
  · cases refused <;> simp [pairs, optionalPair]

theorem carried (hc : Carries list i list') {answer : ScanAnswer}
    (hanswer : new scan refused (some ⟨age, list⟩) = .ok answer) :
    (∀ dst out, answer.encode dst = .ok out ↔ out = (item scan refused age i list.unlisted).spelling ∧
      (item scan refused age i list.unlisted).spelling.length ≤ dst) ∧
    decode (item scan refused age i list.unlisted).spelling = .ok ⟨scan, refused, some ⟨age, list'⟩⟩ := by
  obtain ⟨rfl, hrunning, hcomplete, hnone⟩ := new_ok.mp hanswer
  obtain ⟨calls, htells, hwrites⟩ := hc.writes
  refine ⟨fun dst out => encodeBody_item (encodeInto_tells htells) (item_writes hwrites), ?_⟩
  have hslots := decodeBody_item AnswerSlots.reads (item_legal hc.legal)
    (slots scan refused age i list.unlisted)
  have hheld : Wifi.held (some age) (some i.spelling) (some list.unlisted) = .ok (some ⟨age, list'⟩) := by
    change (ScanList.read i.spelling list.unlisted >>= fun list => .ok (some (HeldList.mk age list))) = _
    rw [hc.read]
    rfl
  unfold decode
  rw [hslots]
  change (Wifi.held (some age) (some i.spelling) (some list.unlisted) >>= fun held =>
    slotRequired (.missing .scan) (some scan) >>= fun scan => new scan refused held) = _
  rw [hheld]
  exact new_ok.mpr ⟨rfl, hrunning, hcomplete, hnone⟩

theorem held_some {age : Option UInt32} {rows : Option Bytes} {unlisted : Option UInt16} {found : Option HeldList}
    (h : Wifi.held age rows unlisted = .ok found) :
    (age.isSome ↔ found.isSome) ∧ (rows.isSome ↔ found.isSome) ∧ (unlisted.isSome ↔ found.isSome) := by
  unfold Wifi.held at h
  split at h
  · cases h
    simp
  · obtain ⟨list, -, h⟩ := bind_ok.mp h
    cases h
    simp
  · cases h

theorem decode_keys {payload : Bytes} {answer : ScanAnswer} (h : decode payload = .ok answer) :
    ∃ w pairs, (Item.map w pairs).Legal maxDepth ∧ (Item.map w pairs).spelling = payload ∧
      (HasKey pairs 3 ↔ answer.held.isSome) ∧ (HasKey pairs 4 ↔ answer.held.isSome) ∧
      (HasKey pairs 5 ↔ answer.held.isSome) ∧ (answer.scan = .complete → answer.held.isSome) ∧
      (answer.scan = .none → answer.held.isNone) := by
  obtain ⟨slots, hslots, h⟩ := bind_ok.mp h
  obtain ⟨found, hfound, h⟩ := bind_ok.mp h
  obtain ⟨scan, -, h⟩ := bind_ok.mp h
  obtain ⟨rfl, -, hcomplete, hnone⟩ := new_ok.mp h
  obtain ⟨item, hlegal, hspelling, hitem⟩ := (decodeBody_ok AnswerSlots.reads).mp hslots
  obtain ⟨pairs, hpairs, hfold⟩ := Option.bind_eq_some_iff.mp hitem
  have hslot : ∀ k, AnswerSlots.Known k → (HasKey pairs k ↔ slots.has k) := by
    intro k hk
    rw [foldPairs_filled (slotStep_fills AnswerSlots.own_slots) hfold hk]
    rcases AnswerSlots.known_cases hk with rfl | rfl | rfl | rfl | rfl <;> simp [AnswerSlots.has, AnswerSlots.empty]
  obtain ⟨hage, hrows, hunlisted⟩ := held_some hfound
  cases item with
  | map w pairs' =>
    obtain rfl := Option.some.inj hpairs
    exact ⟨w, _, hlegal, hspelling, (hslot 3 (by decide)).trans hage, (hslot 4 (by decide)).trans hrows,
      (hslot 5 (by decide)).trans hunlisted, hcomplete, hnone⟩
  | unsigned | negative | bytes | text | array | bool => cases hpairs

theorem decode_list {payload : Bytes} {answer : ScanAnswer} (h : decode payload = .ok answer) {held : HeldList}
    (hheld : answer.held = some held) : ∃ i : Item, i.Legal (maxDepth - 1) ∧
      ScanList.read i.spelling held.list.unlisted = .ok held.list := by
  obtain ⟨slots, hslots, h⟩ := bind_ok.mp h
  obtain ⟨found, hfound, h⟩ := bind_ok.mp h
  obtain ⟨scan, -, h⟩ := bind_ok.mp h
  obtain ⟨rfl, -⟩ := new_ok.mp h
  obtain rfl : found = some held := hheld
  obtain ⟨item, hlegal, -, hitem⟩ := (decodeBody_ok AnswerSlots.reads).mp hslots
  obtain ⟨pairs, hpairs, hfold⟩ := Option.bind_eq_some_iff.mp hitem
  have hread : ∃ rows, slots.rows = some rows ∧ ScanList.read rows held.list.unlisted = .ok held.list := by
    unfold Wifi.held at hfound
    split at hfound
    · cases hfound
    · rename_i age rows unlisted hage hrows hunlisted
      obtain ⟨list, hread, hfound⟩ := bind_ok.mp hfound
      cases hfound
      obtain ⟨count, r, -, -, rfl, -⟩ := ScanList.read_ok.mp hread
      exact ⟨rows, hrows, hread⟩
    · cases hfound
  obtain ⟨rows, hrows, hread⟩ := hread
  obtain ⟨p, hp, -, rfl⟩ := (AnswerSlots.rows_read hfold rows).mp hrows
  cases item with
  | map w pairs' =>
    obtain rfl := Option.some.inj hpairs
    exact ⟨p.2, (hlegal.2.2 p hp).2, hread⟩
  | unsigned | negative | bytes | text | array | bool => cases hpairs

end ScanAnswer

end Km43.Wifi
