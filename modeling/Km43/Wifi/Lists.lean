import Km43.Wifi.Rows

namespace Km43.Wifi

open Library Cbor CborReader CborWriter

variable {d : ℕ}

namespace AccessPoints

theorem walk_built (rows : List AccessPoint) (read : CborReader) (header : Except CborError Unit) :
    walk rows.length ⟨rows, read, 0, header⟩ = rows.map .ok := by
  induction rows with
  | nil => rfl
  | cons row rows ih =>
    have hnext : next ⟨row :: rows, read, 0, header⟩ = some (.ok (row, ⟨rows, read, 0, header⟩)) := rfl
    simp only [List.length_cons, walk, hnext, ih, List.map_cons]

theorem next_read {read : CborReader} {left : ℕ} {row : AccessPoint} {read' : CborReader}
    (h : AccessPoint.decodeFrom read = .ok (row, read')) :
    next ⟨[], read, left + 1, .ok ()⟩ = some (.ok (row, ⟨[], read', left, .ok ()⟩)) := by
  simp only [next, h, Nat.add_one_ne_zero, if_false, Nat.add_sub_cancel]

theorem walk_read {rows : List AccessPoint} (hfits : ∀ row ∈ rows, row.Fits) {r : CborReader} {level : Open}
    {base : List Open} (hat : AtItems (d + 1) rows.length r level base) {tail : Bytes}
    (hrest : r.rest = Item.spellAll (rows.map AccessPoint.item) ++ tail) :
    walk rows.length ⟨[], r, rows.length, .ok ()⟩ = rows.map .ok := by
  induction rows generalizing r level with
  | nil => rfl
  | cons row rows ih =>
    obtain ⟨hrow, hrows⟩ := List.forall_mem_cons.mp hfits
    have hlegal : row.item.Legal (d + 1) := AccessPoint.item_legal hrow
    rw [List.map_cons, Item.spellAll, List.append_assoc] at hrest
    obtain ⟨r', hok, hpast⟩ := AccessPoint.reads.takes hat.ready hlegal hrest (AccessPoint.ofItem_item hrow)
    have hstep := (itemStep_exact (d + 1)).read hlegal (Item.spellAll (rows.map AccessPoint.item) ++ tail)
    rw [← hrest] at hstep
    obtain ⟨hat', hrest'⟩ := hat.next hstep hpast
    simp only [List.length_cons, walk, next_read hok, List.map_cons, ih hrows hat' hrest']

theorem next_left {it it' : AccessPoints} {row : AccessPoint} (h : it.next = some (.ok (row, it'))) :
    it'.built.length + it'.left + 1 = it.built.length + it.left := by
  obtain ⟨built, read, left, header⟩ := it
  cases built with
  | cons first rest =>
    cases h
    simp only [List.length_cons]
    omega
  | nil =>
    simp only [next] at h
    split_ifs at h with hleft
    cases header with
    | error why => cases h
    | ok u =>
      dsimp only at h
      split at h <;> cases h
      simp only
      omega

theorem walk_enough {n : ℕ} {it : AccessPoints} (h : it.built.length + it.left ≤ n) (m : ℕ) :
    walk (n + m) it = walk n it := by
  induction n generalizing it with
  | zero =>
    obtain ⟨built, read, left, header⟩ := it
    obtain ⟨hbuilt, hleft⟩ := Nat.add_eq_zero_iff.mp (Nat.le_zero.mp h)
    obtain rfl := List.length_eq_zero_iff.mp hbuilt
    obtain rfl := hleft
    cases m <;> rfl
  | succ n ih =>
    rw [Nat.add_right_comm, walk, walk]
    cases hnext : it.next with
    | none => rfl
    | some item =>
      cases item with
      | error why => rfl
      | ok p =>
        have hleft := next_left hnext
        have hrest := @ih p.2 (by omega)
        simp only [hrest]

theorem mem_walk {n m : ℕ} {it : AccessPoints} {x : Except WifiError AccessPoint} (h : x ∈ walk n it) :
    x ∈ walk (n + m) it := by
  induction n generalizing it with
  | zero => cases h
  | succ n ih =>
    rw [Nat.add_right_comm, walk]
    rw [walk] at h
    cases hnext : it.next with
    | none =>
      rw [hnext] at h
      exact h
    | some item =>
      cases item with
      | error why =>
        rw [hnext] at h
        exact h
      | ok p =>
        rw [hnext] at h
        simp only [List.mem_cons] at h ⊢
        exact h.imp_right ih

theorem walk_length {n : ℕ} {it : AccessPoints} (hleft : it.built.length + it.left = n) {rows : List AccessPoint}
    (h : walk n it = rows.map .ok) : n = rows.length := by
  induction n generalizing it rows with
  | zero =>
    rw [walk, eq_comm, List.map_eq_nil_iff] at h
    rw [h, List.length_nil]
  | succ n ih =>
    rw [walk] at h
    cases hnext : it.next with
    | none =>
      obtain ⟨built, read, left, header⟩ := it
      cases built with
      | cons row built => cases hnext
      | nil =>
        have hsome : left ≠ 0 := by
          have hall : 0 + left = n + 1 := hleft
          omega
        simp only [next, if_neg hsome] at hnext
        split at hnext
        · cases hnext
        · split at hnext <;> cases hnext
    | some item =>
      rw [hnext] at h
      cases item with
      | error why =>
        cases rows with
        | nil => cases h
        | cons row rows => cases h
      | ok p =>
        cases rows with
        | nil => cases h
        | cons row rows =>
          have hone := next_left hnext
          have hrest := (List.cons.inj h).2
          have hless : p.2.built.length + p.2.left = n := by omega
          rw [List.length_cons, ← ih hless hrest]

end AccessPoints

namespace ScanList

structure Sound (rows : List AccessPoint) : Prop where
  few : rows.length ≤ maxScanAps
  fits : ∀ row ∈ rows, row.Fits
  falling : rows.IsChain fun a b => b.rssi ≤ a.rssi
  distinct : (rows.map AccessPoint.ssid).Nodup

theorem checkFrom_rows {seen : List Str} {weaker : Int8} {found : List (Except WifiError AccessPoint)}
    (h : checkFrom seen weaker found = .ok ()) : ∃ rows : List AccessPoint, found = rows.map .ok := by
  induction found generalizing seen weaker with
  | nil => exact ⟨[], rfl⟩
  | cons next rest ih =>
    cases next with
    | error why => cases h
    | ok row =>
      obtain ⟨row', hrow, h⟩ := bind_ok.mp h
      cases hrow
      obtain ⟨-, -, h⟩ := bind_ok.mp h
      split_ifs at h
      obtain ⟨rows, rfl⟩ := ih h
      exact ⟨row :: rows, rfl⟩

theorem checkFrom_ok {seen : List Str} {weaker : Int8} {rows : List AccessPoint} :
    checkFrom seen weaker (rows.map .ok) = .ok () ↔
      (∀ row ∈ rows, row.Fits) ∧ (∀ row ∈ rows.head?, row.rssi ≤ weaker) ∧
      rows.IsChain (fun a b => b.rssi ≤ a.rssi) ∧ (∀ row ∈ rows, row.ssid ∉ seen) ∧
      (rows.map AccessPoint.ssid).Nodup ∧ (rows = [] ∨ seen.length + rows.length ≤ maxScanAps) := by
  induction rows generalizing seen weaker with
  | nil => simp [checkFrom]
  | cons row rows ih =>
    have hcons : checkFrom seen weaker ((row :: rows).map .ok) = .ok () ↔
        row.Fits ∧ row.rssi ≤ weaker ∧ row.ssid ∉ seen ∧ ¬maxScanAps ≤ seen.length ∧
          checkFrom (seen ++ [row.ssid]) row.rssi (rows.map .ok) = .ok () := by
      have hbind : checkFrom seen weaker ((row :: rows).map .ok) = .ok () ↔ row.check = .ok () ∧
          (if weaker < row.rssi then .error .outOfOrder
            else if maxScanAps < seen.length then .error (.tooManyAccessPoints seen.length)
            else if row.ssid ∈ seen then .error .ssidRepeated
            else if maxScanAps ≤ seen.length then .error (.tooManyAccessPoints seen.length)
            else checkFrom (seen ++ [row.ssid]) row.rssi (rows.map .ok)) = .ok () := seq_ok
      rw [hbind, AccessPoint.check_ok, ← Int8.not_lt]
      apply and_congr_right
      intro _
      by_cases hrssi : weaker < row.rssi
      · simp [hrssi]
      · by_cases hfull : maxScanAps ≤ seen.length
        · by_cases hover : maxScanAps < seen.length <;> by_cases hseen : row.ssid ∈ seen <;>
            simp [hrssi, hover, hfull, hseen]
        · have hover : ¬maxScanAps < seen.length := by omega
          by_cases hseen : row.ssid ∈ seen <;> simp [hrssi, hover, hfull, hseen]
    have hnames : (∀ other ∈ rows, other.ssid ∉ seen ++ [row.ssid]) ↔
        (∀ other ∈ rows, other.ssid ∉ seen) ∧ row.ssid ∉ rows.map AccessPoint.ssid := by
      simp only [List.mem_append, List.mem_singleton, not_or, List.mem_map, not_exists, not_and, forall_and]
    have hroom : (¬maxScanAps ≤ seen.length ∧ (rows = [] ∨ (seen ++ [row.ssid]).length + rows.length ≤ maxScanAps)) ↔
        seen.length + (row :: rows).length ≤ maxScanAps := by
      rw [← List.length_eq_zero_iff, List.length_append, List.length_singleton, List.length_cons]
      omega
    rw [hcons, ih, hnames, List.isChain_cons, List.map_cons, List.nodup_cons, List.forall_mem_cons,
      List.forall_mem_cons, ← hroom]
    simp only [List.head?_cons, Option.mem_def, Option.some.injEq, forall_eq', reduceCtorEq, false_or]
    constructor
    · rintro ⟨hfits, hrssi, hown, hfull, hall, hhead, hchain, ⟨hseen, hname⟩, hnodup, hfew⟩
      exact ⟨⟨hfits, hall⟩, hrssi, ⟨hhead, hchain⟩, ⟨hown, hseen⟩, ⟨hname, hnodup⟩, hfull, hfew⟩
    · rintro ⟨⟨hfits, hall⟩, hrssi, ⟨hhead, hchain⟩, ⟨hown, hseen⟩, ⟨hname, hnodup⟩, hfull, hfew⟩
      exact ⟨hfits, hrssi, hown, hfull, hall, hhead, hchain, ⟨hseen, hname⟩, hnodup, hfew⟩

theorem items_built (rows : List AccessPoint) (unlisted : UInt16) :
    items ⟨.built rows, unlisted⟩ = rows.map .ok := AccessPoints.walk_built rows _ _

theorem new_ok {rows : List AccessPoint} {unlisted : UInt16} {list : ScanList} :
    new rows unlisted = .ok list ↔ Sound rows ∧ list = ⟨.built rows, unlisted⟩ := by
  have hcheck : check ⟨.built rows, unlisted⟩ = .ok () ↔ Sound rows := by
    have hlen : len ⟨.built rows, unlisted⟩ = rows.length := rfl
    have hloudest : ∀ row ∈ rows.head?, row.rssi ≤ 127 := fun row _ => Int8.le_maxValue row.rssi
    rw [check, items_built, hlen]
    constructor
    · intro h
      split_ifs at h with hfew
      obtain ⟨hfits, -, hfalling, -, hdistinct, -⟩ := checkFrom_ok.mp h
      exact ⟨Nat.le_of_not_lt hfew, hfits, hfalling, hdistinct⟩
    · intro h
      rw [if_neg (Nat.not_lt.mpr h.few)]
      exact checkFrom_ok.mpr ⟨h.fits, hloudest, h.falling, by simp, h.distinct, .inr (by simpa using h.few)⟩
  rw [← hcheck]
  constructor
  · intro h
    obtain ⟨⟨⟩, hok, h⟩ := bind_ok.mp h
    cases h
    exact ⟨hok, rfl⟩
  · rintro ⟨hok, rfl⟩
    exact bind_ok.mpr ⟨(), hok, rfl⟩

theorem read_ok {item : Bytes} {unlisted : UInt16} {list : ScanList} : read item unlisted = .ok list ↔
    ∃ count r, CborReader.array (.new item) = .ok (count, r) ∧ count ≤ maxScanAps ∧
      list = ⟨.read item count, unlisted⟩ ∧ list.check = .ok () := by
  constructor
  · intro h
    obtain ⟨⟨count, r⟩, harray, h⟩ := bind_ok.mp h
    dsimp only at h
    split_ifs at h with hfew
    obtain ⟨⟨⟩, hok, h⟩ := bind_ok.mp h
    cases h
    exact ⟨count, r, mapError_ok.mp harray, Nat.le_of_not_lt hfew, rfl, hok⟩
  · rintro ⟨count, r, harray, hfew, rfl, hok⟩
    refine bind_ok.mpr ⟨(count, r), mapError_ok.mpr harray, ?_⟩
    dsimp only
    rw [if_neg (Nat.not_lt.mpr hfew)]
    exact bind_ok.mpr ⟨(), hok, rfl⟩

theorem iter_left (list : ScanList) : list.iter.built.length + list.iter.left = list.len := by
  obtain ⟨rows, unlisted⟩ := list
  cases rows with
  | built rows => rfl
  | read item count =>
    simp only [iter, len]
    cases CborReader.array (.new item) <;> simp

/-- A list of these rows and no others, each of them read without an error. -/
structure Holds (list : ScanList) (rows : List AccessPoint) : Prop where
  len : list.len = rows.length
  items : list.items = rows.map .ok

theorem check_holds {list : ScanList} (h : list.check = .ok ()) : ∃ rows, list.Holds rows := by
  unfold check at h
  split_ifs at h
  obtain ⟨rows, hrows⟩ := checkFrom_rows h
  exact ⟨rows, AccessPoints.walk_length list.iter_left hrows, hrows⟩

theorem check_walk {list : ScanList} (h : list.check = .ok ()) (n : ℕ) :
    ∀ x ∈ list.iter.walk n, ∃ row, x = .ok row := by
  intro x hx
  have hx := AccessPoints.mem_walk (m := list.len) hx
  rw [Nat.add_comm, AccessPoints.walk_enough list.iter_left.le] at hx
  obtain ⟨rows, hrows⟩ := check_holds h
  rw [← items, hrows.items] at hx
  obtain ⟨row, -, rfl⟩ := List.mem_map.mp hx
  exact ⟨row, rfl⟩

theorem Holds.same {a b : ScanList} {rows : List AccessPoint} (ha : a.Holds rows) (hb : b.Holds rows)
    (hunlisted : a.unlisted = b.unlisted) : a.same b = true := by
  have hall : ∀ p ∈ (rows.map Except.ok).zip (rows.map Except.ok),
      ∃ row, p = ((Except.ok row, Except.ok row) : Except WifiError AccessPoint × Except WifiError AccessPoint) := by
    intro p hp
    rw [List.zip_map', List.mem_map] at hp
    obtain ⟨row, -, rfl⟩ := hp
    exact ⟨row, rfl⟩
  rw [ScanList.same, ha.items, hb.items, decide_eq_true hunlisted, decide_eq_true (ha.len.trans hb.len.symm),
    Bool.true_and, Bool.true_and, List.all_eq_true]
  intro p hp
  obtain ⟨row, rfl⟩ := hall p hp
  simp

/-- Two lists that the code finds equal, and that hold the same rows. -/
structure Equal (a b : ScanList) : Prop where
  same : a.same b = true
  rows : ∃ rows, a.Holds rows ∧ b.Holds rows

theorem Holds.equal {a b : ScanList} {rows : List AccessPoint} (ha : a.Holds rows) (hb : b.Holds rows)
    (hunlisted : a.unlisted = b.unlisted) : a.Equal b := ⟨ha.same hb hunlisted, rows, ha, hb⟩

theorem Equal.built {a b : ScanList} (h : a.Equal b) {rows : List AccessPoint} (hbuilt : a.rows = .built rows) :
    b.Holds rows := by
  obtain ⟨found, ha, hb⟩ := h.rows
  obtain ⟨kept, unlisted⟩ := a
  obtain rfl := hbuilt
  have hsame := (items_built rows unlisted).symm.trans ha.items
  rw [List.map_inj_right fun _ _ => Except.ok.inj] at hsame
  exact hsame ▸ hb

end ScanList

end Km43.Wifi
