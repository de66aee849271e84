import Km43.Wifi.Scan

namespace Km43.Wifi

open Library Cbor CborReader CborWriter

variable {d : ℕ}

def closedOf {α : Type} (tryFrom : UInt8 → Option α) (i : Item) : Option α := (u8Of i).bind tryFrom

theorem readClosed_reads {α : Type} (field : WifiField) (tryFrom : UInt8 → Option α) :
    Reads (fun _ => True) d (readClosed field tryFrom) (closedOf tryFrom) := by
  have h := (Reads.u8 (ε := WifiError) (d := d) fun _ => trivial).checked (closed field tryFrom) fun _ _ _ => trivial
  have hspec : closedOf tryFrom = fun i => (u8Of i).bind fun raw => (closed field tryFrom raw).toOption := by
    funext i
    refine congrArg _ (funext fun raw => ?_)
    unfold closed
    cases tryFrom raw <;> rfl
  rw [hspec]
  exact h

theorem closedOf_byte {α : Type} {tryFrom : UInt8 → Option α} {b : UInt8} :
    closedOf tryFrom (.ofNat b.toNat) = tryFrom b := by
  rw [closedOf, u8Of_ofNat, Option.bind_some]

def rssiItem (i : Item) : Option Int8 :=
  (i.leaf?.bind fun h => (headI32 h).toOption).bind fun dbm => (AccessSlots.rssiOf dbm).toOption

theorem rssiItem_ofInt (rssi : Int8) : rssiItem (.ofInt rssi.toInt32) = some rssi := by
  have hlow := rssi.le_toInt
  have hhigh := rssi.toInt_lt
  rw [rssiItem, headI32_ofInt, Option.bind_some, AccessSlots.rssiOf, Int8.toInt_toInt32, if_pos (by omega),
    Int8.toInt8_toInt32]
  rfl

namespace AccessSlots

def fill : ℤ → Item → Option (AccessSlots → AccessSlots)
  | 1, i => i.str?.map fun v s => { s with ssid := some v }
  | 2, i => (rssiItem i).map fun v s => { s with rssi := some v }
  | 3, i => (closedOf WifiSecurity.tryFrom i).map fun v s => { s with security := some v }
  | 4, i => (closedOf WifiBand.tryFrom i).map fun v s => { s with band := some v }
  | 5, i => (u8Of i).map fun v s => { s with channel := some v }
  | _, _ => none

def has : AccessSlots → ℤ → Bool
  | s, 1 => s.ssid.isSome
  | s, 2 => s.rssi.isSome
  | s, 3 => s.security.isSome
  | s, 4 => s.band.isSome
  | s, 5 => s.channel.isSome
  | _, _ => false

abbrev Known (k : ℤ) : Prop := 1 ≤ k ∧ k ≤ 5

def take : ℤ → AccessSlots → Item → Option AccessSlots := slotStep has fill Known

theorem known_cases {k : ℤ} (h : Known k) : k = 1 ∨ k = 2 ∨ k = 3 ∨ k = 4 ∨ k = 5 := by
  obtain ⟨hlow, hhigh⟩ := h
  omega

theorem own_slots : OwnSlots has fill Known := by
  constructor
  · intro k j i put s hk hj hput
    rcases known_cases hk with rfl | rfl | rfl | rfl | rfl
    all_goals
      obtain ⟨v, -, rfl⟩ := Option.map_eq_some_iff.mp hput
      rcases known_cases hj with rfl | rfl | rfl | rfl | rfl <;> rfl
  · intro k j i i' put put' s hk hj hkj hput hput'
    rcases known_cases hk with rfl | rfl | rfl | rfl | rfl
    all_goals
      obtain ⟨v, -, rfl⟩ := Option.map_eq_some_iff.mp hput
      rcases known_cases hj with rfl | rfl | rfl | rfl | rfl
      all_goals
        obtain ⟨w, -, rfl⟩ := Option.map_eq_some_iff.mp hput'
        first | rfl | exact absurd rfl hkj

theorem steps : Steps (fun _ => True) d step take Known fun _ s => s := by
  constructor
  · intro k s hk
    rcases known_cases hk with rfl | rfl | rfl | rfl | rfl
    · exact slotStep_reads (textValue_reads fun _ => trivial) trivial hk rfl (fun _ => rfl) fun _ => rfl
    · have hrssi := (Reads.i32 (ε := WifiError) (d := d) fun _ => trivial).checked rssiOf fun _ _ _ => trivial
      exact slotStep_reads hrssi trivial hk rfl (fun _ => rfl) fun _ => rfl
    · exact slotStep_reads (readClosed_reads .security _) trivial hk rfl (fun _ => rfl) fun _ => rfl
    · exact slotStep_reads (readClosed_reads .band _) trivial hk rfl (fun _ => rfl) fun _ => rfl
    · exact slotStep_reads (Reads.u8 fun _ => trivial) trivial hk rfl (fun _ => rfl) fun _ => rfl
  · intro k s hk
    unfold step
    split <;> first | rfl | exact absurd (by decide) hk

def ofItem (i : Item) : Option AccessSlots := i.pairs?.bind fun pairs => foldPairs take pairs empty

theorem reads : Reads (fun _ => True) (d + 1) read ofItem := by
  apply Reads.mapFrom (fun _ => trivial) steps (slotStep_fills own_slots)
  intro j hj
  rcases known_cases hj with rfl | rfl | rfl | rfl | rfl <;> simp [has, empty]

end AccessSlots

namespace AccessPoint

theorem check_ok {row : AccessPoint} : row.check = .ok () ↔ row.Fits := by
  have hname : row.ssid.raw = [] ↔ row.ssid.raw.length = 0 := List.length_eq_zero_iff.symm
  have hchannel : row.channel = 0 ↔ row.channel.toNat = 0 := UInt8.toNat_inj.symm
  simp only [check, hname, hchannel]
  constructor
  · intro h
    split_ifs at h
    exact ⟨by omega, by omega, by omega, by omega⟩
  · rintro ⟨hnamed, hshort, hpositive, hallocated⟩
    rw [if_neg (by omega), if_neg (by omega)]

def ofItem (i : Item) : Option AccessPoint := (AccessSlots.ofItem i).bind fun s => s.row.toOption

theorem reads : Reads (fun _ => True) (d + 1) decodeFrom ofItem :=
  AccessSlots.reads.checked AccessSlots.row fun _ _ _ => trivial

variable (row : AccessPoint)

def pairs : List (Key × Item) :=
  [(Key.ofNat 1, .ofText row.ssid), (Key.ofNat 2, .ofInt row.rssi.toInt32),
    (Key.ofNat 3, .ofNat row.security.byte.toNat), (Key.ofNat 4, .ofNat row.band.byte.toNat),
    (Key.ofNat 5, .ofNat row.channel.toNat)]

def item : Item := .ofPairs row.pairs

def calls : List Call :=
  [.map 5, .key 1, .text row.ssid, .key 2, .i32 row.rssi.toInt32, .key 3, .u64 row.security.byte.toUInt64,
    .key 4, .u64 row.band.byte.toUInt64, .key 5, .u64 row.channel.toUInt64]

theorem pairs_ascend : Ascends none row.pairs := by
  simp [pairs, Ascends, Key.ofNat, Key.rank, KeyRank.le]

variable {row}

theorem encodeInto_tells (h : row.Fits) : Tells row.encodeInto row.calls := by
  have hcalls : Tells (do
      tell (CborWriter.map 5)
      tell (CborWriter.key 1)
      tell (CborWriter.text row.ssid.raw)
      tell (CborWriter.key 2)
      tell (CborWriter.i32 row.rssi.toInt32)
      tell (CborWriter.key 3)
      tell (CborWriter.u64 row.security.byte.toNat)
      tell (CborWriter.key 4)
      tell (CborWriter.u64 row.band.byte.toNat)
      tell (CborWriter.key 5)
      tell (CborWriter.u64 row.channel.toNat) : Encoder WifiError Unit) row.calls :=
    .cons (c := .map 5) <| .cons (c := .key 1) <| .cons (c := .text row.ssid) <| .cons (c := .key 2) <|
      .cons (c := .i32 row.rssi.toInt32) <| .cons (c := .key 3) <| .cons (c := .u64 row.security.byte.toUInt64) <|
      .cons (c := .key 4) <| .cons (c := .u64 row.band.byte.toUInt64) <| .cons (c := .key 5) <|
      .call (.u64 row.channel.toUInt64)
  exact .check (check_ok.mpr h) hcalls

theorem writes (h : row.Fits) : Writes (d + 1) (writeAll row.calls) row.item := by
  have hshort : row.ssid.raw.length ≤ maxString := h.short.trans (by decide)
  have hssid : WritesPairs d (writeAll [.key 1, .text row.ssid]) [(Key.ofNat 1, .ofText row.ssid)] :=
    .keyed (k := 1) (by decide) (writes_one (c := .text row.ssid) ⟨rfl, hshort⟩)
  have hrssi : WritesPairs d (writeAll [.key 2, .i32 row.rssi.toInt32]) [(Key.ofNat 2, .ofInt row.rssi.toInt32)] :=
    .keyed (k := 2) (by decide) (writes_one (c := .i32 row.rssi.toInt32) rfl)
  have hsecurity : WritesPairs d (writeAll [.key 3, .u64 row.security.byte.toUInt64])
      [(Key.ofNat 3, .ofNat row.security.byte.toNat)] :=
    .keyed (k := 3) (by decide) (writes_one (c := .u64 row.security.byte.toUInt64) rfl)
  have hband : WritesPairs d (writeAll [.key 4, .u64 row.band.byte.toUInt64])
      [(Key.ofNat 4, .ofNat row.band.byte.toNat)] :=
    .keyed (k := 4) (by decide) (writes_one (c := .u64 row.band.byte.toUInt64) rfl)
  have hchannel : WritesPairs d (writeAll [.key 5, .u64 row.channel.toUInt64])
      [(Key.ofNat 5, .ofNat row.channel.toNat)] :=
    .keyed (k := 5) (by decide) (writes_one (c := .u64 row.channel.toUInt64) rfl)
  exact writes_mapCalls (hssid.both (hrssi.both (hsecurity.both (hband.both hchannel)))) rfl row.pairs_ascend

theorem slots : foldPairs AccessSlots.take row.pairs .empty =
    some ⟨some row.ssid, some row.rssi, some row.security, some row.band, some row.channel⟩ := by
  simp only [pairs, foldPairs, Key.ofNat_i64 (show 1 ≤ i64Max by decide), Key.ofNat_i64 (show 2 ≤ i64Max by decide),
    Key.ofNat_i64 (show 3 ≤ i64Max by decide), Key.ofNat_i64 (show 4 ≤ i64Max by decide),
    Key.ofNat_i64 (show 5 ≤ i64Max by decide), Option.bind_some]
  simp [AccessSlots.take, slotStep, AccessSlots.Known, AccessSlots.has, AccessSlots.fill, AccessSlots.empty,
    str_ofText, rssiItem_ofInt, closedOf_byte, u8Of_ofNat]

theorem ofItem_item (h : row.Fits) : ofItem row.item = some row := by
  have hrow : AccessSlots.row ⟨some row.ssid, some row.rssi, some row.security, some row.band, some row.channel⟩ =
      .ok row := by
    change (row.check >>= fun _ => .ok row) = _
    rw [check_ok.mpr h]
    rfl
  have hslots : AccessSlots.ofItem row.item =
      some ⟨some row.ssid, some row.rssi, some row.security, some row.band, some row.channel⟩ := slots
  rw [ofItem, hslots, Option.bind_some, hrow]
  rfl

theorem item_legal (h : row.Fits) : row.item.Legal (d + 1) := by
  have hshort : row.ssid.raw.length ≤ maxString := h.short.trans (by decide)
  have hbyte : ∀ b : UInt8, (Item.ofNat b.toNat).Legal d := by
    intro b
    have hb := b.toNat_lt
    exact Item.ofNat_legal (by omega)
  apply Item.ofPairs_legal (by simp [pairs]) row.pairs_ascend
  simp only [pairs, List.forall_mem_cons]
  exact ⟨⟨Key.ofNat_legal (by decide), Item.ofText_legal hshort⟩, ⟨Key.ofNat_legal (by decide), Item.ofInt_legal⟩,
    ⟨Key.ofNat_legal (by decide), hbyte _⟩, ⟨Key.ofNat_legal (by decide), hbyte _⟩,
    ⟨Key.ofNat_legal (by decide), hbyte _⟩, by simp⟩

end AccessPoint

end Km43.Wifi
