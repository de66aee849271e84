import Km43.Cbor.Cells
import Km43.Wifi.Relay

namespace Km43.Wifi

open Library Cbor CborReader CborWriter Link

def apMaxBytes : ℕ := 46

def scanAnswerHeaderBytes : ℕ := 17

def scanAnswerCeiling : ℕ := (innerBodyBytes - scanAnswerHeaderBytes) / apMaxBytes

theorem maxScanAps_le : maxScanAps ≤ scanAnswerCeiling := by decide

theorem AccessPoint.item_length {row : AccessPoint} (h : row.Fits) : row.item.spelling.length ≤ apMaxBytes := by
  have hssid : (Item.ofText row.ssid).spelling.length ≤ 2 + row.ssid.raw.length := by
    have hshort := h.short
    unfold maxSsid at hshort
    have hhead := (headBytes_le .text (n := row.ssid.raw.length)).2.2.2.1 (by omega)
    rw [Item.ofText, Item.spelling, Token.spelling, List.length_append]
    exact Nat.add_le_add_right hhead _
  have hrssi : (Item.ofInt row.rssi.toInt32).spelling.length ≤ 2 := by
    have hlow := row.rssi.le_toInt
    have hhigh := row.rssi.toInt_lt
    rw [Item.ofInt, Int8.toInt_toInt32]
    split_ifs
    · exact (headBytes_le .negative).2.2.2.1 (by omega)
    · exact (headBytes_le .unsigned).2.2.2.1 (by omega)
  have hsecurity : (Item.ofNat row.security.byte.toNat).spelling.length ≤ 1 :=
    ofNat_length_inline (by cases row.security <;> decide)
  have hband : (Item.ofNat row.band.byte.toNat).spelling.length ≤ 1 :=
    ofNat_length_inline (by cases row.band <;> decide)
  have hchannel := ofNat_length_u8 row.channel
  have hshort := h.short
  rw [AccessPoint.item, ofPairs_length (by simp [AccessPoint.pairs]), AccessPoint.pairs,
    spellPairs_cons_length (by decide), spellPairs_cons_length (by decide), spellPairs_cons_length (by decide),
    spellPairs_cons_length (by decide), pair_length (by decide)]
  unfold maxSsid at hshort
  unfold apMaxBytes
  omega

theorem rowsItem_length {rows : List AccessPoint} (h : ScanList.Sound rows) :
    (rowsItem rows).spelling.length ≤ 1 + maxScanAps * apMaxBytes := by
  have hfew := h.few
  have hall := spellAll_length (rows.map AccessPoint.item) (c := apMaxBytes) (by
    intro i hi
    obtain ⟨row, hrow, rfl⟩ := List.mem_map.mp hi
    exact AccessPoint.item_length (h.fits row hrow))
  rw [List.length_map] at hall
  rw [rowsItem, ofItems_length (by rw [List.length_map]; unfold maxScanAps at hfew; omega)]
  have hmul := Nat.mul_le_mul_right apMaxBytes hfew
  omega

namespace ScanAnswer

variable (scan : ScanState) (refused : Option ScanRefusal) (age : UInt32) (i : Item) (unlisted : UInt16)

theorem item_length : (item scan refused age i unlisted).spelling.length =
    6 + 2 * refused.isSome.toNat + (Item.ofNat age.toNat).spelling.length + i.spelling.length +
      (Item.ofNat unlisted.toNat).spelling.length := by
  have hfew : (pairs scan refused age i unlisted).length < 24 := by cases refused <;> simp [pairs, optionalPair]
  have hscan : (Item.ofNat scan.byte.toNat).spelling.length = 1 := by cases scan <;> decide
  have hrefused : (Item.spellPairs (optionalPair 2 refused fun refusal => .ofNat refusal.byte.toNat)).length =
      2 * refused.isSome.toNat := by
    cases refused with
    | none => rfl
    | some refusal => cases refusal <;> decide
  rw [item, ofPairs_length hfew, pairs, spellPairs_cons_length (by decide), Item.spellPairs_append, List.length_append,
    spellPairs_cons_length (by decide), spellPairs_cons_length (by decide), pair_length (by decide), hscan, hrefused]
  omega

end ScanAnswer

namespace ScanList

def rowsBytes (list : ScanList) : ℕ :=
  match list.rows with
  | .built rows => (rowsItem rows).spelling.length
  | .read item _ => item.length

def unlistedBytes (list : ScanList) : ℕ := (Item.ofNat list.unlisted.toNat).spelling.length

def Relayable (list : ScanList) : Prop :=
  ∀ scan refused age answer, ScanAnswer.new scan refused (some ⟨age, list⟩) = .ok answer →
    ∃ out, answer.encode innerBodyBytes = .ok out

end ScanList

theorem Accepted.sized {list : ScanList} (h : Accepted list) :
    ∃ i list', Carries list i list' ∧ i.spelling.length = list.rowsBytes := by
  rcases h.source with ⟨rows, unlisted, hsound, rfl⟩ | ⟨i, hlegal, hread⟩
  · obtain ⟨list', hcarries⟩ := built_carries hsound unlisted
    exact ⟨_, list', hcarries, rfl⟩
  · obtain ⟨n, r, -, -, hlist, -⟩ := ScanList.read_ok.mp hread
    refine ⟨i, list, read_carries hlegal hread, ?_⟩
    rw [hlist]
    rfl

theorem Accepted.relayable_iff {list : ScanList} (h : Accepted list) :
    list.Relayable ↔ list.rowsBytes + list.unlistedBytes + 13 ≤ innerBodyBytes := by
  obtain ⟨i, list', hcarries, hlen⟩ := h.sized
  rw [← hlen]
  constructor
  · intro hrelayed
    -- The widest state: a refusal beside a list that is as old as can be said.
    have hnew : ScanAnswer.new .complete (some .tooSoon) (some ⟨0xFFFFFFFF, list⟩) = .ok _ :=
      ScanAnswer.new_ok.mpr ⟨rfl, by simp, by simp, by simp⟩
    obtain ⟨out, hout⟩ := hrelayed _ _ _ _ hnew
    obtain ⟨-, hroom⟩ := ((ScanAnswer.carried hcarries hnew).1 _ _).mp hout
    rw [ScanAnswer.item_length] at hroom
    have hage : (Item.ofNat (0xFFFFFFFF : UInt32).toNat).spelling.length = 5 := by decide
    rw [hage] at hroom
    exact (Nat.le_of_eq (by simp only [Option.isSome_some, Bool.toNat_true, ScanList.unlistedBytes]; omega)).trans hroom
  · intro hroom scan refused age answer hanswer
    refine ⟨_, ((ScanAnswer.carried hcarries hanswer).1 _ _).mpr ⟨rfl, ?_⟩⟩
    have hage := ofNat_length_u32 age
    have hrefused : refused.isSome.toNat ≤ 1 := Bool.toNat_le _
    rw [ScanAnswer.item_length]
    unfold ScanList.unlistedBytes at hroom
    omega

theorem built_relayable {rows : List AccessPoint} {unlisted : UInt16} {list : ScanList}
    (h : ScanList.new rows unlisted = .ok list) : list.Relayable := by
  obtain ⟨hsound, rfl⟩ := ScanList.new_ok.mp h
  have hrows : ScanList.rowsBytes ⟨.built rows, unlisted⟩ ≤ 1 + maxScanAps * apMaxBytes := rowsItem_length hsound
  have hunlisted : ScanList.unlistedBytes ⟨.built rows, unlisted⟩ ≤ 3 := ofNat_length_u16 unlisted
  refine (Accepted.built h).relayable_iff.mpr ?_
  unfold maxScanAps apMaxBytes at hrows
  unfold innerBodyBytes
  omega

/-- A list that the link brought is relayed where the array it came in leaves that room. -/
theorem received_relayable_iff {bytes : Bytes} {e : LinkEnvelope} {result : ScanResult} {list : ScanList}
    (he : LinkEnvelope.decode bytes = .ok e) (h : ScanResult.decode e = .ok result) (hlist : result.list = some list) :
    (list.Relayable ↔ list.rowsBytes + list.unlistedBytes + 13 ≤ innerBodyBytes) ∧
      ∃ pairs, e.body.rest = Item.spellPairs pairs ∧
        ∃ p ∈ pairs, p.1.i64? = some 3 ∧ list.rowsBytes = p.2.spelling.length := by
  refine ⟨(Accepted.linked he h hlist).relayable_iff, ?_⟩
  obtain ⟨pairs, -, -, -, hrest, -, -, -, hread⟩ := ScanResult.decode_keys he h
  obtain ⟨p, hp, hkey, hlisted⟩ := hread list hlist
  refine ⟨pairs, hrest, p, hp, hkey, ?_⟩
  obtain ⟨count, r, -, -, hrows, -⟩ := ScanList.read_ok.mp hlisted
  rw [hrows]
  rfl

def received (frame : Bytes) : Option ScanList :=
  match LinkEnvelope.decode frame with
  | .error _ => none
  | .ok e =>
    match ScanResult.decode e with
    | .error _ => none
    | .ok result => result.list

theorem received_some {frame : Bytes} {list : ScanList} (h : received frame = some list) :
    ∃ e result, LinkEnvelope.decode frame = .ok e ∧ ScanResult.decode e = .ok result ∧ result.list = some list := by
  unfold received at h
  split at h
  · cases h
  · rename_i e he
    split at h
    · cases h
    · rename_i result hresult
      exact ⟨e, result, he, hresult, h⟩

def paddedFrame (extra : ℕ) : Bytes :=
  [0x84, 0x18, 0x6B, 0x00, 0x05, 0xA4, 0x01, 0x01, 0x02, 0x01, 0x03, 0x81, 0xA6, 0x01, 0x61, 0x61, 0x02, 0x38, 0x31,
    0x03, 0x01, 0x04, 0x01, 0x05, 0x01, 0x06, 0x59, UInt8.ofNat (extra / 256), UInt8.ofNat extra] ++
    List.replicate extra 0 ++ [0x04, 0x00]

theorem padded_lists (extra : ℕ) (h : extra = 300 ∨ extra = 951) : ((received (paddedFrame extra)).map
    fun list => (list.rowsBytes, list.unlistedBytes)) = some (extra + 18, 1) := by
  rcases h with rfl | rfl <;> decide +kernel

theorem padded_short : ∃ list, received (paddedFrame 300) = some list ∧
    (list.Relayable ↔ list.rowsBytes + list.unlistedBytes + 13 ≤ innerBodyBytes) := by
  obtain ⟨list, hlist, -⟩ := Option.map_eq_some_iff.mp (padded_lists 300 (.inl rfl))
  obtain ⟨e, result, he, h, hlisted⟩ := received_some hlist
  exact ⟨list, hlist, (received_relayable_iff he h hlisted).1⟩

theorem padded_unrelayable :
    ¬∀ (bytes : Bytes) (e : LinkEnvelope) (result : ScanResult) (list : ScanList), bytes.length ≤ maxPayload →
      LinkEnvelope.decode bytes = .ok e → ScanResult.decode e = .ok result → result.list = some list →
        list.Relayable := by
  intro hall
  obtain ⟨list, hlist, hbytes⟩ := Option.map_eq_some_iff.mp (padded_lists 951 (.inr rfl))
  obtain ⟨e, result, he, h, hlisted⟩ := received_some hlist
  obtain ⟨hrows, hunlisted⟩ := Prod.mk.inj hbytes
  have hlen : (paddedFrame 951).length ≤ maxPayload := by decide +kernel
  have hroom := (Accepted.linked he h hlisted).relayable_iff.mp (hall _ _ _ _ hlen he h hlisted)
  rw [hrows, hunlisted] at hroom
  exact absurd hroom (by decide)

end Km43.Wifi
