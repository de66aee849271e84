import Km43.Link.Body
import Km43.Wifi.Answers

namespace Km43.Wifi

open Library Cbor CborReader CborWriter Link

variable {d : ℕ}

namespace ResultSlots

def scanOf (i : Item) : Option ScanNumber :=
  (u32Of i).bind fun raw => ((scanNumber raw).mapError LinkError.ofWifi).toOption

theorem readScan_reads : Reads (fun _ => True) d readScan scanOf :=
  (Reads.u32 fun _ => trivial).checked (fun raw => (scanNumber raw).mapError LinkError.ofWifi) fun _ _ _ => trivial

theorem readOutcome_reads : Reads (fun _ => True) d readOutcome (closedOf ScanOutcome.tryFrom) := by
  have h := (Reads.u8 (ε := LinkError) (d := d) fun _ => trivial).checked
    (fun raw => (closed .outcome ScanOutcome.tryFrom raw).mapError LinkError.ofWifi) fun _ _ _ => trivial
  have hspec : closedOf ScanOutcome.tryFrom = fun i =>
      (u8Of i).bind fun raw => ((closed .outcome ScanOutcome.tryFrom raw).mapError LinkError.ofWifi).toOption := by
    funext i
    refine congrArg _ (funext fun raw => ?_)
    unfold closed
    cases ScanOutcome.tryFrom raw <;> rfl
  rw [hspec]
  exact h

def fill : ℤ → Item → Option (ResultSlots → ResultSlots)
  | 1, i => (scanOf i).map fun v s => { s with scan := some v }
  | 2, i => (closedOf ScanOutcome.tryFrom i).map fun v s => { s with outcome := some v }
  | 3, i => (some i.spelling).map fun v s => { s with rows := some v }
  | 4, i => (u16Of i).map fun v s => { s with unlisted := some v }
  | _, _ => none

def has : ResultSlots → ℤ → Bool
  | s, 1 => s.scan.isSome
  | s, 2 => s.outcome.isSome
  | s, 3 => s.rows.isSome
  | s, 4 => s.unlisted.isSome
  | _, _ => false

abbrev Known (k : ℤ) : Prop := 1 ≤ k ∧ k ≤ 4

def take : ℤ → ResultSlots → Item → Option ResultSlots := slotStep has fill Known

theorem known_cases {k : ℤ} (h : Known k) : k = 1 ∨ k = 2 ∨ k = 3 ∨ k = 4 := by
  obtain ⟨hlow, hhigh⟩ := h
  omega

theorem fill_cases {k : ℤ} {i : Item} {put : ResultSlots → ResultSlots} (h : fill k i = some put) :
    (k = 1 ∧ ∃ v, put = fun s => { s with scan := some v }) ∨
    (k = 2 ∧ ∃ v, put = fun s => { s with outcome := some v }) ∨
    (k = 3 ∧ ∃ v, put = fun s => { s with rows := some v }) ∨
    (k = 4 ∧ ∃ v, put = fun s => { s with unlisted := some v }) := by
  unfold fill at h
  split at h
  case h_5 => cases h
  all_goals
    obtain ⟨v, -, rfl⟩ := Option.map_eq_some_iff.mp h
    first
    | exact .inl ⟨rfl, v, rfl⟩
    | exact .inr (.inl ⟨rfl, v, rfl⟩)
    | exact .inr (.inr (.inl ⟨rfl, v, rfl⟩))
    | exact .inr (.inr (.inr ⟨rfl, v, rfl⟩))

theorem own_slots : OwnSlots has fill Known := by
  constructor
  · intro k j i put s _ hj hput
    rcases fill_cases hput with ⟨rfl, v, rfl⟩ | ⟨rfl, v, rfl⟩ | ⟨rfl, v, rfl⟩ | ⟨rfl, v, rfl⟩ <;>
      rcases known_cases hj with rfl | rfl | rfl | rfl <;> rfl
  · intro k j i i' put put' s _ _ hkj hput hput'
    rcases fill_cases hput with ⟨rfl, v, rfl⟩ | ⟨rfl, v, rfl⟩ | ⟨rfl, v, rfl⟩ | ⟨rfl, v, rfl⟩ <;>
      rcases fill_cases hput' with ⟨rfl, w, rfl⟩ | ⟨rfl, w, rfl⟩ | ⟨rfl, w, rfl⟩ | ⟨rfl, w, rfl⟩ <;>
      first | rfl | exact absurd rfl hkj

def putRows (v : Bytes) (s : ResultSlots) : ResultSlots := { s with rows := some v }

theorem watches : Watches (fun _ => True) d step take Known (fun s k => has s k) fun _ s => s := by
  constructor
  · intro k s hk
    rcases known_cases hk with rfl | rfl | rfl | rfl
    · exact .inl (slotStep_reads readScan_reads trivial hk rfl (fun _ => rfl) fun _ => rfl)
    · exact .inl (slotStep_reads readOutcome_reads trivial hk rfl (fun _ => rfl) fun _ => rfl)
    · exact .inr ⟨_, slotStep_keeps (fun _ => trivial) trivial hk rfl (fun _ => rfl) fun v => (rfl : putRows v s = _)⟩
    · exact .inl (slotStep_reads (Reads.u16 fun _ => trivial) trivial hk rfl (fun _ => rfl) fun _ => rfl)
  · intro k s hk
    unfold step
    split <;> first | rfl | exact absurd (by decide) hk

theorem has_empty {k : ℤ} (hk : Known k) : has empty k = false := by
  rcases known_cases hk with rfl | rfl | rfl | rfl <;> rfl

theorem list_some {s : ResultSlots} {outcome : ScanOutcome} {found : Option ScanList} (h : s.list outcome = .ok found) :
    (outcome = .complete ↔ found.isSome) ∧ (s.rows.isSome ↔ found.isSome) ∧ (s.unlisted.isSome ↔ found.isSome) ∧
      ∀ list, found = some list → ∃ rows, s.rows = some rows ∧ ScanList.read rows list.unlisted = .ok list := by
  unfold list at h
  split at h
  · rename_i rows unlisted hrows hunlisted
    obtain ⟨list, hread, h⟩ := bind_ok.mp h
    cases h
    obtain ⟨count, r, -, -, rfl, -⟩ := ScanList.read_ok.mp hread
    refine ⟨by simp, by simp [hrows], by simp [hunlisted], ?_⟩
    rintro _ ⟨⟩
    exact ⟨rows, hrows, hread⟩
  · rename_i hrows hunlisted
    cases h
    exact ⟨by simp, by simp [hrows], by simp [hunlisted], by simp⟩
  · cases h

variable {pairs : List (Key × Item)} {s : ResultSlots}

theorem outcome_read (h : foldPairs take pairs empty = some s) (outcome : ScanOutcome) : s.outcome = some outcome ↔
    ∃ p ∈ pairs, p.1.i64? = some 2 ∧ closedOf ScanOutcome.tryFrom p.2 = some outcome := by
  have hvalue := slotStep_value ResultSlots.outcome (closedOf ScanOutcome.tryFrom) (k := 2)
    (by decide) (fun _ => rfl) ?_ ?_ h (b := outcome)
  · rw [hvalue]
    simp [empty]
  · intro i put s hput
    obtain ⟨v, hv, rfl⟩ := Option.map_eq_some_iff.mp hput
    exact hv.symm
  · intro j i put s _ hne hput
    rcases fill_cases hput with ⟨rfl, v, rfl⟩ | ⟨rfl, v, rfl⟩ | ⟨rfl, v, rfl⟩ | ⟨rfl, v, rfl⟩ <;>
      first | rfl | exact absurd rfl hne

theorem rows_read (h : foldPairs take pairs empty = some s) (rows : Bytes) : s.rows = some rows ↔
    ∃ p ∈ pairs, p.1.i64? = some 3 ∧ p.2.spelling = rows := by
  have hvalue := slotStep_value ResultSlots.rows (fun i => some i.spelling) (k := 3)
    (by decide) (fun _ => rfl) ?_ ?_ h (b := rows)
  · rw [hvalue]
    simp [empty]
  · intro i put s hput
    cases hput
    rfl
  · intro j i put s _ hne hput
    rcases fill_cases hput with ⟨rfl, v, rfl⟩ | ⟨rfl, v, rfl⟩ | ⟨rfl, v, rfl⟩ | ⟨rfl, v, rfl⟩ <;>
      first | rfl | exact absurd rfl hne

end ResultSlots

theorem ScanResult.decode_keys {bytes : Bytes} {e : LinkEnvelope} {result : ScanResult}
    (he : LinkEnvelope.decode bytes = .ok e) (h : ScanResult.decode e = .ok result) :
    ∃ pairs, LegalPairs (maxDepth - 2) pairs ∧ (ranks pairs).Nodup ∧ pairs.length = e.keys ∧
      e.body.rest = Item.spellPairs pairs ∧
      (∃ p ∈ pairs, p.1.i64? = some 2 ∧ closedOf ScanOutcome.tryFrom p.2 = some result.outcome) ∧
      (HasKey pairs 3 ↔ result.list.isSome) ∧ (HasKey pairs 4 ↔ result.list.isSome) ∧
      ∀ list, result.list = some list →
        ∃ p ∈ pairs, p.1.i64? = some 3 ∧ ScanList.read p.2.spelling list.unlisted = .ok list := by
  obtain ⟨⟨slots, body⟩, hloop, h⟩ := bind_ok.mp h
  obtain ⟨⟨⟩, hfinish, h⟩ := bind_ok.mp h
  obtain ⟨scan, -, h⟩ := bind_ok.mp (mapError_ok.mp h)
  obtain ⟨outcome, houtcome, h⟩ := bind_ok.mp h
  obtain ⟨found, hfound, h⟩ := bind_ok.mp h
  cases h
  obtain ⟨pairs, hlegal, hfresh, hlen, hrest, hfold⟩ := LinkEnvelope.body_pairs he ResultSlots.watches
    (slotStep_fills ResultSlots.own_slots) (fun j hj => by simp [ResultSlots.has_empty hj]) hloop
    (mapError_ok.mp hfinish)
  obtain ⟨hcomplete, hrows, hunlisted, hread⟩ := ResultSlots.list_some hfound
  have hslot : ∀ k, ResultSlots.Known k → (HasKey pairs k ↔ slots.has k) := by
    intro k hk
    rw [foldPairs_filled (slotStep_fills ResultSlots.own_slots) hfold hk, ResultSlots.has_empty hk]
    simp
  have hsaid : outcome = ScanResult.outcome ⟨scan, found⟩ := by
    unfold ScanResult.outcome
    cases outcome with
    | complete => rw [if_pos (hcomplete.mp rfl)]
    | failed =>
      rw [if_neg]
      intro hsome
      cases hcomplete.mpr hsome
  refine ⟨pairs, hlegal, hfresh, hlen, hrest, ?_, (hslot 3 (by decide)).trans hrows,
    (hslot 4 (by decide)).trans hunlisted, ?_⟩
  · rw [← hsaid, ← ResultSlots.outcome_read hfold]
    cases hslot : slots.outcome with
    | none =>
      rw [hslot] at houtcome
      cases houtcome
    | some held =>
      rw [hslot] at houtcome
      cases houtcome
      rfl
  · intro list hlist
    obtain ⟨rows, hkept, hlisted⟩ := hread list hlist
    obtain ⟨p, hp, hkey, rfl⟩ := (ResultSlots.rows_read hfold rows).mp hkept
    exact ⟨p, hp, hkey, hlisted⟩

/-- A list that a sender built, or that one of the two decoders let through. -/
inductive Accepted : ScanList → Prop
  | built {rows : List AccessPoint} {unlisted : UInt16} {list : ScanList}
      (new : ScanList.new rows unlisted = .ok list) : Accepted list
  | linked {bytes : Bytes} {e : LinkEnvelope} {result : ScanResult} {list : ScanList}
      (frame : LinkEnvelope.decode bytes = .ok e) (decoded : ScanResult.decode e = .ok result)
      (listed : result.list = some list) : Accepted list
  | answered {payload : Bytes} {answer : ScanAnswer} {held : HeldList}
      (decoded : ScanAnswer.decode payload = .ok answer) (holds : answer.held = some held) : Accepted held.list

theorem Accepted.source {list : ScanList} (h : Accepted list) :
    (∃ rows unlisted, ScanList.Sound rows ∧ list = ⟨.built rows, unlisted⟩) ∨
      ∃ i : Item, i.Legal (maxDepth - 1) ∧ ScanList.read i.spelling list.unlisted = .ok list := by
  cases h with
  | @built rows unlisted _ hnew =>
    obtain ⟨hsound, rfl⟩ := ScanList.new_ok.mp hnew
    exact .inl ⟨rows, unlisted, hsound, rfl⟩
  | linked hframe hdecoded hlisted =>
    obtain ⟨pairs, hlegal, -, -, -, -, -, -, hlist⟩ := ScanResult.decode_keys hframe hdecoded
    obtain ⟨p, hp, -, hread⟩ := hlist list hlisted
    exact .inr ⟨p.2, (hlegal p hp).2.mono (by decide), hread⟩
  | answered hdecoded hheld =>
    obtain ⟨i, hlegal, hread⟩ := ScanAnswer.decode_list hdecoded hheld
    exact .inr ⟨i, hlegal, hread⟩

theorem Accepted.carries {list : ScanList} (h : Accepted list) : ∃ i list', Carries list i list' ∧
    ∀ item count, list.rows = .read item count → list' = list ∧ i.spelling = item := by
  rcases h.source with ⟨rows, unlisted, hsound, rfl⟩ | ⟨i, hlegal, hread⟩
  · obtain ⟨list', hcarries⟩ := built_carries hsound unlisted
    exact ⟨_, list', hcarries, by simp⟩
  · refine ⟨i, list, read_carries hlegal hread, fun item count hrows => ⟨rfl, ?_⟩⟩
    obtain ⟨n, r, -, -, hlist, -⟩ := ScanList.read_ok.mp hread
    rw [hlist] at hrows
    exact (Rows.read.inj hrows).1

theorem Accepted.checked {list : ScanList} (h : Accepted list) : list.check = .ok () := by
  have hread : ∀ {item : Bytes} {unlisted : UInt16} {list : ScanList}, ScanList.read item unlisted = .ok list →
      list.check = .ok () := by
    intro item unlisted list h
    obtain ⟨-, -, -, -, -, hcheck⟩ := ScanList.read_ok.mp h
    exact hcheck
  cases h with
  | built hnew =>
    obtain ⟨⟨⟩, hcheck, hnew⟩ := bind_ok.mp hnew
    cases hnew
    exact hcheck
  | linked hframe hdecoded hlisted =>
    obtain ⟨pairs, -, -, -, -, -, -, -, hlist⟩ := ScanResult.decode_keys hframe hdecoded
    obtain ⟨p, -, -, hlisted⟩ := hlist list hlisted
    exact hread hlisted
  | answered hdecoded hheld =>
    obtain ⟨i, -, hlisted⟩ := ScanAnswer.decode_list hdecoded hheld
    exact hread hlisted

theorem spelling_infix {pairs : List (Key × Item)} {p : Key × Item} (h : p ∈ pairs) :
    p.2.spelling <:+: (Item.ofPairs pairs).spelling := by
  obtain ⟨before, after, rfl⟩ := List.append_of_mem h
  refine ⟨(Token.map (Width.of (before ++ p :: after).length) (before ++ p :: after).length).spelling ++
      (Item.spellPairs before ++ p.1.spelling), Item.spellPairs after, ?_⟩
  obtain ⟨k, v⟩ := p
  rw [Item.ofPairs, Item.spelling, Item.spellPairs_append, Item.spellPairs]
  simp only [List.append_assoc]

/-- The rule of a scan's rows, their relay from the link to a client, and what the two decoders insist on. -/
theorem scan_relay :
    (∀ rows unlisted, (∃ list, ScanList.new rows unlisted = .ok list) ↔ ScanList.Sound rows) ∧
    (∀ list, Accepted list → ∀ scan refused age answer,
      ScanAnswer.new scan refused (some ⟨age, list⟩) = .ok answer → ∃ body list',
        (∀ dst out, answer.encode dst = .ok out ↔ out = body ∧ body.length ≤ dst) ∧
        ScanAnswer.decode body = .ok ⟨scan, refused, some ⟨age, list'⟩⟩ ∧ list.Equal list' ∧
        (∀ rows, list.rows = .built rows → list'.Holds rows) ∧
        ∀ item count, list.rows = .read item count → list'.rows = .read item count ∧ item <:+: body) ∧
    (∀ list, Accepted list → ∀ n, ∀ x ∈ list.iter.walk n, ∃ row, x = .ok row) ∧
    (∀ payload answer, ScanAnswer.decode payload = .ok answer →
      ∃ w pairs, (Item.map w pairs).Legal maxDepth ∧ (Item.map w pairs).spelling = payload ∧
        (HasKey pairs 3 ↔ answer.held.isSome) ∧ (HasKey pairs 4 ↔ answer.held.isSome) ∧
        (HasKey pairs 5 ↔ answer.held.isSome) ∧ (answer.scan = .complete → answer.held.isSome) ∧
        (answer.scan = .none → answer.held.isNone)) ∧
    ∀ bytes e result, LinkEnvelope.decode bytes = .ok e → ScanResult.decode e = .ok result →
      ∃ pairs, LegalPairs (maxDepth - 2) pairs ∧ (ranks pairs).Nodup ∧ pairs.length = e.keys ∧
        e.body.rest = Item.spellPairs pairs ∧
        (∃ p ∈ pairs, p.1.i64? = some 2 ∧ closedOf ScanOutcome.tryFrom p.2 = some result.outcome) ∧
        (HasKey pairs 3 ↔ result.list.isSome) ∧ (HasKey pairs 4 ↔ result.list.isSome) := by
  refine ⟨?_, ?_, fun list h => ScanList.check_walk h.checked, fun payload answer => ScanAnswer.decode_keys, ?_⟩
  · intro rows unlisted
    constructor
    · rintro ⟨list, hlist⟩
      exact (ScanList.new_ok.mp hlist).1
    · intro h
      exact ⟨_, ScanList.new_ok.mpr ⟨h, rfl⟩⟩
  · intro list hlist scan refused age answer hanswer
    obtain ⟨i, list', hcarries, hrelayed⟩ := hlist.carries
    obtain ⟨hencode, hdecode⟩ := ScanAnswer.carried hcarries hanswer
    refine ⟨_, list', hencode, hdecode, hcarries.equal, fun rows hrows => hcarries.equal.built hrows,
      fun item count hrows => ?_⟩
    obtain ⟨rfl, rfl⟩ := hrelayed item count hrows
    exact ⟨hrows, spelling_infix (p := (Key.ofNat 4, i)) (by simp [ScanAnswer.pairs])⟩
  · intro bytes e result he h
    obtain ⟨pairs, hlegal, hfresh, hlen, hrest, houtcome, hrows, hunlisted, -⟩ := ScanResult.decode_keys he h
    exact ⟨pairs, hlegal, hfresh, hlen, hrest, houtcome, hrows, hunlisted⟩

end Km43.Wifi
