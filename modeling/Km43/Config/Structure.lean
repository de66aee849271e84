import Km43.Cbor.Whole
import Km43.Config.Sections

namespace Km43.Config

open Library Cbor CborReader Devices

/-- Error 1 where the structure is broken, and an outcome where a value alone is. -/
structure Judged {α : Type} (complete : Prop) (excepted : ConfigError → Prop) (result : Except ConfigError α) :
    Prop where
  broken : ¬complete → ∃ why, result = .error why ∧ why.answer = .malformedFrame
  sound : complete → ∀ why, result = .error why → why.answer = .invalid ∨ excepted why

section

variable {σ α : Type} {schema : Schema} {has : σ → ℤ → Bool} {fill : ℤ → Item → Option (σ → σ)} {known : ℤ → Prop}
  [DecidablePred known] {m : Read ConfigError σ} {start : σ}

theorem decodeBody_slots (hown : OwnSlots has fill known)
    (hm : Reads Malformed maxDepth m fun i =>
      i.pairs?.bind fun pairs => foldPairs (slotStep has fill known) pairs start)
    (hempty : ∀ k, known k → has start k = false)
    (htyped : ∀ k i, schema.typed k i ↔ (known k → (fill k i).isSome))
    (body : Bytes) :
    (∃ w pairs s, schema.Typed body w pairs ∧ foldPairs (slotStep has fill known) pairs start = some s ∧
      decodeBody m body = .ok s) ∨
    ((∀ w pairs, ¬schema.Typed body w pairs) ∧ ∃ why, decodeBody m body = .error why ∧ Malformed why) := by
  have hfolds : ∀ pairs, (ranks pairs).Nodup →
      ((∃ s, foldPairs (slotStep has fill known) pairs start = some s) ↔
        ∀ p ∈ pairs, ∃ k, p.1.i64? = some k ∧ schema.typed k p.2) := by
    intro pairs hfresh
    simp only [htyped]
    exact slotStep_folds hown hfresh fun p _ k _ hk => hempty k hk
  rcases decodeBody_cases malformed_cbor hm body with ⟨i, s, hi, hb, hs, hok⟩ | ⟨hnone, why, herror, hwhy⟩
  · left
    obtain ⟨pairs, hpairs, hs⟩ := Option.bind_eq_some_iff.mp hs
    cases i with
    | map w pairs' =>
      obtain rfl := Option.some.inj hpairs
      exact ⟨w, _, s, ⟨hi, hb, (hfolds _ hi.2.1).mp ⟨s, hs⟩⟩, hs, hok⟩
    | unsigned | negative | bytes | text | array | bool => cases hpairs
  · right
    refine ⟨fun w pairs h => ?_, why, herror, hwhy⟩
    obtain ⟨s, hs⟩ := (hfolds pairs h.legal.2.1).mpr h.typed
    have hnot := hnone _ h.legal h.spelling
    rw [Item.pairs?, Option.bind_some, hs] at hnot
    cases hnot

theorem typed_complete (hown : OwnSlots has fill known) (hempty : ∀ k, known k → has start k = false)
    (hrequired : ∀ k ∈ schema.required, known k) (hbeside : ∀ b ∈ schema.beside, known b.1 ∧ known b.2)
    {pairs : List (Key × Item)} {s : σ} (hs : foldPairs (slotStep has fill known) pairs start = some s) :
    schema.Complete (HasKey pairs) ↔ schema.Complete fun k => has s k := by
  have hslot : ∀ k, known k → (HasKey pairs k ↔ has s k) := by
    intro k hk
    rw [foldPairs_filled (slotStep_fills hown) hs hk, hempty k hk]
    simp
  apply and_congr
  · exact forall₂_congr fun k hk => hslot k (hrequired k hk)
  · refine forall₂_congr fun b hb => ?_
    rw [hslot b.1 (hbeside b hb).1, hslot b.2 (hbeside b hb).2]

theorem judged_iff (hown : OwnSlots has fill known)
    (hm : Reads Malformed maxDepth m fun i =>
      i.pairs?.bind fun pairs => foldPairs (slotStep has fill known) pairs start)
    (hempty : ∀ k, known k → has start k = false)
    (htyped : ∀ k i, schema.typed k i ↔ (known k → (fill k i).isSome))
    (hrequired : ∀ k ∈ schema.required, known k) (hbeside : ∀ b ∈ schema.beside, known b.1 ∧ known b.2)
    (judge : σ → Except ConfigError α) (excepted : ConfigError → Prop) (body : Bytes) :
    Judged (schema.Sound body) excepted (decodeBody m body >>= judge) ↔
      ∀ w pairs s, schema.Typed body w pairs → foldPairs (slotStep has fill known) pairs start = some s →
        Judged (schema.Complete fun k => has s k) excepted (judge s) := by
  rcases decodeBody_slots hown hm hempty htyped body with ⟨w, pairs, s, hbody, hs, hok⟩ | ⟨hnone, why, herror, hwhy⟩
  · have hsound : schema.Sound body ↔ schema.Complete fun k => has s k := by
      rw [← typed_complete hown hempty hrequired hbeside hs]
      constructor
      · rintro ⟨w', pairs', hbody', hcomplete⟩
        rw [hbody.unique hbody']
        exact hcomplete
      · intro hcomplete
        exact ⟨w, pairs, hbody, hcomplete⟩
    rw [hsound, hok]
    constructor
    · intro h w' pairs' s' hbody' hs'
      obtain rfl := hbody.unique hbody'
      obtain rfl := Option.some.inj (hs.symm.trans hs')
      exact h
    · intro h
      exact h w pairs s hbody hs
  · rw [herror]
    constructor
    · intro _ w pairs s hbody
      exact absurd hbody (hnone w pairs)
    · intro _
      refine ⟨fun _ => ⟨why, rfl, hwhy⟩, ?_⟩
      rintro ⟨w, pairs, hbody, -⟩
      exact absurd hbody (hnone w pairs)

end

def identitySchema : Schema where
  typed k i := k = 1 → i.str?.isSome
  required := [1]
  beside := []

def behaviourSchema : Schema where
  typed k i := k = 1 → i.bool?.isSome
  required := [1]
  beside := []

def writeSchema : Schema where
  typed k i := (k = 1 ∨ k = 2 ∨ k = 4 ∨ k = 5 → i.str?.isSome) ∧ (k = 3 → i.bool?.isSome)
  required := [4, 5]
  beside := []

/-- The passphrase may come as anything, and `psk_set` comes wherever `ssid` does. -/
def readSchema : Schema where
  typed k i := (k = 1 ∨ k = 4 ∨ k = 5 → i.str?.isSome) ∧ (k = 3 → i.bool?.isSome)
  required := [4, 5]
  beside := [(1, 3)]

theorem within_invalid {key : SectionKey} {text : Str} {shortest longest : ℕ} {why : ConfigError}
    (h : within key text shortest longest = .error why) : why.answer = .invalid := by
  unfold within at h
  split_ifs at h
  cases h
  rfl

theorem Country.new_invalid {text : Str} {why : ConfigError} (h : Country.new text = .error why) :
    why.answer = .invalid := by
  unfold Country.new at h
  split_ifs at h <;> cases h <;> rfl

theorem Hostname.new_invalid {text : Str} {why : ConfigError} (h : Hostname.new text = .error why) :
    why.answer = .invalid := by
  rcases bind_error.mp h with h | ⟨name, -, h⟩
  · exact within_invalid h
  · split_ifs at h
    cases h
    rfl

namespace NetworkText

variable {ρ : Type} {s : NetworkText ρ}

theorem common_missing (h : ¬(s.country.isSome ∧ s.hostname.isSome)) : ∃ key, s.common = .error (.missing key) := by
  unfold common
  cases hcountry : s.country with
  | none => exact ⟨.country, rfl⟩
  | some country =>
    cases hhostname : s.hostname with
    | none => exact ⟨.hostname, rfl⟩
    | some hostname => simp [hcountry, hhostname] at h

theorem common_invalid (h : s.country.isSome ∧ s.hostname.isSome) {why : ConfigError} (herror : s.common = .error why) :
    why.answer = .invalid := by
  obtain ⟨hcountry, hhostname⟩ := h
  obtain ⟨country, hcountry⟩ := Option.isSome_iff_exists.mp hcountry
  obtain ⟨hostname, hhostname⟩ := Option.isSome_iff_exists.mp hhostname
  have hnew : s.common = (do
      let country ← Country.new country
      let hostname ← Hostname.new hostname
      .ok (country, hostname)) := by
    rw [common, hcountry, hhostname]
    rfl
  rw [hnew] at herror
  rcases bind_error.mp herror with herror | ⟨country, -, herror⟩
  · exact Country.new_invalid herror
  · rcases bind_error.mp herror with herror | ⟨hostname, -, herror⟩
    · exact Hostname.new_invalid herror
    · cases herror

theorem has_common : (∀ k ∈ [(4 : ℤ), 5], has s k = true) ↔ s.country.isSome ∧ s.hostname.isSome := by
  simp [has]

end NetworkText

theorem oneKey_typed {β : Type} (value : Item → Option β) (k : ℤ) (i : Item) :
    (k = 1 → (value i).isSome) ↔ (OneKey.Known k → (OneKey.fill value k i).isSome) := by
  refine forall_congr' fun hk => ?_
  rw [OneKey.fill, if_pos hk, Option.isSome_map]

theorem network_typed {ρ : Type} (secretOf : Item → Option ρ) (k : ℤ) (i : Item) :
    (NetworkText.Known k → (NetworkText.fill secretOf k i).isSome) ↔
      (k = 1 ∨ k = 4 ∨ k = 5 → i.str?.isSome) ∧ (k = 2 → (secretOf i).isSome) ∧ (k = 3 → i.bool?.isSome) := by
  by_cases hk : NetworkText.Known k
  · rcases NetworkText.known_cases hk with rfl | rfl | rfl | rfl | rfl <;> simp [NetworkText.Known, NetworkText.fill]
  · have hne : ∀ j, NetworkText.Known j → k ≠ j := by
      rintro j hj rfl
      exact hk hj
    simp [hk, hne 1 (by decide), hne 2 (by decide), hne 3 (by decide), hne 4 (by decide), hne 5 (by decide)]

theorem identity_judged (body : Bytes) :
    Judged (identitySchema.Sound body) (fun _ => False) (IdentitySection.decode body) := by
  apply (judged_iff OneKey.own_slots (OneKey.reads (textValue_reads malformed_cbor) .siteName) (fun _ _ => by simp [OneKey.has])
    (oneKey_typed Item.str?) (by simp [identitySchema]) (by simp [identitySchema]) IdentitySection.ofSlot _ body).mpr
  intro w pairs s _ _
  cases s with
  | none => exact ⟨fun _ => ⟨_, rfl, rfl⟩, fun h => by simp [Schema.Complete, identitySchema, OneKey.has] at h⟩
  | some text =>
    refine ⟨fun h => absurd ⟨by simp [identitySchema, OneKey.has], by simp [identitySchema]⟩ h, fun _ why h => .inl ?_⟩
    change (SiteName.new text >>= fun name => .ok (IdentitySection.mk name)) = .error why at h
    rcases bind_error.mp h with h | ⟨name, -, h⟩
    · exact within_invalid h
    · cases h

theorem behaviour_judged (body : Bytes) :
    Judged (behaviourSchema.Sound body) (fun _ => False) (BehaviourSection.decode body) := by
  apply (judged_iff OneKey.own_slots (OneKey.reads (Reads.bool malformed_cbor) .shadow) (fun _ _ => by simp [OneKey.has])
    (oneKey_typed Item.bool?) (by simp [behaviourSchema]) (by simp [behaviourSchema]) BehaviourSection.ofSlot _ body).mpr
  intro w pairs s _ _
  cases s with
  | none => exact ⟨fun _ => ⟨_, rfl, rfl⟩, fun h => by simp [Schema.Complete, behaviourSchema, OneKey.has] at h⟩
  | some shadow =>
    refine ⟨fun h => absurd ⟨by simp [behaviourSchema, OneKey.has], by simp [behaviourSchema]⟩ h, fun _ why h => ?_⟩
    rw [BehaviourSection.ofSlot, slotRequired_some] at h
    cases h

namespace NetworkWrite

theorem joined_invalid {s : NetworkText Str} {why : ConfigError} (h : joined s = .error why) : why.answer = .invalid := by
  unfold joined at h
  split at h
  · cases h
  · cases h
    rfl
  · rcases bind_error.mp h with h | ⟨ssid, -, h⟩
    · exact within_invalid h
    · cases h
  · rcases bind_error.mp h with h | ⟨ssid, -, h⟩
    · exact within_invalid h
    · rcases bind_error.mp h with h | ⟨psk, -, h⟩
      · exact within_invalid h
      · cases h

theorem ofText_invalid {s : NetworkText Str} (hs : s.country.isSome ∧ s.hostname.isSome) {why : ConfigError}
    (h : ofText s = .error why) : why.answer = .invalid := by
  rcases bind_error.mp h with h | ⟨common, -, h⟩
  · exact NetworkText.common_invalid hs h
  · dsimp only at h
    split_ifs at h
    · cases h
      rfl
    · rcases bind_error.mp h with h | ⟨join, -, h⟩
      · exact joined_invalid h
      · cases h

end NetworkWrite

theorem write_judged (body : Bytes) :
    Judged (writeSchema.Sound body) (fun _ => False) (NetworkWrite.decode body) := by
  have htyped : ∀ k i, writeSchema.typed k i ↔
      (NetworkText.Known k → (NetworkText.fill Item.str? k i).isSome) := by
    intro k i
    rw [network_typed]
    simp only [writeSchema]
    tauto
  apply (judged_iff NetworkText.own_slots NetworkWrite.reads (fun _ hk => NetworkText.has_empty hk) htyped
    (by simp [writeSchema, NetworkText.Known]) (by simp [writeSchema]) NetworkWrite.ofText _ body).mpr
  intro w pairs s _ _
  have hcomplete : (writeSchema.Complete fun k => NetworkText.has s k) ↔ s.country.isSome ∧ s.hostname.isSome := by
    rw [← NetworkText.has_common]
    exact and_iff_left (by simp [writeSchema])
  rw [hcomplete]
  constructor
  · intro hmissing
    obtain ⟨key, hkey⟩ := NetworkText.common_missing hmissing
    refine ⟨.missing key, ?_, rfl⟩
    rw [NetworkWrite.ofText, hkey]
    rfl
  · intro hs why h
    exact .inl (NetworkWrite.ofText_invalid hs h)

namespace NetworkRead

def JoinRefused (s : NetworkText Unit) : Prop :=
  s.pskSet.isSome ∧ ∀ ssid, s.ssid = some ssid → ¬(1 ≤ ssid.raw.length ∧ ssid.raw.length ≤ maxSsid)

theorem joined_refused {s : NetworkText Unit} (h : JoinRefused s) :
    ∃ why, joined s = .error why ∧ why.answer = .invalid := by
  obtain ⟨hset, hssid⟩ := h
  obtain ⟨pskSet, hset⟩ := Option.isSome_iff_exists.mp hset
  unfold joined
  cases hs : s.ssid with
  | none =>
    rw [hset]
    exact ⟨.passphraseWithoutNetwork, rfl, rfl⟩
  | some ssid =>
    rw [hset]
    refine ⟨.length .ssid ssid.raw.length, ?_, rfl⟩
    have hnew : Ssid.new ssid = .error (.length .ssid ssid.raw.length) := dif_neg (hssid ssid hs)
    simp only [hnew, bind, Except.bind]

theorem joined_error {s : NetworkText Unit} (h : ¬JoinRefused s) {why : ConfigError} (herror : joined s = .error why) :
    why = .missing .pskSet ∧ s.ssid.isSome ∧ s.pskSet = none := by
  unfold joined at herror
  split at herror
  · cases herror
  · rename_i pskSet hssid hset
    exact absurd ⟨by simp [hset], by simp [hssid]⟩ h
  · rename_i ssid hssid hset
    cases herror
    exact ⟨rfl, by simp [hssid], hset⟩
  · rename_i ssid pskSet hssid hset
    rcases bind_error.mp herror with herror | ⟨name, -, herror⟩
    · refine absurd ⟨by simp [hset], ?_⟩ h
      intro ssid' hssid' hbounds
      obtain rfl := Option.some.inj (hssid.symm.trans hssid')
      rw [Ssid.new, within, dif_pos hbounds] at herror
      cases herror
    · cases herror

def Whole (s : NetworkText Unit) : Prop :=
  (s.country.isSome ∧ s.hostname.isSome) ∧ (s.ssid.isSome → s.pskSet.isSome)

theorem ofText_judged (s : NetworkText Unit) :
    Judged (Whole s) (fun why => why = .secretInConfig .psk) (ofText s) ↔
      ¬(s.psk = none ∧ ¬(s.country.isSome ∧ s.hostname.isSome) ∧ JoinRefused s) := by
  unfold ofText
  cases hpsk : s.psk with
  | some u =>
    simp only [Option.isSome_some, if_true, reduceCtorEq, false_and, not_false_eq_true, iff_true]
    refine ⟨fun _ => ⟨_, rfl, rfl⟩, ?_⟩
    rintro _ _ ⟨⟩
    exact .inr rfl
  | none =>
    simp only [Option.isSome_none, Bool.false_eq_true, if_false, true_and]
    by_cases hrefused : JoinRefused s
    · obtain ⟨why, hjoined, hwhy⟩ := joined_refused hrefused
      rw [hjoined]
      change Judged (Whole s) _ (.error why : Except ConfigError NetworkRead) ↔ _
      constructor
      · rintro h ⟨hmissing, -⟩
        obtain ⟨why', heq, hwhy'⟩ := h.broken fun hwhole => hmissing hwhole.1
        cases heq
        rw [hwhy] at hwhy'
        cases hwhy'
      · intro h
        have hcommon : s.country.isSome ∧ s.hostname.isSome := by
          by_contra hmissing
          exact h ⟨hmissing, hrefused⟩
        refine ⟨fun hbroken => absurd ⟨hcommon, fun _ => hrefused.1⟩ hbroken, ?_⟩
        rintro _ _ ⟨⟩
        exact .inl hwhy
    · refine iff_of_true ⟨?_, ?_⟩ fun h => hrefused h.2
      · intro hbroken
        cases hjoined : joined s with
        | error why =>
          obtain ⟨rfl, -⟩ := joined_error hrefused hjoined
          exact ⟨_, rfl, rfl⟩
        | ok join =>
          have hmissing : ¬(s.country.isSome ∧ s.hostname.isSome) := by
            intro hcommon
            refine hbroken ⟨hcommon, fun hssid => ?_⟩
            by_contra hset
            obtain ⟨ssid, hssid⟩ := Option.isSome_iff_exists.mp hssid
            rw [Option.not_isSome_iff_eq_none] at hset
            rw [joined, hssid, hset] at hjoined
            cases hjoined
          obtain ⟨key, hkey⟩ := NetworkText.common_missing hmissing
          refine ⟨.missing key, ?_, rfl⟩
          rw [hkey]
          rfl
      · intro hwhole why h
        left
        rcases bind_error.mp h with h | ⟨join, -, h⟩
        · obtain ⟨-, hssid, hset⟩ := joined_error hrefused h
          have := hwhole.2 hssid
          rw [hset] at this
          cases this
        · rcases bind_error.mp h with h | ⟨common, -, h⟩
          · exact NetworkText.common_invalid hwhole.1 h
          · cases h

end NetworkRead

/-- A body with no passphrase in it that is without a required key, and whose `psk_set` comes with no `ssid` of
1 to 32 bytes. -/
def HiddenMissing (body : Bytes) : Prop :=
  ∃ w pairs, readSchema.Typed body w pairs ∧ ¬HasKey pairs 2 ∧ ¬(HasKey pairs 4 ∧ HasKey pairs 5) ∧ HasKey pairs 3 ∧
    ∀ p ∈ pairs, p.1.i64? = some 1 → ∀ ssid, p.2.str? = some ssid →
      ¬(1 ≤ ssid.raw.length ∧ ssid.raw.length ≤ maxSsid)

section

variable {pairs : List (Key × Item)} {s : NetworkText Unit}

theorem read_has (hs : foldPairs (NetworkText.take fun _ => some ()) pairs .empty = some s) {k : ℤ}
    (hk : NetworkText.Known k) : NetworkText.has s k = true ↔ HasKey pairs k := by
  rw [foldPairs_filled (slotStep_fills NetworkText.own_slots) hs hk, NetworkText.has_empty hk]
  simp

theorem read_ssid (hs : foldPairs (NetworkText.take fun _ => some ()) pairs .empty = some s) (ssid : Str) :
    s.ssid = some ssid ↔ ∃ p ∈ pairs, p.1.i64? = some 1 ∧ p.2.str? = some ssid := by
  have hvalue := slotStep_value NetworkText.ssid Item.str? (k := 1) (by decide) (fun _ => rfl)
    ?_ ?_ hs (b := ssid)
  · rw [hvalue]
    simp [NetworkText.empty]
  · intro i put s hput
    obtain ⟨v, hv, rfl⟩ := Option.map_eq_some_iff.mp hput
    exact hv.symm
  · intro j i put s hj hne hput
    rcases NetworkText.known_cases hj with rfl | rfl | rfl | rfl | rfl
    · exact absurd rfl hne
    · obtain rfl := Option.some.inj hput
      rfl
    all_goals
      obtain ⟨v, -, rfl⟩ := Option.map_eq_some_iff.mp hput
      rfl

theorem hidden_slots (hs : foldPairs (NetworkText.take fun _ => some ()) pairs .empty = some s) :
    (s.psk = none ∧ ¬(s.country.isSome ∧ s.hostname.isSome) ∧ NetworkRead.JoinRefused s) ↔
      ¬HasKey pairs 2 ∧ ¬(HasKey pairs 4 ∧ HasKey pairs 5) ∧ HasKey pairs 3 ∧
        ∀ p ∈ pairs, p.1.i64? = some 1 → ∀ ssid, p.2.str? = some ssid →
          ¬(1 ≤ ssid.raw.length ∧ ssid.raw.length ≤ maxSsid) := by
  have hpsk : s.psk = none ↔ ¬HasKey pairs 2 := by
    rw [← read_has hs (k := 2) (by decide)]
    simp [NetworkText.has]
  have hcommon : s.country.isSome ∧ s.hostname.isSome ↔ HasKey pairs 4 ∧ HasKey pairs 5 := by
    rw [← read_has hs (k := 4) (by decide), ← read_has hs (k := 5) (by decide)]
    rfl
  have hjoin : NetworkRead.JoinRefused s ↔ HasKey pairs 3 ∧
      ∀ p ∈ pairs, p.1.i64? = some 1 → ∀ ssid, p.2.str? = some ssid →
        ¬(1 ≤ ssid.raw.length ∧ ssid.raw.length ≤ maxSsid) := by
    rw [NetworkRead.JoinRefused, ← read_has hs (k := 3) (by decide)]
    apply and_congr Iff.rfl
    constructor
    · intro h p hp hkey ssid hssid
      exact h ssid ((read_ssid hs ssid).mpr ⟨p, hp, hkey, hssid⟩)
    · intro h ssid hssid
      obtain ⟨p, hp, hkey, hread⟩ := (read_ssid hs ssid).mp hssid
      exact h p hp hkey ssid hread
  rw [hpsk, hcommon, hjoin]

end

theorem read_judged (body : Bytes) :
    Judged (readSchema.Sound body) (fun why => why = .secretInConfig .psk) (NetworkRead.decode body) ↔
      ¬HiddenMissing body := by
  have htyped : ∀ k i, readSchema.typed k i ↔
      (NetworkText.Known k → (NetworkText.fill (fun _ => some ()) k i).isSome) := by
    intro k i
    rw [network_typed]
    simp only [readSchema, Option.isSome_some]
    tauto
  rw [show NetworkRead.decode body = (decodeBody (NetworkText.read NetworkRead.secret) body >>= NetworkRead.ofText)
    from rfl, judged_iff NetworkText.own_slots NetworkRead.reads (fun _ hk => NetworkText.has_empty hk) htyped
    (by simp [readSchema, NetworkText.Known]) (by simp [readSchema, NetworkText.Known])]
  have hwhole : ∀ s : NetworkText Unit, (readSchema.Complete fun k => NetworkText.has s k) ↔ NetworkRead.Whole s := by
    intro s
    apply and_congr NetworkText.has_common
    simp [readSchema, NetworkText.has]
  constructor
  · rintro h ⟨w, pairs, hbody, hhidden⟩
    rcases decodeBody_slots NetworkText.own_slots NetworkRead.reads (fun _ hk => NetworkText.has_empty hk) htyped body
      with ⟨w', pairs', s, hbody', hs, -⟩ | ⟨hnone, -⟩
    · obtain rfl := hbody.unique hbody'
      have hjudged := h w pairs s hbody hs
      rw [hwhole, NetworkRead.ofText_judged] at hjudged
      exact hjudged ((hidden_slots hs).mpr hhidden)
    · exact hnone w pairs hbody
  · intro h w pairs s hbody hs
    rw [hwhole, NetworkRead.ofText_judged]
    intro hhidden
    exact h ⟨w, pairs, hbody, (hidden_slots hs).mp hhidden⟩

/-- Structure before values, in every body: of the four decoders one asks for a value too early. -/
theorem structure_first (body : Bytes) :
    Judged (identitySchema.Sound body) (fun _ => False) (IdentitySection.decode body) ∧
    Judged (behaviourSchema.Sound body) (fun _ => False) (BehaviourSection.decode body) ∧
    Judged (writeSchema.Sound body) (fun _ => False) (NetworkWrite.decode body) ∧
    (Judged (readSchema.Sound body) (fun why => why = .secretInConfig .psk) (NetworkRead.decode body) ↔
      ¬HiddenMissing body) :=
  ⟨identity_judged body, behaviour_judged body, write_judged body, read_judged body⟩

def bareJoin : Bytes := [0xA2, 0x01, 0x60, 0x03, 0xF5]

theorem bareJoin_refused : (NetworkRead.decode bareJoin).map (fun _ => ()) = .error (.length .ssid 0) := by
  decide +kernel

theorem structure_first_not : ¬Judged (readSchema.Sound bareJoin) (fun why => why = .secretInConfig .psk)
    (NetworkRead.decode bareJoin) := by
  have hlegal : (Item.map .inline [(Key.ofNat 1, .text .inline []), (Key.ofNat 3, .bool true)]).Legal maxDepth := by
    have hutf8 : isUtf8 [] = true := rfl
    refine ⟨by decide, by decide, ?_⟩
    intro p hp
    fin_cases hp
    · exact ⟨(by decide : (Width.of 1).Holds 1), by decide, by decide, hutf8⟩
    · exact ⟨(by decide : (Width.of 3).Holds 3), trivial⟩
  have hspelling : (Item.map .inline [(Key.ofNat 1, .text .inline []), (Key.ofNat 3, .bool true)]).spelling = bareJoin := by
    decide
  have hbroken : ¬readSchema.Sound bareJoin := by
    rintro ⟨w, pairs, hbody, hrequired, -⟩
    have hitem := Item.spelling_inj hbody.legal hlegal (hbody.spelling.trans hspelling.symm)
    obtain ⟨-, rfl⟩ := Item.map.inj hitem
    obtain ⟨p, hp, hkey⟩ := hrequired 4 (by simp [readSchema])
    fin_cases hp <;> exact absurd hkey (by decide)
  intro h
  obtain ⟨why, herror, hwhy⟩ := h.broken hbroken
  have hrefused := bareJoin_refused
  rw [herror] at hrefused
  cases hrefused
  cases hwhy

end Km43.Config
