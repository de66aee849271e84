import Km43.Config.Sections
import Km43.Link.BodiesTrip
import Km43.Cbor.Carried

namespace Km43.Link

open Library Identity Cbor CborReader CborWriter Config

inductive NetKey
  | op
  | netVersion
  | ssid
  | psk
  | country
  | hostname
  | origin
  deriving DecidableEq

namespace NetKey

def all : List NetKey := [op, netVersion, ssid, psk, country, hostname, origin]

theorem keyList : KeyList all := ⟨by decide, fun k => by cases k <;> decide, by decide⟩

instance : Listed NetKey := ⟨all, keyList⟩

def field : NetKey → LinkField
  | op => .op
  | netVersion => .netVersion
  | ssid => .ssid
  | psk => .psk
  | country => .country
  | hostname => .hostname
  | origin => .origin

end NetKey

def passphraseOf (psk : Bytes) : Except LinkError Unit :=
  if psk.length < pskShortest ∨ psk.length > pskLongest then .error (.passphraseLength psk.length) else .ok ()

def countryOf (country : Bytes) : Except LinkError Unit :=
  if country.length ≠ countryBytes then .error (.countryNotTwoBytes country.length) else .ok ()

namespace NetChange

def Value : NetKey → Type
  | .op => NetConfigOp
  | .netVersion => UInt32
  | .ssid | .psk | .country | .hostname => Str
  | .origin => NetOrigin

def codec : ∀ k, Codec LinkError (Value k)
  | .op => (Codec.closed .unknownOp : Codec LinkError NetConfigOp)
  | .netVersion => .u32
  | .ssid => .text
  | .psk => .text
  | .country => .text
  | .hostname => .text
  | .origin => .fixed 8 .originNotEight

def table : Table LinkError NetKey := .ofCodecs codec fun k => .duplicate k.field

def metadata (version : UInt32) (country hostname : Str) : Except LinkError Unit := do
  if version = 0 then .error .zeroNetworkVersion
  else
    countryOf country.raw
    bounded .hostname hostname.raw

def checks : NetChange → Except LinkError Unit
  | .clearUnwritten => .ok ()
  | .set version ssid psk country hostname _ => do
    bounded .ssid ssid.raw
    passphraseOf psk.raw
    metadata version country hostname
  | .clear version country hostname _ => metadata version country hostname

def keys : NetChange → UInt64
  | .clearUnwritten => 2
  | .set .. => 7
  | .clear .. => 5

def entries : NetChange → List (NetKey × List Call)
  | .clearUnwritten => [(.op, [.u64 NetConfigOp.clear.byte.toUInt64]), (.netVersion, [.u64 0])]
  | .set version ssid psk country hostname origin =>
    [(.op, [.u64 NetConfigOp.set.byte.toUInt64]), (.netVersion, [.u64 version.toUInt64]), (.ssid, [.text ssid]),
      (.psk, [.text psk]), (.country, [.text country]), (.hostname, [.text hostname]), (.origin, [.bytes origin.toList])]
  | .clear version country hostname origin =>
    [(.op, [.u64 NetConfigOp.clear.byte.toUInt64]), (.netVersion, [.u64 version.toUInt64]),
      (.country, [.text country]), (.hostname, [.text hostname]), (.origin, [.bytes origin.toList])]

def write (v : NetChange) (header : LinkHeader) (dst : ℕ) : Except LinkError Bytes := do
  v.checks
  encodeBody (linkBody header v.keys v.entries) dst

def sectionOf (version : UInt32) (s : table.Slots) : Except LinkError (Str × Str × NetOrigin) :=
  if version = 0 then .error .zeroNetworkVersion
  else do
    let country : Str ← required (s .country) .country
    countryOf country.raw
    let hostname : Str ← required (s .hostname) .hostname
    bounded .hostname hostname.raw
    let origin ← required (s .origin) .origin
    .ok (country, hostname, origin)

def setOf (version : UInt32) (s : table.Slots) : Except LinkError NetChange := do
  let (country, hostname, origin) ← sectionOf version s
  let psk : Str ← required (s .psk) .psk
  passphraseOf psk.raw
  let ssid : Str ← required (s .ssid) .ssid
  bounded .ssid ssid.raw
  .ok (.set version ssid psk country hostname origin)

def clearOf (version : UInt32) (s : table.Slots) : Except LinkError NetChange :=
  if (s .ssid).isSome ∨ (s .psk).isSome then .error .clearCarriedCredentials
  else if version = 0 then
    if (s .country).isSome ∨ (s .hostname).isSome then .error .unwrittenClearCarriedMetadata
    else if (s .origin).isSome then .error .unwrittenClearCarriedOrigin
    else .ok .clearUnwritten
  else do
    let (country, hostname, origin) ← sectionOf version s
    .ok (.clear version country hostname origin)

def ofSlots (s : table.Slots) : Except LinkError NetChange := do
  let version : UInt32 ← required (s .netVersion) .netVersion
  let op : NetConfigOp ← required (s .op) .op
  match op with
  | .set => setOf version s
  | .clear => clearOf version s

def decode (envelope : LinkEnvelope) : Except LinkError NetChange := do
  let s ← bodySlots table envelope
  ofSlots s

end NetChange

theorem passphraseOf_ok {psk : Bytes} :
    passphraseOf psk = .ok () ↔ pskShortest ≤ psk.length ∧ psk.length ≤ pskLongest := by
  unfold passphraseOf
  split_ifs with h
  · exact ⟨fun h' => (nomatch h'), fun h' => by omega⟩
  · exact ⟨fun _ => by omega, fun _ => rfl⟩

theorem countryOf_ok {country : Bytes} : countryOf country = .ok () ↔ country.length = countryBytes := by
  unfold countryOf
  split_ifs with h <;> simp_all

theorem bounded_ok {key : LinkField} {text : Bytes} : bounded key text = .ok () ↔ text.length ≤ maxLinkText := by
  unfold bounded
  split_ifs with h
  · exact ⟨fun h' => (nomatch h'), fun h' => by omega⟩
  · exact ⟨fun _ => by omega, fun _ => rfl⟩

namespace NetChange

theorem metadata_ok {version : UInt32} {country hostname : Str} : metadata version country hostname = .ok () ↔
    version ≠ 0 ∧ countryOf country.raw = .ok () ∧ bounded .hostname hostname.raw = .ok () := by
  unfold metadata
  split_ifs with hzero
  · simp [hzero]
  · rw [seq_ok]
    simp [hzero]

theorem sectionOf_ok {version : UInt32} {s : table.Slots} {country hostname : Str} {origin : NetOrigin} :
    sectionOf version s = .ok (country, hostname, origin) ↔ metadata version country hostname = .ok () ∧
      s .country = some country ∧ s .hostname = some hostname ∧ s .origin = some origin := by
  rw [metadata_ok]
  unfold sectionOf
  constructor
  · intro h
    split_ifs at h with hzero
    obtain ⟨country', hcountry, h⟩ := bind_ok.mp h
    obtain ⟨hlen, h⟩ := seq_ok.mp h
    obtain ⟨hostname', hhostname, h⟩ := bind_ok.mp h
    obtain ⟨hcap, h⟩ := seq_ok.mp h
    obtain ⟨origin', horigin, h⟩ := bind_ok.mp h
    cases h
    exact ⟨⟨hzero, hlen, hcap⟩, required_ok.mp hcountry, required_ok.mp hhostname, required_ok.mp horigin⟩
  · rintro ⟨⟨hzero, hlen, hcap⟩, hcountry, hhostname, horigin⟩
    rw [if_neg hzero]
    exact bind_ok.mpr ⟨country, required_ok.mpr hcountry, seq_ok.mpr ⟨hlen, bind_ok.mpr ⟨hostname,
      required_ok.mpr hhostname, seq_ok.mpr ⟨hcap, bind_ok.mpr ⟨origin, required_ok.mpr horigin, rfl⟩⟩⟩⟩⟩

def slots : NetChange → ∀ k, Option (Value k)
  | .clearUnwritten, .op => some NetConfigOp.clear
  | .clearUnwritten, .netVersion => some (0 : UInt32)
  | .clearUnwritten, .ssid | .clearUnwritten, .psk | .clearUnwritten, .country | .clearUnwritten, .hostname |
    .clearUnwritten, .origin => none
  | .set .., .op => some NetConfigOp.set
  | .set version .., .netVersion => some version
  | .set _ ssid _ _ _ _, .ssid => some ssid
  | .set _ _ psk _ _ _, .psk => some psk
  | .set _ _ _ country _ _, .country => some country
  | .set _ _ _ _ hostname _, .hostname => some hostname
  | .set _ _ _ _ _ origin, .origin => some origin
  | .clear .., .op => some NetConfigOp.clear
  | .clear version .., .netVersion => some version
  | .clear .., .ssid | .clear .., .psk => none
  | .clear _ country _ _, .country => some country
  | .clear _ _ hostname _, .hostname => some hostname
  | .clear _ _ _ origin, .origin => some origin

theorem setOf_ok {version : UInt32} {s : table.Slots} {v : NetChange} (hversion : s .netVersion = some version)
    (hop : s .op = some NetConfigOp.set) (h : setOf version s = .ok v) : s = v.slots ∧ v.checks = .ok () := by
  obtain ⟨⟨country, hostname, origin⟩, hsection, h⟩ := bind_ok.mp h
  obtain ⟨psk, hpsk, h⟩ := bind_ok.mp h
  obtain ⟨hpass, h⟩ := seq_ok.mp h
  obtain ⟨ssid, hssid, h⟩ := bind_ok.mp h
  obtain ⟨hcap, h⟩ := seq_ok.mp h
  cases h
  obtain ⟨hmetadata, hcountry, hhostname, horigin⟩ := sectionOf_ok.mp hsection
  refine ⟨?_, seq_ok.mpr ⟨hcap, seq_ok.mpr ⟨hpass, hmetadata⟩⟩⟩
  funext k
  cases k with
  | op => exact hop
  | netVersion => exact hversion
  | ssid => exact required_ok.mp hssid
  | psk => exact required_ok.mp hpsk
  | country => exact hcountry
  | hostname => exact hhostname
  | origin => exact horigin

theorem clearOf_ok {version : UInt32} {s : table.Slots} {v : NetChange} (hversion : s .netVersion = some version)
    (hop : s .op = some NetConfigOp.clear) (h : clearOf version s = .ok v) : s = v.slots ∧ v.checks = .ok () := by
  unfold clearOf at h
  split_ifs at h with hcredentials hzero hmetadata horigin
  · cases h
    refine ⟨?_, rfl⟩
    simp only [not_or, Option.not_isSome_iff_eq_none] at hcredentials hmetadata horigin
    funext k
    cases k with
    | op => exact hop
    | netVersion => exact hversion.trans (congrArg some hzero)
    | ssid => exact hcredentials.1
    | psk => exact hcredentials.2
    | country => exact hmetadata.1
    | hostname => exact hmetadata.2
    | origin => exact horigin
  · obtain ⟨⟨country, hostname, origin⟩, hsection, h⟩ := bind_ok.mp h
    cases h
    obtain ⟨hmetadata, hcountry, hhostname, horigin⟩ := sectionOf_ok.mp hsection
    simp only [not_or, Option.not_isSome_iff_eq_none] at hcredentials
    refine ⟨?_, hmetadata⟩
    funext k
    cases k with
    | op => exact hop
    | netVersion => exact hversion
    | ssid => exact hcredentials.1
    | psk => exact hcredentials.2
    | country => exact hcountry
    | hostname => exact hhostname
    | origin => exact horigin

theorem clearOf_written {version : UInt32} {s : table.Slots} {country hostname : Str} {origin : NetOrigin}
    (hssid : s .ssid = none) (hpsk : s .psk = none) (hsection : sectionOf version s = .ok (country, hostname, origin)) :
    clearOf version s = .ok (.clear version country hostname origin) := by
  have hzero := (metadata_ok.mp (sectionOf_ok.mp hsection).1).1
  unfold clearOf
  rw [if_neg (by simp [hssid, hpsk]), if_neg hzero]
  exact bind_ok.mpr ⟨_, hsection, rfl⟩

theorem ofSlots_ok (s : table.Slots) (v : NetChange) : ofSlots s = .ok v ↔ s = v.slots ∧ v.checks = .ok () := by
  constructor
  · intro h
    obtain ⟨version, hversion, h⟩ := bind_ok.mp h
    obtain ⟨op, hop, h⟩ := bind_ok.mp h
    cases op with
    | set => exact setOf_ok (required_ok.mp hversion) (required_ok.mp hop) h
    | clear => exact clearOf_ok (required_ok.mp hversion) (required_ok.mp hop) h
  · rintro ⟨rfl, hchecks⟩
    cases v with
    | clearUnwritten => rfl
    | set version ssid psk country hostname origin =>
      obtain ⟨hcap, hchecks⟩ := seq_ok.mp hchecks
      obtain ⟨hpass, hmetadata⟩ := seq_ok.mp hchecks
      refine bind_ok.mpr ⟨version, rfl, bind_ok.mpr ⟨NetConfigOp.set, rfl, ?_⟩⟩
      exact bind_ok.mpr ⟨_, sectionOf_ok.mpr ⟨hmetadata, rfl, rfl, rfl⟩, bind_ok.mpr ⟨psk, rfl, seq_ok.mpr ⟨hpass,
        bind_ok.mpr ⟨ssid, rfl, seq_ok.mpr ⟨hcap, rfl⟩⟩⟩⟩⟩
    | clear version country hostname origin =>
      refine bind_ok.mpr ⟨version, rfl, bind_ok.mpr ⟨NetConfigOp.clear, rfl, ?_⟩⟩
      exact clearOf_written rfl rfl (sectionOf_ok.mpr ⟨hchecks, rfl, rfl, rfl⟩)

theorem metadata_short {version : UInt32} {country hostname : Str} (h : metadata version country hostname = .ok ()) :
    country.raw.length ≤ maxString ∧ hostname.raw.length ≤ maxString := by
  obtain ⟨-, hcountry, hhostname⟩ := metadata_ok.mp h
  have hlen := countryOf_ok.mp hcountry
  have hcap := bounded_ok.mp hhostname
  unfold countryBytes at hlen
  unfold maxLinkText at hcap
  unfold maxString
  omega

theorem maySend {v : NetChange} (h : v.checks = .ok ()) : MaySend codec v.slots := by
  have hop : ∀ op : NetConfigOp, (codec .op).may op := fun op => every NetConfigOp _ op
  have horigin : ∀ origin : NetOrigin, (codec .origin).may origin := fun origin => Codec.fixed_may (by norm_num) _ origin
  intro k a ha
  cases v with
  | clearUnwritten =>
    cases k with
    | op => exact hop a
    | netVersion => trivial
    | ssid | psk | country | hostname | origin => cases ha
  | set version ssid psk country hostname origin =>
    obtain ⟨hssid, h⟩ := seq_ok.mp h
    obtain ⟨hpsk, h⟩ := seq_ok.mp h
    obtain ⟨hcountry, hhostname⟩ := metadata_short h
    have hlong := (passphraseOf_ok.mp hpsk).2
    have hcap := bounded_ok.mp hssid
    cases k with
    | op => exact hop a
    | netVersion => trivial
    | ssid =>
      obtain rfl := Option.some.inj ha
      exact hcap.trans (by decide)
    | psk =>
      obtain rfl := Option.some.inj ha
      exact hlong.trans (by decide)
    | country =>
      obtain rfl := Option.some.inj ha
      exact hcountry
    | hostname =>
      obtain rfl := Option.some.inj ha
      exact hhostname
    | origin => exact horigin a
  | clear version country hostname origin =>
    obtain ⟨hcountry, hhostname⟩ := metadata_short h
    cases k with
    | op => exact hop a
    | netVersion => trivial
    | ssid | psk => cases ha
    | country =>
      obtain rfl := Option.some.inj ha
      exact hcountry
    | hostname =>
      obtain rfl := Option.some.inj ha
      exact hhostname
    | origin => exact horigin a

theorem write_ok (v : NetChange) (header : LinkHeader) (dst : ℕ) (out : Bytes) : v.write header dst = .ok out ↔
    v.checks = .ok () ∧ encodeBody (linkBody header v.keys (cellCalls codec v.slots) : Encoder LinkError Unit) dst =
      .ok out := by
  have hentries : v.entries = cellCalls codec v.slots := by cases v <;> rfl
  unfold write
  rw [seq_ok, hentries]

theorem laws : LinkLaws (fun _ => True) (fun v => v.checks = .ok ()) (fun _ => True) Eq write decode table.Known
    [1, 2] := by
  apply codecLaws (fun _ => rfl) write_ok (fun v => by cases v <;> rfl) (fun v h => maySend h) ofSlots_ok
    (fun _ h => h) (fun _ h _ _ => h) [.op, .netVersion]
  intro v k hk
  cases k with
  | op => cases v <;> rfl
  | netVersion => cases v <;> rfl
  | ssid | psk | country | hostname | origin => simp at hk

def op : NetChange → NetConfigOp
  | .set .. => .set
  | .clearUnwritten | .clear .. => .clear

def version : NetChange → UInt32
  | .clearUnwritten => 0
  | .set version .. | .clear version .. => version

theorem version_zero {v : NetChange} (h : v.checks = .ok ()) : v.version = 0 ↔ v = .clearUnwritten := by
  cases v with
  | clearUnwritten => exact iff_of_true rfl rfl
  | set version ssid psk country hostname origin =>
    have hmetadata := (seq_ok.mp (seq_ok.mp h).2).2
    exact iff_of_false (metadata_ok.mp hmetadata).1 (fun h => nomatch h)
  | clear version country hostname origin => exact iff_of_false (metadata_ok.mp h).1 (fun h => nomatch h)

theorem received_frame {bytes : Bytes} {head : FrameHead} {v : NetChange} (h : Receives decode bytes head v) :
    v.checks = .ok () ∧ ∃ f : Frame, f.item.Legal maxDepth ∧ f.item.spelling = bytes ∧ Holds f.pairs 2 u32Of v.version ∧
      (v.op = .clear → ¬HasKey f.pairs 3 ∧ ¬HasKey f.pairs 4) := by
  have harms : ∀ k, table.Arm 6 (fun k => (codec k).item) k := fun k => .typed ((codec k).reads 6)
  have hdecode : ∀ e, decode e = bodySlots table e >>= ofSlots := fun _ => rfl
  obtain ⟨f, hf, hspell, -, -, s, hslots, hjudge⟩ := (receives_iff harms hdecode).mp h
  obtain ⟨rfl, hchecks⟩ := (ofSlots_ok s v).mp hjudge
  refine ⟨hchecks, f, hf, hspell, ?_, ?_⟩
  · have hversion : slots v .netVersion = some v.version := by cases v <;> rfl
    exact (Table.slotOf_holds hversion).mp (hslots .netVersion)
  · intro hop
    have hnone : slots v .ssid = none ∧ slots v .psk = none := by
      cases v with
      | clearUnwritten | clear => exact ⟨rfl, rfl⟩
      | set => cases hop
    have hssid := (hslots .ssid).has
    have hpsk := (hslots .psk).has
    rw [hnone.1] at hssid
    rw [hnone.2] at hpsk
    exact ⟨fun hhas => absurd (hssid.mp hhas) Bool.false_ne_true, fun hhas => absurd (hpsk.mp hhas) Bool.false_ne_true⟩

theorem written_reads {v : NetChange} (h : v.checks = .ok ()) (header : LinkHeader) : ∃ size, ∀ dst, size ≤ dst →
    ∃ out, v.write header dst = .ok out ∧ Receives decode out header.head v := by
  obtain ⟨size, hsize⟩ := laws.fits v header h
  refine ⟨size, fun dst hdst => ?_⟩
  obtain ⟨out, hout⟩ := hsize dst hdst
  obtain ⟨v', rfl, hreceives⟩ := laws.trip v header dst out trivial hout
  exact ⟨out, hout, hreceives⟩

/-- The master a section is pushed as: a network with its passphrase, or none with none. -/
def pushed (w : NetworkWrite) (psk : Option Passphrase) (version : UInt32) (origin : NetOrigin) : Option NetChange :=
  match w.join, psk with
  | some join, some psk => some (.set version join.ssid.text psk.text w.country.text w.hostname.name.text origin)
  | none, none => some (.clear version w.country.text w.hostname.name.text origin)
  | some _, none | none, some _ => none

theorem pushed_checks {w : NetworkWrite} {psk : Option Passphrase} {version : UInt32} {origin : NetOrigin} {v : NetChange}
    (hversion : version ≠ 0) (h : pushed w psk version origin = some v) :
    v.checks = .ok () ∧ (v.op = .clear ↔ w.join = none) := by
  have hssid : maxSsid ≤ maxLinkText := by decide
  have hhostname : maxHostname ≤ maxLinkText := by decide
  have hmetadata : metadata version w.country.text w.hostname.name.text = .ok () :=
    metadata_ok.mpr ⟨hversion, countryOf_ok.mpr w.country.length,
      bounded_ok.mpr (w.hostname.name.short.trans hhostname)⟩
  obtain ⟨join, country, hostname⟩ := w
  cases join with
  | none =>
    cases psk with
    | none =>
      cases h
      exact ⟨hmetadata, iff_of_true rfl rfl⟩
    | some psk => cases h
  | some join =>
    cases psk with
    | none => cases h
    | some psk =>
      cases h
      refine ⟨?_, iff_of_false (fun h => nomatch h) (fun h => nomatch h)⟩
      exact seq_ok.mpr ⟨bounded_ok.mpr (join.ssid.short.trans hssid),
        seq_ok.mpr ⟨passphraseOf_ok.mpr ⟨psk.long, psk.short⟩, hmetadata⟩⟩

end NetChange

/-- A pushed network is read as it was written, and every section a controller accepts is one that can be pushed. -/
theorem net_change_carried :
    (∀ (v : NetChange) (header : LinkHeader) (dst : ℕ) (out : Bytes), v.write header dst = .ok out →
      Receives NetChange.decode out header.head v) ∧
    (∀ (bytes : Bytes) (head : FrameHead) (v : NetChange), Receives NetChange.decode bytes head v →
      ∀ header : LinkHeader, ∃ size, ∀ dst, size ≤ dst → ∃ out, v.write header dst = .ok out) ∧
    (∀ (bytes : Bytes) (head : FrameHead) (v : NetChange), Receives NetChange.decode bytes head v →
      (v.version = 0 ↔ v = .clearUnwritten) ∧
        ∃ f : Frame, f.item.Legal maxDepth ∧ f.item.spelling = bytes ∧ Holds f.pairs 2 u32Of v.version ∧
          (v.op = .clear → ¬HasKey f.pairs 3 ∧ ¬HasKey f.pairs 4)) ∧
    (∀ (body : Bytes) (w : NetworkWrite), NetworkWrite.decode body = .ok w →
      ∀ (heldFor : Option Ssid) (held : Passphrase) (change : PassphraseChange), w.passphrase heldFor = .ok change →
        ∀ version : UInt32, version ≠ 0 → ∀ origin : NetOrigin,
          ∃ v, NetChange.pushed w (change.leaves held) version origin = some v ∧ (v.op = .clear ↔ w.join = none) ∧
            ∀ header : LinkHeader, ∃ size, ∀ dst, size ≤ dst →
              ∃ out, v.write header dst = .ok out ∧ Receives NetChange.decode out header.head v) := by
  refine ⟨?_, ?_, ?_, ?_⟩
  · intro v header dst out h
    obtain ⟨v', rfl, hreceives⟩ := NetChange.laws.trip v header dst out trivial h
    exact hreceives
  · intro bytes head v h header
    exact NetChange.laws.fits v header (NetChange.received_frame h).1
  · intro bytes head v h
    obtain ⟨hchecks, hframe⟩ := NetChange.received_frame h
    exact ⟨NetChange.version_zero hchecks, hframe⟩
  · intro body w _ heldFor held change hchange version hversion origin
    have hjoin := NetworkWrite.passphrase_join hchange held
    obtain ⟨v, hv⟩ : ∃ v, NetChange.pushed w (change.leaves held) version origin = some v := by
      unfold NetChange.pushed
      cases hw : w.join with
      | none =>
        rw [hw] at hjoin
        rw [Option.isSome_eq_false_iff.mp hjoin.symm |> Option.isNone_iff_eq_none.mp]
        exact ⟨_, rfl⟩
      | some join =>
        rw [hw] at hjoin
        obtain ⟨psk, hpsk⟩ := Option.isSome_iff_exists.mp hjoin.symm
        rw [hpsk]
        exact ⟨_, rfl⟩
    obtain ⟨hchecks, hop⟩ := NetChange.pushed_checks hversion hv
    exact ⟨v, hv, hop, NetChange.written_reads hchecks⟩

end Km43.Link
