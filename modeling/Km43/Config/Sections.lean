import Km43.Cbor.Whole
import Km43.Devices.Entries
import Km43.Devices.Decode
import Km43.Devices.Shape

namespace Km43.Config

open Library Cbor CborReader Devices

def maxHostname : ℕ := 32
def pskShortest : ℕ := 8
def pskLongest : ℕ := 63
def countryBytes : ℕ := 2

structure Within (shortest longest : ℕ) where
  text : Str
  long : shortest ≤ text.raw.length
  short : text.raw.length ≤ longest

def within (key : SectionKey) (text : Str) (shortest longest : ℕ) : Except ConfigError (Within shortest longest) :=
  if h : shortest ≤ text.raw.length ∧ text.raw.length ≤ longest then .ok ⟨text, h.1, h.2⟩
  else .error (.length key text.raw.length)

abbrev SiteName := Within 1 maxLabel

def SiteName.new (text : Str) : Except ConfigError SiteName := within .siteName text 1 maxLabel

abbrev Ssid := Within 1 maxSsid

def Ssid.new (text : Str) : Except ConfigError Ssid := within .ssid text 1 maxSsid

abbrev Passphrase := Within pskShortest pskLongest

def Passphrase.new (text : Str) : Except ConfigError Passphrase := within .psk text pskShortest pskLongest

def capital (b : UInt8) : Bool := decide (0x41 ≤ b ∧ b ≤ 0x5A)

structure Country where
  text : Str
  length : text.raw.length = countryBytes
  capitals : text.raw.all capital = true

def Country.new (text : Str) : Except ConfigError Country :=
  if hlen : text.raw.length = countryBytes then
    if hcapitals : text.raw.all capital = true then .ok ⟨text, hlen, hcapitals⟩ else .error .countryNotCapitals
  else .error (.length .country text.raw.length)

def asciiAlphanumeric (b : UInt8) : Bool :=
  decide (0x30 ≤ b ∧ b ≤ 0x39) || decide (0x41 ≤ b ∧ b ≤ 0x5A) || decide (0x61 ≤ b ∧ b ≤ 0x7A)

def hostLetters (bytes : Bytes) : Bool :=
  (bytes.all fun b => asciiAlphanumeric b || b == 0x2D) && bytes.head? != some 0x2D && bytes.getLast? != some 0x2D

structure Hostname where
  name : Within 1 maxHostname
  letters : hostLetters name.text.raw = true

def Hostname.new (text : Str) : Except ConfigError Hostname := do
  let name ← within .hostname text 1 maxHostname
  if h : hostLetters name.text.raw = true then .ok ⟨name, h⟩ else .error .notAHostname

def oneKey {β : Type} (value : Read ConfigError β) (key : SectionKey) :
    ℤ → Option β → Read ConfigError (Option β)
  | 1, s => slotField value (.duplicate key) s id
  | _, s => passOver s

structure IdentitySection where
  siteName : SiteName

namespace IdentitySection

def read : Read ConfigError (Option Str) := do
  let pairs ← ask map
  pairLoop (oneKey textValue .siteName) pairs none

def ofSlot (siteName : Option Str) : Except ConfigError IdentitySection := do
  let text ← slotRequired (.missing .siteName) siteName
  let name ← SiteName.new text
  .ok ⟨name⟩

def decode (body : Bytes) : Except ConfigError IdentitySection := do
  let siteName ← decodeBody read body
  ofSlot siteName

end IdentitySection

structure BehaviourSection where
  shadow : Bool

namespace BehaviourSection

def read : Read ConfigError (Option Bool) := do
  let pairs ← ask map
  pairLoop (oneKey (ask bool) .shadow) pairs none

def ofSlot (shadow : Option Bool) : Except ConfigError BehaviourSection := do
  let shadow ← slotRequired (.missing .shadow) shadow
  .ok ⟨shadow⟩

def decode (body : Bytes) : Except ConfigError BehaviourSection := do
  let shadow ← decodeBody read body
  ofSlot shadow

end BehaviourSection

def network (number : ℤ) : Option SectionKey :=
  if number = 1 then some .ssid else if number = 2 then some .psk else if number = 3 then some .pskSet
  else if number = 4 then some .country else if number = 5 then some .hostname else none

/-- The network's keys as they arrived: of the passphrase, a write keeps the text and a read that it came. -/
structure NetworkText (ρ : Type) where
  ssid : Option Str
  psk : Option ρ
  pskSet : Option Bool
  country : Option Str
  hostname : Option Str

namespace NetworkText

variable {ρ : Type}

def empty : NetworkText ρ := ⟨none, none, none, none, none⟩

def step (secret : NetworkText ρ → Read ConfigError (NetworkText ρ)) (number : ℤ) (s : NetworkText ρ) :
    Read ConfigError (NetworkText ρ) :=
  match network number with
  | some .ssid => slotField textValue (.duplicate .ssid) s.ssid fun slot => { s with ssid := slot }
  | some .psk => secret s
  | some .pskSet => slotField (ask bool) (.duplicate .pskSet) s.pskSet fun slot => { s with pskSet := slot }
  | some .country => slotField textValue (.duplicate .country) s.country fun slot => { s with country := slot }
  | some .hostname => slotField textValue (.duplicate .hostname) s.hostname fun slot => { s with hostname := slot }
  | some .siteName | some .shadow | some (.busesAndDevices _) | none => passOver s

def read (secret : NetworkText ρ → Read ConfigError (NetworkText ρ)) : Read ConfigError (NetworkText ρ) := do
  let pairs ← ask map
  pairLoop (step secret) pairs empty

def common (s : NetworkText ρ) : Except ConfigError (Country × Hostname) := do
  let country ← slotRequired (.missing .country) s.country
  let hostname ← slotRequired (.missing .hostname) s.hostname
  let country ← Country.new country
  let hostname ← Hostname.new hostname
  .ok (country, hostname)

end NetworkText

structure JoinWrite where
  ssid : Ssid
  psk : Option Passphrase

structure NetworkWrite where
  join : Option JoinWrite
  country : Country
  hostname : Hostname

namespace NetworkWrite

def secret (s : NetworkText Str) : Read ConfigError (NetworkText Str) :=
  slotField textValue (.duplicate .psk) s.psk fun slot => { s with psk := slot }

def joined (s : NetworkText Str) : Except ConfigError (Option JoinWrite) :=
  match s.ssid, s.psk with
  | none, none => .ok none
  | none, some _ => .error .passphraseWithoutNetwork
  | some ssid, none => do
    let ssid ← Ssid.new ssid
    .ok (some ⟨ssid, none⟩)
  | some ssid, some psk => do
    let ssid ← Ssid.new ssid
    let psk ← Passphrase.new psk
    .ok (some ⟨ssid, some psk⟩)

def ofText (s : NetworkText Str) : Except ConfigError NetworkWrite := do
  let (country, hostname) ← s.common
  if s.pskSet.isSome then .error (.configOnly .pskSet)
  else
    let join ← joined s
    .ok ⟨join, country, hostname⟩

def decode (body : Bytes) : Except ConfigError NetworkWrite := do
  let text ← decodeBody (NetworkText.read secret) body
  ofText text

end NetworkWrite

inductive PassphraseChange
  | set (psk : Passphrase)
  | keep
  | clear

def NetworkWrite.passphrase (w : NetworkWrite) (heldFor : Option Ssid) : Except ConfigError PassphraseChange :=
  match w.join, heldFor with
  | none, _ => .ok .clear
  | some ⟨_, some psk⟩, _ => .ok (.set psk)
  | some ⟨_, none⟩, none => .error .noPassphraseHeld
  | some ⟨ssid, none⟩, some held =>
    if ssid.text.raw = held.text.raw then .ok .keep else .error .passphraseForAnotherNetwork

structure JoinRead where
  ssid : Ssid
  pskSet : Bool

structure NetworkRead where
  join : Option JoinRead
  country : Country
  hostname : Hostname

namespace NetworkRead

def secret (s : NetworkText Unit) : Read ConfigError (NetworkText Unit) := do
  let psk ← slotOnce (ConfigError.duplicate .psk) s.psk ()
  ask skip
  pure { s with psk := psk }

def joined (s : NetworkText Unit) : Except ConfigError (Option JoinRead) :=
  match s.ssid, s.pskSet with
  | none, none => .ok none
  | none, some _ => .error .passphraseWithoutNetwork
  | some _, none => .error (.missing .pskSet)
  | some ssid, some pskSet => do
    let ssid ← Ssid.new ssid
    .ok (some ⟨ssid, pskSet⟩)

def ofText (s : NetworkText Unit) : Except ConfigError NetworkRead :=
  if s.psk.isSome then .error (.secretInConfig .psk)
  else do
    let join ← joined s
    let (country, hostname) ← s.common
    .ok ⟨join, country, hostname⟩

def decode (body : Bytes) : Except ConfigError NetworkRead := do
  let text ← decodeBody (NetworkText.read secret) body
  ofText text

end NetworkRead

variable {d : ℕ}

theorem duplicate_malformed (key : SectionKey) : Malformed (.duplicate key) := rfl

namespace OneKey

variable {β : Type} {value : Item → Option β}

def has (s : Option β) (k : ℤ) : Bool := decide (k = 1) && s.isSome

def fill (value : Item → Option β) (k : ℤ) (i : Item) : Option (Option β → Option β) :=
  if k = 1 then (value i).map fun v _ => some v else none

abbrev Known (k : ℤ) : Prop := k = 1

def take (value : Item → Option β) : ℤ → Option β → Item → Option (Option β) :=
  slotStep has (fill value) Known

theorem own_slots : OwnSlots has (fill value) Known := by
  constructor
  · rintro k j i put s rfl rfl hput
    obtain ⟨v, -, rfl⟩ := Option.map_eq_some_iff.mp hput
    rfl
  · rintro k j i i' put put' s rfl rfl hkj
    exact absurd rfl hkj

theorem reads {m : Read ConfigError β} (hm : ∀ {d}, Reads Malformed d m value) (key : SectionKey) :
    Reads Malformed (d + 1) (do let pairs ← ask map; pairLoop (oneKey m key) pairs none)
      fun i => i.pairs?.bind fun pairs => foldPairs (take value) pairs none := by
  refine Reads.mapFrom malformed_cbor ?_ (slotStep_fills own_slots) fun j _ => by simp [has]
  constructor
  · rintro k s rfl
    exact slotStep_reads hm (duplicate_malformed key) rfl (by simp [has]) (fun _ => rfl) fun _ => rfl
  · intro k s hk
    unfold oneKey
    split
    · exact absurd rfl hk
    · rfl

end OneKey

theorem texted {σ : Type} {has : σ → ℤ → Bool} {fill : ℤ → Item → Option (σ → σ)} {known : ℤ → Prop}
    [DecidablePred known] (key : SectionKey) {k : ℤ} (hk : known k) {s : σ} {slot : Option Str} {put : Option Str → σ}
    {filled : Str → σ → σ} (hslot : has s k = slot.isSome) (hfill : ∀ i, fill k i = i.str?.map filled)
    (hput : ∀ v, filled v s = put (some v)) :
    Reads Malformed d (slotField textValue (.duplicate key) slot put) (slotStep has fill known k s) :=
  slotStep_reads (textValue_reads malformed_cbor) (duplicate_malformed key) hk hslot hfill hput

namespace NetworkText

variable {ρ : Type} {secretOf : Item → Option ρ}

def has : NetworkText ρ → ℤ → Bool
  | s, 1 => s.ssid.isSome
  | s, 2 => s.psk.isSome
  | s, 3 => s.pskSet.isSome
  | s, 4 => s.country.isSome
  | s, 5 => s.hostname.isSome
  | _, _ => false

def fill (secretOf : Item → Option ρ) : ℤ → Item → Option (NetworkText ρ → NetworkText ρ)
  | 1, i => i.str?.map fun v s => { s with ssid := some v }
  | 2, i => (secretOf i).map fun v s => { s with psk := some v }
  | 3, i => i.bool?.map fun v s => { s with pskSet := some v }
  | 4, i => i.str?.map fun v s => { s with country := some v }
  | 5, i => i.str?.map fun v s => { s with hostname := some v }
  | _, _ => none

abbrev Known (k : ℤ) : Prop := 1 ≤ k ∧ k ≤ 5

def take (secretOf : Item → Option ρ) : ℤ → NetworkText ρ → Item → Option (NetworkText ρ) :=
  slotStep has (fill secretOf) Known

theorem known_cases {k : ℤ} (h : Known k) : k = 1 ∨ k = 2 ∨ k = 3 ∨ k = 4 ∨ k = 5 := by
  obtain ⟨hlow, hhigh⟩ := h
  omega

theorem network_unknown {k : ℤ} (h : ¬Known k) : network k = none := by
  have hne : ∀ j, Known j → k ≠ j := by
    rintro j hj rfl
    exact h hj
  simp only [network, hne 1 (by decide), hne 2 (by decide), hne 3 (by decide), hne 4 (by decide), hne 5 (by decide),
    if_false]

theorem has_empty {k : ℤ} (hk : Known k) : has (empty : NetworkText ρ) k = false := by
  rcases known_cases hk with rfl | rfl | rfl | rfl | rfl <;> rfl

theorem own_slots : OwnSlots has (fill secretOf) Known := by
  constructor
  · intro k j i put s hk hj hput
    rcases known_cases hk with rfl | rfl | rfl | rfl | rfl
    all_goals
      obtain ⟨v, -, rfl⟩ := Option.map_eq_some_iff.mp hput
      rcases known_cases hj with rfl | rfl | rfl | rfl | rfl <;> rfl
  · intro k j i i' put put' s hk hj hkj hput hput'
    rcases known_cases hk with rfl | rfl | rfl | rfl | rfl
    all_goals
      obtain ⟨v, -, rfl⟩ := Option.map_eq_some_iff.mp hput
      rcases known_cases hj with rfl | rfl | rfl | rfl | rfl
      all_goals
        obtain ⟨w, -, rfl⟩ := Option.map_eq_some_iff.mp hput'
        first | rfl | exact absurd rfl hkj

theorem reads {secret : NetworkText ρ → Read ConfigError (NetworkText ρ)}
    (hsecret : ∀ s, Reads Malformed d (secret s) (take secretOf 2 s) ∨
      ∃ after, Watched Malformed d (secret s) (take secretOf 2 s) (has s 2) after) :
    Reads Malformed (d + 1) (read secret)
      fun i => i.pairs?.bind fun pairs => foldPairs (take secretOf) pairs empty := by
  refine Reads.watchedMapFrom malformed_cbor ?_ (slotStep_fills own_slots) fun j hj => by
    simp [has_empty hj]
  constructor
  · intro k s hk
    rcases known_cases hk with rfl | rfl | rfl | rfl | rfl
    · exact .inl (texted .ssid hk rfl (fun _ => rfl) fun _ => rfl)
    · exact hsecret s
    · exact .inl (slotStep_reads (Reads.bool malformed_cbor) (duplicate_malformed .pskSet) hk rfl (fun _ => rfl)
        fun _ => rfl)
    · exact .inl (texted .country hk rfl (fun _ => rfl) fun _ => rfl)
    · exact .inl (texted .hostname hk rfl (fun _ => rfl) fun _ => rfl)
  · intro k s hk
    unfold step
    rw [network_unknown hk]
    rfl

end NetworkText

theorem NetworkWrite.reads : Reads Malformed (d + 1) (NetworkText.read NetworkWrite.secret)
    fun i => i.pairs?.bind fun pairs => foldPairs (NetworkText.take Item.str?) pairs .empty := by
  apply NetworkText.reads
  intro s
  exact .inl (texted .psk (by decide) rfl (fun _ => rfl) fun _ => rfl)

theorem NetworkRead.reads : Reads Malformed (d + 1) (NetworkText.read NetworkRead.secret)
    fun i => i.pairs?.bind fun pairs => foldPairs (NetworkText.take fun _ => some ()) pairs .empty := by
  apply NetworkText.reads
  intro s
  refine .inr ⟨fun _ => { s with psk := some () }, ?_, ?_, ?_⟩
  · intro hmet r
    have htwice : slotOnce (ConfigError.duplicate .psk) s.psk () = .error (.duplicate .psk) := if_pos hmet
    unfold NetworkRead.secret
    rw [htwice]
    exact ⟨.duplicate .psk, rfl, rfl⟩
  · intro hmet r _
    have hfirst : slotOnce (ConfigError.duplicate .psk) s.psk () = .ok (some ()) := if_neg hmet
    unfold NetworkRead.secret
    rw [hfirst, passing]
    show (ask CborReader.skip >>= fun _ => pure { s with psk := some () }) r = _
    rw [bind_apply, ask]
    cases CborReader.skip r <;> rfl
  · intro hmet i
    have hempty : NetworkText.has s 2 = false := by simpa using hmet
    simp [NetworkText.take, slotStep, hempty, NetworkText.fill]

def PassphraseChange.leaves (held : Passphrase) : PassphraseChange → Option Passphrase
  | set psk => some psk
  | keep => some held
  | clear => none

theorem NetworkWrite.passphrase_join {w : NetworkWrite} {heldFor : Option Ssid} {change : PassphraseChange}
    (h : w.passphrase heldFor = .ok change) (held : Passphrase) : w.join.isSome = (change.leaves held).isSome := by
  obtain ⟨join, country, hostname⟩ := w
  rcases join with _ | ⟨ssid, _ | psk⟩
  · cases h
    rfl
  · cases heldFor with
    | none => cases h
    | some held =>
      unfold passphrase at h
      dsimp only at h
      split_ifs at h
      cases h
      rfl
  · cases h
    rfl

end Km43.Config
