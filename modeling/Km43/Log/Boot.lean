import Km43.Cbor.Cells

namespace Km43.Log

open Library Cbor CborReader CborWriter

inductive BootReason
  | power
  | watchdog
  | softwareReset
  | panic
  | pinReset
  | optionByteReload
  | windowWatchdog
  | lowPowerEntry
  deriving DecidableEq

namespace BootReason

def byte : BootReason → UInt8
  | power => 1
  | watchdog => 2
  | softwareReset => 4
  | panic => 5
  | pinReset => 6
  | optionByteReload => 7
  | windowWatchdog => 8
  | lowPowerEntry => 9

def tryFrom (v : UInt8) : Option BootReason :=
  if v = 1 then some power else if v = 2 then some watchdog else if v = 4 then some softwareReset
  else if v = 5 then some panic else if v = 6 then some pinReset else if v = 7 then some optionByteReload
  else if v = 8 then some windowWatchdog else if v = 9 then some lowPowerEntry else none

end BootReason

inductive BootError
  | missingKey (key : UInt8)
  | duplicate (key : UInt8)
  | unknownReason (number : UInt8)
  | wordsWithoutTheirReason (reason : BootReason)
  | cbor (why : CborError)
  deriving DecidableEq

instance : FromCbor BootError := ⟨.cbor⟩

structure Starved where
  task : UInt8
  overdueMs : UInt32

structure PanicSite where
  file : UInt32
  line : UInt32

inductive BootCause
  | power
  | watchdog (words : Option Starved)
  | softwareReset
  | panic (site : PanicSite)
  | pinReset
  | optionByteReload
  | windowWatchdog
  | lowPowerEntry

namespace BootCause

def reason : BootCause → BootReason
  | power => .power
  | watchdog _ => .watchdog
  | softwareReset => .softwareReset
  | panic _ => .panic
  | pinReset => .pinReset
  | optionByteReload => .optionByteReload
  | windowWatchdog => .windowWatchdog
  | lowPowerEntry => .lowPowerEntry

def starved : BootCause → Option Starved
  | watchdog words => words
  | power | softwareReset | panic _ | pinReset | optionByteReload | windowWatchdog | lowPowerEntry => none

def site : BootCause → Option PanicSite
  | panic site => some site
  | power | watchdog _ | softwareReset | pinReset | optionByteReload | windowWatchdog | lowPowerEntry => none

def words : BootCause → ℕ
  | watchdog (some _) | panic _ => 2
  | power | watchdog none | softwareReset | pinReset | optionByteReload | windowWatchdog | lowPowerEntry => 0

end BootCause

inductive BootKey
  | reason
  | backupValid
  | rtcCrystal
  | railCycled
  | task
  | overdueMs
  | file
  | line
  deriving DecidableEq

namespace BootKey

def of (number : ℤ) : Option BootKey :=
  if number = 1 then some reason else if number = 2 then some backupValid else if number = 3 then some rtcCrystal
  else if number = 4 then some railCycled else if number = 5 then some task else if number = 6 then some overdueMs
  else if number = 7 then some file else if number = 8 then some line else none

def number : BootKey → ℕ
  | reason => 1
  | backupValid => 2
  | rtcCrystal => 3
  | railCycled => 4
  | task => 5
  | overdueMs => 6
  | file => 7
  | line => 8

def all : List BootKey := [reason, backupValid, rtcCrystal, railCycled, task, overdueMs, file, line]

theorem of_iff (n : ℤ) (k : BootKey) : of n = some k ↔ n = k.number := by
  constructor
  · intro h
    unfold of at h
    split_ifs at h <;> cases h <;> assumption
  · rintro rfl
    cases k <;> rfl

theorem small (k : BootKey) : k.number < 256 := by cases k <;> decide

end BootKey

instance : BodyKey BootKey := ⟨BootKey.of, BootKey.number, BootKey.of_iff, BootKey.small⟩

theorem BootKey.all_inOrder : InOrder BootKey.all := by
  constructor
  · decide
  · intro k
    cases k <;> decide

structure Boot where
  cause : BootCause
  backupValid : Bool
  rtcCrystal : Bool
  railCycled : Bool

namespace Boot

def call (b : Boot) : BootKey → Option Call
  | .reason => some (.u64 b.cause.reason.byte.toUInt64)
  | .backupValid => some (.bool b.backupValid)
  | .rtcCrystal => some (.bool b.rtcCrystal)
  | .railCycled => some (.bool b.railCycled)
  | .task => b.cause.starved.map fun words => .u64 words.task.toUInt64
  | .overdueMs => b.cause.starved.map fun words => .u64 words.overdueMs.toUInt64
  | .file => b.cause.site.map fun site => .u64 site.file.toUInt64
  | .line => b.cause.site.map fun site => .u64 site.line.toUInt64

def entries (b : Boot) : List (BootKey × List Call) := cells BootKey.all fun k => (b.call k).map fun call => [call]

def encode (b : Boot) (dst : ℕ) : Except BootError Bytes :=
  encodeBody (writeBody (UInt64.ofNat (4 + b.cause.words)) b.entries) dst

def Value : BootKey → Type
  | .reason => BootReason
  | .backupValid | .rtcCrystal | .railCycled => Bool
  | .task => UInt8
  | .overdueMs | .file | .line => UInt32

def reasonOf (number : UInt8) : Except BootError BootReason :=
  match BootReason.tryFrom number with
  | some known => .ok known
  | none => .error (.unknownReason number)

def table : Table BootError BootKey where
  Value := Value
  read
    | .reason => checkedRead (ask u8) reasonOf
    | .backupValid => ask CborReader.bool
    | .rtcCrystal => ask CborReader.bool
    | .railCycled => ask CborReader.bool
    | .task => ask u8
    | .overdueMs => ask u32
    | .file => ask u32
    | .line => ask u32
  twice key := .duplicate (UInt8.ofNat key.number)

def starvedOf : Option UInt8 → Option UInt32 → Except BootError (Option Starved)
  | some task, some overdueMs => .ok (some ⟨task, overdueMs⟩)
  | none, none => .ok none
  | some _, none => .error (.missingKey 6)
  | none, some _ => .error (.missingKey 5)

def siteOf : Option UInt32 → Option UInt32 → Except BootError (Option PanicSite)
  | some file, some line => .ok (some ⟨file, line⟩)
  | none, none => .ok none
  | some _, none => .error (.missingKey 8)
  | none, some _ => .error (.missingKey 7)

def causeOf : BootReason → Option Starved → Option PanicSite → Except BootError BootCause
  | .watchdog, words, none => .ok (.watchdog words)
  | .panic, none, some site => .ok (.panic site)
  | .panic, none, none => .error (.missingKey 7)
  | .power, none, none => .ok .power
  | .softwareReset, none, none => .ok .softwareReset
  | .pinReset, none, none => .ok .pinReset
  | .optionByteReload, none, none => .ok .optionByteReload
  | .windowWatchdog, none, none => .ok .windowWatchdog
  | .lowPowerEntry, none, none => .ok .lowPowerEntry
  | reason, _, _ => .error (.wordsWithoutTheirReason reason)

def ofSlots (s : table.Slots) : Except BootError Boot := do
  let reason ← slotRequired (.missingKey 1) (s .reason)
  let words ← starvedOf (s .task) (s .overdueMs)
  let site ← siteOf (s .file) (s .line)
  let cause ← causeOf reason words site
  let backupValid : Bool ← slotRequired (.missingKey 2) (s .backupValid)
  let rtcCrystal : Bool ← slotRequired (.missingKey 3) (s .rtcCrystal)
  let railCycled : Bool ← slotRequired (.missingKey 4) (s .railCycled)
  .ok ⟨cause, backupValid, rtcCrystal, railCycled⟩

def decode : Bytes → Except BootError Boot := table.decode ofSlots

end Boot

namespace Boot

def item : ∀ k, Item → Option (table.Value k)
  | .reason => checkedItem u8Of reasonOf
  | .backupValid | .rtcCrystal | .railCycled => Item.bool?
  | .task => u8Of
  | .overdueMs | .file | .line => u32Of

theorem reads (k : BootKey) : Reads (fun _ => True) 7 (table.read k) (item k) := by
  cases k with
  | reason => exact checkedRead_reads (.u8 fun _ => trivial) _
  | backupValid | rtcCrystal | railCycled => exact .bool fun _ => trivial
  | task => exact .u8 fun _ => trivial
  | overdueMs | file | line => exact .u32 fun _ => trivial

theorem decodes : table.Decodes item := Table.decodes reads

def cell (b : Boot) : BootKey → Option Item
  | .reason => some (.ofNat b.cause.reason.byte.toNat)
  | .backupValid => some (.bool b.backupValid)
  | .rtcCrystal => some (.bool b.rtcCrystal)
  | .railCycled => some (.bool b.railCycled)
  | .task => b.cause.starved.map fun words => .ofNat words.task.toNat
  | .overdueMs => b.cause.starved.map fun words => .ofNat words.overdueMs.toNat
  | .file => b.cause.site.map fun site => .ofNat site.file.toNat
  | .line => b.cause.site.map fun site => .ofNat site.line.toNat

def slots (b : Boot) : table.Slots
  | .reason => some b.cause.reason
  | .backupValid => some b.backupValid
  | .rtcCrystal => some b.rtcCrystal
  | .railCycled => some b.railCycled
  | .task => b.cause.starved.map Starved.task
  | .overdueMs => b.cause.starved.map Starved.overdueMs
  | .file => b.cause.site.map PanicSite.file
  | .line => b.cause.site.map PanicSite.line

variable (b : Boot)

theorem call_writes {d : ℕ} (k : BootKey) : Option.Rel (fun calls i => Writes d (writeAll calls) i)
    ((b.call k).map fun call => [call]) (b.cell k) := by
  cases k with
  | reason | backupValid | rtcCrystal | railCycled => exact .some (writes_one rfl)
  | task | overdueMs =>
    rw [call, cell]
    cases b.cause.starved with
    | none => exact .none
    | some words => exact .some (writes_one rfl)
  | file | line =>
    rw [call, cell]
    cases b.cause.site with
    | none => exact .none
    | some site => exact .some (writes_one rfl)

theorem cell_legal {d : ℕ} (k : BootKey) (i : Item) (h : b.cell k = some i) : i.Legal d := by
  have hbyte : ∀ n : UInt8, (Item.ofNat n.toNat).Legal d := fun n => Item.ofNat_legal (by have := n.toNat_lt; omega)
  have hword : ∀ n : UInt32, (Item.ofNat n.toNat).Legal d := fun n => Item.ofNat_legal (by have := n.toNat_lt; omega)
  cases k with
  | reason =>
    cases h
    exact hbyte _
  | backupValid | rtcCrystal | railCycled =>
    cases h
    exact Item.bool_legal
  | task =>
    obtain ⟨words, -, rfl⟩ := Option.map_eq_some_iff.mp h
    exact hbyte _
  | overdueMs | file | line =>
    obtain ⟨words, -, rfl⟩ := Option.map_eq_some_iff.mp h
    exact hword _

theorem reasonOf_byte (reason : BootReason) : reasonOf reason.byte = .ok reason := by cases reason <;> rfl

theorem cell_taken (k : BootKey) : Table.CellOf item b.cell b.slots k := by
  unfold Table.CellOf
  cases k with
  | reason => exact ⟨checkedItem_ok (u8Of_ofNat _) (reasonOf_byte _), rfl⟩
  | backupValid | rtcCrystal | railCycled => exact ⟨rfl, rfl⟩
  | task =>
    rw [cell, slots]
    cases b.cause.starved with
    | none => rfl
    | some words => exact ⟨u8Of_ofNat _, rfl⟩
  | overdueMs =>
    rw [cell, slots]
    cases b.cause.starved with
    | none => rfl
    | some words => exact ⟨u32Of_ofNat _, rfl⟩
  | file | line =>
    rw [cell, slots]
    cases b.cause.site with
    | none => rfl
    | some site => exact ⟨u32Of_ofNat _, rfl⟩

def items : List (BootKey × Item) := cells BootKey.all b.cell

theorem items_rising : Rising b.items := cells_rising BootKey.all_inOrder _

theorem items_count : b.items.length = (UInt64.ofNat (4 + b.cause.words)).toNat := by
  have hcount : b.items.length = 4 + b.cause.words := by
    obtain ⟨cause, backupValid, rtcCrystal, railCycled⟩ := b
    cases cause with
    | watchdog words => cases words <;> rfl
    | power | softwareReset | panic | pinReset | optionByteReload | windowWatchdog | lowPowerEntry => rfl
  have hwords : b.cause.words ≤ 2 := by
    unfold BootCause.words
    split <;> decide
  have hsmall : 4 + b.cause.words < UInt64.size := (Nat.add_le_add_left hwords 4).trans_lt (by decide)
  rw [hcount, UInt64.toNat_ofNat_of_lt' hsmall]

theorem encode_ok {dst : ℕ} {out : Bytes} : b.encode dst = .ok out ↔
    out = (bodyItem b.items).spelling ∧ (bodyItem b.items).spelling.length ≤ dst :=
  encode_entries (cells_spelled b.call_writes _) b.items_rising b.items_count

theorem causeOf_ok {reason : BootReason} {words : Option Starved} {site : Option PanicSite} {cause : BootCause} :
    causeOf reason words site = .ok cause ↔ reason = cause.reason ∧ words = cause.starved ∧ site = cause.site := by
  constructor
  · intro h
    unfold causeOf at h
    split at h <;> cases h <;> exact ⟨rfl, rfl, rfl⟩
  · rintro ⟨rfl, rfl, rfl⟩
    cases cause <;> rfl

theorem starvedOf_ok {task : Option UInt8} {overdueMs : Option UInt32} {words : Option Starved} :
    starvedOf task overdueMs = .ok words ↔ task = words.map Starved.task ∧ overdueMs = words.map Starved.overdueMs := by
  constructor
  · intro h
    unfold starvedOf at h
    split at h <;> cases h <;> exact ⟨rfl, rfl⟩
  · rintro ⟨rfl, rfl⟩
    cases words <;> rfl

theorem siteOf_ok {file line : Option UInt32} {site : Option PanicSite} :
    siteOf file line = .ok site ↔ file = site.map PanicSite.file ∧ line = site.map PanicSite.line := by
  constructor
  · intro h
    unfold siteOf at h
    split at h <;> cases h <;> exact ⟨rfl, rfl⟩
  · rintro ⟨rfl, rfl⟩
    cases site <;> rfl

variable {b}

theorem ofSlots_ok {s : table.Slots} : ofSlots s = .ok b ↔ s = b.slots := by
  constructor
  · intro h
    obtain ⟨reason, hreason, h⟩ := bind_ok.mp h
    obtain ⟨words, hwords, h⟩ := bind_ok.mp h
    obtain ⟨site, hsite, h⟩ := bind_ok.mp h
    obtain ⟨cause, hcause, h⟩ := bind_ok.mp h
    obtain ⟨backupValid, hbackup, h⟩ := bind_ok.mp h
    obtain ⟨rtcCrystal, hcrystal, h⟩ := bind_ok.mp h
    obtain ⟨railCycled, hrail, ⟨⟩⟩ := bind_ok.mp h
    obtain ⟨rfl, rfl, rfl⟩ := causeOf_ok.mp hcause
    obtain ⟨htask, hoverdue⟩ := starvedOf_ok.mp hwords
    obtain ⟨hfile, hline⟩ := siteOf_ok.mp hsite
    funext k
    cases k with
    | reason => exact slotRequired_ok.mp hreason
    | backupValid => exact slotRequired_ok.mp hbackup
    | rtcCrystal => exact slotRequired_ok.mp hcrystal
    | railCycled => exact slotRequired_ok.mp hrail
    | task => exact htask
    | overdueMs => exact hoverdue
    | file => exact hfile
    | line => exact hline
  · rintro rfl
    have hwords : starvedOf (b.slots .task) (b.slots .overdueMs) = .ok b.cause.starved := starvedOf_ok.mpr ⟨rfl, rfl⟩
    have hsite : siteOf (b.slots .file) (b.slots .line) = .ok b.cause.site := siteOf_ok.mpr ⟨rfl, rfl⟩
    have hcause : causeOf b.cause.reason b.cause.starved b.cause.site = .ok b.cause := causeOf_ok.mpr ⟨rfl, rfl, rfl⟩
    exact bind_ok.mpr ⟨b.cause.reason, rfl, bind_ok.mpr ⟨_, hwords, bind_ok.mpr ⟨_, hsite, bind_ok.mpr ⟨_, hcause, rfl⟩⟩⟩⟩

theorem decode_ok {payload : Bytes} : decode payload = .ok b ↔ ∃ w ps, (Item.map w ps).Legal maxDepth ∧
    (Item.map w ps).spelling = payload ∧ Keyed ps ∧ ∀ k, Table.SlotOf item ps b.slots k := by
  rw [decode, Table.decode, bind_ok]
  simp only [ofSlots_ok, exists_eq_right]
  exact decodes payload b.slots

theorem decode_items (b : Boot) : decode (bodyItem b.items).spelling = .ok b := by
  have hslots := decodes.cells BootKey.all_inOrder (fun k i => b.cell_legal k i) b.cell_taken
  exact bind_ok.mpr ⟨_, hslots, ofSlots_ok.mpr rfl⟩

/-- Last words stand beside the reason that explains them and beside no other, each half with its companion. -/
structure Consistent (ps : List (Key × Item)) (reason : BootReason) : Prop where
  required : HasKey ps 2 ∧ HasKey ps 3 ∧ HasKey ps 4
  starved : HasKey ps 5 ↔ HasKey ps 6
  site : HasKey ps 7 ↔ HasKey ps 8
  watchdog : HasKey ps 5 → reason = .watchdog
  panic : HasKey ps 7 ↔ reason = .panic

def Readable (ps : List (Key × Item)) : Prop :=
  ∀ (k : BootKey) i, valueAt ps k.number = some i → (item k i).isSome

theorem mapped_some {α β : Type} (f : α → β) (o : Option α) : (o.map f).isSome ↔ o.isSome := by
  rw [Option.isSome_map]

theorem slots_consistent {ps : List (Key × Item)} (h : ∀ k, Table.SlotOf item ps b.slots k) :
    Consistent ps b.cause.reason := by
  have hkey : ∀ k : BootKey, HasKey ps k.number ↔ (b.slots k).isSome := fun k => (h k).has
  have htask : HasKey ps 5 ↔ b.cause.starved.isSome := (hkey .task).trans (mapped_some Starved.task _)
  have hoverdue : HasKey ps 6 ↔ b.cause.starved.isSome := (hkey .overdueMs).trans (mapped_some Starved.overdueMs _)
  have hfile : HasKey ps 7 ↔ b.cause.site.isSome := (hkey .file).trans (mapped_some PanicSite.file _)
  have hline : HasKey ps 8 ↔ b.cause.site.isSome := (hkey .line).trans (mapped_some PanicSite.line _)
  constructor
  · exact ⟨(hkey .backupValid).mpr rfl, (hkey .rtcCrystal).mpr rfl, (hkey .railCycled).mpr rfl⟩
  · exact htask.trans hoverdue.symm
  · exact hfile.trans hline.symm
  · intro hwords
    have hsome := htask.mp hwords
    cases hcause : b.cause with
    | watchdog words => rfl
    | power | softwareReset | panic | pinReset | optionByteReload | windowWatchdog | lowPowerEntry =>
      rw [hcause] at hsome
      cases hsome
  · rw [hfile]
    cases b.cause <;> simp [BootCause.site, BootCause.reason]

theorem wordless {reason : BootReason} (h : reason ≠ .panic) : ∃ cause : BootCause, cause.reason = reason ∧
    cause.starved = none ∧ cause.site = none := by
  cases reason with
  | panic => exact absurd rfl h
  | power => exact ⟨.power, rfl, rfl, rfl⟩
  | watchdog => exact ⟨.watchdog none, rfl, rfl, rfl⟩
  | softwareReset => exact ⟨.softwareReset, rfl, rfl, rfl⟩
  | pinReset => exact ⟨.pinReset, rfl, rfl, rfl⟩
  | optionByteReload => exact ⟨.optionByteReload, rfl, rfl, rfl⟩
  | windowWatchdog => exact ⟨.windowWatchdog, rfl, rfl, rfl⟩
  | lowPowerEntry => exact ⟨.lowPowerEntry, rfl, rfl, rfl⟩

theorem consistent_slots {ps : List (Key × Item)} {i : Item} {reason : BootReason} (hread : Readable ps)
    (hvalue : valueAt ps 1 = some i) (hreason : item .reason i = some reason) (h : Consistent ps reason) :
    ∃ b : Boot, ∀ k, Table.SlotOf item ps b.slots k := by
  have hhas : ∀ k : BootKey, HasKey ps k.number → ∃ i v, valueAt ps k.number = some i ∧ item k i = some v := by
    intro k hk
    cases hi : valueAt ps k.number with
    | none => exact absurd hk (valueAt_none.mp hi)
    | some i =>
      obtain ⟨v, hv⟩ := Option.isSome_iff_exists.mp (hread k i hi)
      exact ⟨i, v, rfl, hv⟩
  have hnone : ∀ k : BootKey, ¬HasKey ps k.number → valueAt ps k.number = none := fun k hk => valueAt_none.mpr hk
  obtain ⟨hbackup, hcrystal, hrail⟩ := h.required
  obtain ⟨i₂, backupValid, hvalue₂, hitem₂⟩ := hhas .backupValid hbackup
  obtain ⟨i₃, rtcCrystal, hvalue₃, hitem₃⟩ := hhas .rtcCrystal hcrystal
  obtain ⟨i₄, railCycled, hvalue₄, hitem₄⟩ := hhas .railCycled hrail
  have hbuild : ∀ cause : BootCause, cause.reason = reason →
      (∀ k ∈ [BootKey.task, .overdueMs, .file, .line],
        Table.SlotOf item ps (slots ⟨cause, backupValid, rtcCrystal, railCycled⟩) k) →
      ∃ b : Boot, ∀ k, Table.SlotOf item ps b.slots k := by
    rintro cause rfl hlast
    refine ⟨⟨cause, backupValid, rtcCrystal, railCycled⟩, fun k => ?_⟩
    cases k with
    | reason => exact (Table.slotOf_present hvalue).mpr ⟨hreason, rfl⟩
    | backupValid => exact (Table.slotOf_present hvalue₂).mpr ⟨hitem₂, rfl⟩
    | rtcCrystal => exact (Table.slotOf_present hvalue₃).mpr ⟨hitem₃, rfl⟩
    | railCycled => exact (Table.slotOf_present hvalue₄).mpr ⟨hitem₄, rfl⟩
    | task | overdueMs | file | line => exact hlast _ (by decide)
  by_cases hpanic : HasKey ps 7
  · obtain rfl := h.panic.mp hpanic
    have hstarved : ¬HasKey ps 5 := by
      intro hwords
      cases h.watchdog hwords
    obtain ⟨i₇, file, hvalue₇, hitem₇⟩ := hhas .file hpanic
    obtain ⟨i₈, line, hvalue₈, hitem₈⟩ := hhas .line (h.site.mp hpanic)
    apply hbuild (.panic ⟨file, line⟩) rfl
    simp only [List.forall_mem_cons]
    exact ⟨(Table.slotOf_absent (hnone .task hstarved)).mpr rfl,
      (Table.slotOf_absent (hnone .overdueMs (h.starved.not.mp hstarved))).mpr rfl,
      (Table.slotOf_present hvalue₇).mpr ⟨hitem₇, rfl⟩, (Table.slotOf_present hvalue₈).mpr ⟨hitem₈, rfl⟩, by simp⟩
  · have hfile := hnone .file hpanic
    have hline := hnone .line (h.site.not.mp hpanic)
    by_cases hstarved : HasKey ps 5
    · obtain rfl := h.watchdog hstarved
      obtain ⟨i₅, task, hvalue₅, hitem₅⟩ := hhas .task hstarved
      obtain ⟨i₆, overdueMs, hvalue₆, hitem₆⟩ := hhas .overdueMs (h.starved.mp hstarved)
      apply hbuild (.watchdog (some ⟨task, overdueMs⟩)) rfl
      simp only [List.forall_mem_cons]
      exact ⟨(Table.slotOf_present hvalue₅).mpr ⟨hitem₅, rfl⟩, (Table.slotOf_present hvalue₆).mpr ⟨hitem₆, rfl⟩,
        (Table.slotOf_absent hfile).mpr rfl, (Table.slotOf_absent hline).mpr rfl, by simp⟩
    · have htask := hnone .task hstarved
      have hoverdue := hnone .overdueMs (h.starved.not.mp hstarved)
      obtain ⟨cause, hcause, hwords, hsite⟩ := wordless (mt h.panic.mpr hpanic)
      apply hbuild cause hcause
      have hnoWords : cause.starved.map Starved.task = none ∧ cause.starved.map Starved.overdueMs = none := by
        rw [hwords]
        exact ⟨rfl, rfl⟩
      have hnoSite : cause.site.map PanicSite.file = none ∧ cause.site.map PanicSite.line = none := by
        rw [hsite]
        exact ⟨rfl, rfl⟩
      simp only [List.forall_mem_cons]
      exact ⟨(Table.slotOf_absent htask).mpr hnoWords.1, (Table.slotOf_absent hoverdue).mpr hnoWords.2,
        (Table.slotOf_absent hfile).mpr hnoSite.1, (Table.slotOf_absent hline).mpr hnoSite.2, by simp⟩

end Boot

/-- Every boot is read back as it was, and exactly the bodies whose last words agree with their reason are read. -/
theorem boot_bodies :
    (∀ (b : Boot) dst out, b.encode dst = .ok out → Boot.decode out = .ok b) ∧
    (∀ (b : Boot), ∃ size, ∀ dst, size ≤ dst → ∃ out, b.encode dst = .ok out) ∧
    (∀ payload, (∃ b, Boot.decode payload = .ok b) ↔ ∃ w ps i reason, (Item.map w ps).Legal maxDepth ∧
      (Item.map w ps).spelling = payload ∧ Keyed ps ∧ Boot.Readable ps ∧ valueAt ps 1 = some i ∧
      Boot.item .reason i = some reason ∧ Boot.Consistent ps reason) ∧
    ∀ (w w' : Width) (ps qs extra : List (Key × Item)), qs.Perm (ps ++ extra) → Unread Boot.table.Known extra →
      (Item.map w ps).Legal maxDepth → (Item.map w' qs).Legal maxDepth →
        ∀ b, Boot.decode (Item.map w ps).spelling = .ok b ↔ Boot.decode (Item.map w' qs).spelling = .ok b := by
  refine ⟨?_, ?_, ?_, ?_⟩
  · intro b dst out h
    obtain ⟨rfl, -⟩ := b.encode_ok.mp h
    exact b.decode_items
  · intro b
    exact ⟨_, fun dst hdst => ⟨_, b.encode_ok.mpr ⟨rfl, hdst⟩⟩⟩
  · intro payload
    constructor
    · rintro ⟨b, h⟩
      obtain ⟨w, ps, hlegal, hspell, hkeyed, hslots⟩ := Boot.decode_ok.mp h
      have hreason : HasKey ps 1 := (hslots .reason).has.mpr rfl
      cases hvalue : valueAt ps 1 with
      | none => exact absurd hreason (valueAt_none.mp hvalue)
      | some i =>
        have hitem := ((Table.slotOf_present (k := BootKey.reason) hvalue).mp (hslots .reason)).1
        refine ⟨w, ps, i, b.cause.reason, hlegal, hspell, hkeyed, ?_, hvalue, hitem, Boot.slots_consistent hslots⟩
        intro k j hj
        obtain ⟨hread, hsome⟩ := (Table.slotOf_present hj).mp (hslots k)
        rw [hread]
        exact hsome
    · rintro ⟨w, ps, i, reason, hlegal, hspell, hkeyed, hread, hvalue, hreason, hcons⟩
      obtain ⟨b, hslots⟩ := Boot.consistent_slots hread hvalue hreason hcons
      exact ⟨b, Boot.decode_ok.mpr ⟨w, ps, hlegal, hspell, hkeyed, hslots⟩⟩
  · intro w w' ps qs extra hqs hextra hlegal hlegal' b
    simp only [Boot.decode, Table.decode, bind_ok]
    exact exists_congr fun s => and_congr_left fun _ => Boot.decodes.order hqs hextra hlegal hlegal' s

end Km43.Log
