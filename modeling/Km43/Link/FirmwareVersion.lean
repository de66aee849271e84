import Km43.Link.LinkUp

namespace Km43.Link.Firmware

open Cbor

/-! The format of a firmware version, as a grammar of its own. -/

def Digit (b : UInt8) : Prop := 0x30 ≤ b ∧ b ≤ 0x39
def Letter (b : UInt8) : Prop := 0x41 ≤ b ∧ b ≤ 0x5A ∨ 0x61 ≤ b ∧ b ≤ 0x7A
def HexDigit (b : UInt8) : Prop := Digit b ∨ 0x61 ≤ b ∧ b ≤ 0x66

def dot : UInt8 := 0x2E
def hyphen : UInt8 := 0x2D
def plus : UInt8 := 0x2B
def letterG : UInt8 := 0x67

def NoLeadingZero (part : Bytes) : Prop := ∀ rest, part = 0x30 :: rest → rest = []

structure Numeral (part : Bytes) : Prop where
  some : 1 ≤ part.length
  few : part.length ≤ 3
  digits : ∀ b ∈ part, Digit b
  plain : NoLeadingZero part

structure Identifier (id : Bytes) : Prop where
  some : id ≠ []
  letters : ∀ b ∈ id, Digit b ∨ Letter b ∨ b = hyphen
  numeric : (∀ b ∈ id, Digit b) → NoLeadingZero id

structure Core (core : Bytes) : Prop where
  numbers : ∃ major minor patch, Numeral major ∧ Numeral minor ∧ Numeral patch ∧
    core = major ++ dot :: (minor ++ dot :: patch)

structure PreRelease (pre : Bytes) : Prop where
  some : 1 ≤ pre.length
  few : pre.length ≤ 8
  identifiers : ∃ ids : List Bytes, ids ≠ [] ∧ (∀ id ∈ ids, Identifier id) ∧ pre = [dot].intercalate ids

structure CommitId (id : Bytes) : Prop where
  eight : id.length = 8
  digits : ∀ b ∈ id, HexDigit b

inductive Text : Bytes → Prop
  | release {core id : Bytes} (numbers : Core core) (commit : CommitId id) : Text (core ++ plus :: letterG :: id)
  | preRelease {core pre id : Bytes} (numbers : Core core) (identifiers : PreRelease pre) (commit : CommitId id) :
    Text (core ++ hyphen :: pre ++ plus :: letterG :: id)

variable {part core pre release id text : Bytes} {b : UInt8}

theorem digit_iff : digit b = true ↔ Digit b := by simp [digit, Digit]

theorem alphanumeric_iff : alphanumeric b = true ↔ Digit b ∨ Letter b := by
  simp [alphanumeric, digit, Digit, Letter, or_assoc]

theorem number_iff : number part = true ↔ NoLeadingZero part := by
  cases part with
  | nil => simp [number, NoLeadingZero]
  | cons b rest =>
    by_cases hzero : b = 0x30
    · simp [number, NoLeadingZero, hzero]
    · simp [number, NoLeadingZero, hzero]

theorem component_iff : component part = true ↔ Numeral part := by
  simp only [component, Bool.and_eq_true, decide_eq_true_eq, List.all_eq_true, digit_iff, number_iff]
  constructor
  · rintro ⟨⟨⟨hsome, hfew⟩, hdigits⟩, hplain⟩
    exact ⟨hsome, hfew, hdigits, hplain⟩
  · rintro ⟨hsome, hfew, hdigits, hplain⟩
    exact ⟨⟨⟨hsome, hfew⟩, hdigits⟩, hplain⟩

theorem identifier_iff : identifier id = true ↔ Identifier id := by
  have hnumeric : (!id.all digit || number id) = true ↔ ((∀ b ∈ id, Digit b) → NoLeadingZero id) := by
    rw [Bool.or_eq_true, Bool.not_eq_true', number_iff, ← Bool.not_eq_true, List.all_eq_true, ← imp_iff_not_or]
    simp only [digit_iff]
  simp only [identifier, Bool.and_eq_true, hnumeric, List.all_eq_true, Bool.or_eq_true, alphanumeric_iff, beq_iff_eq,
    Bool.not_eq_true', List.isEmpty_eq_false_iff, or_assoc]
  constructor
  · rintro ⟨⟨hsome, hletters⟩, hplain⟩
    exact ⟨hsome, hletters, hplain⟩
  · rintro ⟨hsome, hletters, hplain⟩
    exact ⟨⟨hsome, hletters⟩, hplain⟩

theorem commit_iff : commit id = true ↔ CommitId id := by
  simp only [commit, Bool.and_eq_true, beq_iff_eq, List.all_eq_true, Bool.or_eq_true, digit_iff, decide_eq_true_eq]
  constructor
  · rintro ⟨hlen, hdigits⟩
    exact ⟨hlen, hdigits⟩
  · rintro ⟨hlen, hdigits⟩
    exact ⟨hlen, hdigits⟩

theorem preRelease_iff : preRelease pre = true ↔ PreRelease pre := by
  simp only [preRelease, Bool.and_eq_true, decide_eq_true_eq, List.all_eq_true, identifier_iff]
  constructor
  · rintro ⟨⟨hsome, hfew⟩, hids⟩
    exact ⟨hsome, hfew, pre.splitOn dot, List.splitOn_ne_nil _ _, hids, (List.intercalate_splitOn dot).symm⟩
  · rintro ⟨hsome, hfew, ids, hne, hids, rfl⟩
    refine ⟨⟨hsome, hfew⟩, ?_⟩
    have hclean : ∀ id ∈ ids, dot ∉ id := by
      intro id hid hdot
      rcases (hids id hid).letters dot hdot with hbad | hbad | hbad
      · exact absurd hbad (by simp [Digit, dot])
      · exact absurd hbad (by simp [Letter, dot])
      · exact absurd hbad (by decide)
    change ∀ id ∈ ([dot].intercalate ids).splitOn dot, Identifier id
    rw [List.splitOn_intercalate dot hclean hne]
    exact hids

theorem core_iff : ((core.splitOn 0x2E).length = 3 ∧ ∀ part ∈ core.splitOn 0x2E, Numeral part) ↔ Core core := by
  constructor
  · rintro ⟨hlen, hparts⟩
    obtain ⟨major, minor, patch, hsplit⟩ := List.length_eq_three.mp hlen
    have hjoin : [dot].intercalate (core.splitOn dot) = core := List.intercalate_splitOn dot
    rw [show core.splitOn dot = [major, minor, patch] from hsplit] at hjoin
    rw [hsplit] at hparts
    simp only [List.forall_mem_cons] at hparts
    obtain ⟨hmajor, hminor, hpatch, -⟩ := hparts
    refine ⟨major, minor, patch, hmajor, hminor, hpatch, hjoin.symm.trans ?_⟩
    simp [List.intercalate]
  · rintro ⟨major, minor, patch, hmajor, hminor, hpatch, rfl⟩
    have hclean : ∀ part ∈ [major, minor, patch], dot ∉ part := by
      have hall : ∀ part ∈ [major, minor, patch], Numeral part := by
        simp only [List.forall_mem_cons]
        exact ⟨hmajor, hminor, hpatch, by simp⟩
      intro part hpart hdot
      exact absurd ((hall part hpart).digits dot hdot) (by simp [Digit, dot])
    have hsplit := List.splitOn_intercalate dot hclean (by simp)
    have hjoin : [dot].intercalate [major, minor, patch] = major ++ dot :: (minor ++ dot :: patch) := by
      simp [List.intercalate]
    rw [hjoin] at hsplit
    change ((_ : Bytes).splitOn dot).length = 3 ∧ ∀ part ∈ (_ : Bytes).splitOn dot, Numeral part
    rw [hsplit]
    simp only [List.forall_mem_cons]
    exact ⟨rfl, hmajor, hminor, hpatch, by simp⟩

theorem commitSplit_append (h : plus ∉ release) : commitSplit (release ++ plus :: letterG :: id) = some (release, id) := by
  induction release with
  | nil => rfl
  | cons b release ih =>
    rw [List.mem_cons, not_or] at h
    have hb : b ≠ 0x2B := fun he => h.1 he.symm
    rw [List.cons_append, commitSplit]
    · rw [ih h.2]
      rfl
    · rintro rest ⟨⟩ -
      exact hb rfl

theorem commitSplit_some (h : commitSplit text = some (release, id)) : text = release ++ plus :: letterG :: id := by
  fun_induction commitSplit text generalizing release with
  | case1 rest =>
    cases h
    rfl
  | case2 b rest _ ih =>
    obtain ⟨⟨before, after⟩, hsplit, heq⟩ := Option.map_eq_some_iff.mp h
    cases heq
    rw [ih hsplit, List.cons_append]
  | case3 => cases h

theorem hyphenSplit_whole (h : hyphen ∉ release) : hyphenSplit release = (release, none) := by
  have hall : release.dropWhile (· != 0x2D) = [] := by
    rw [List.dropWhile_eq_nil_iff]
    intro b hb
    simp only [bne_iff_ne, ne_eq]
    rintro rfl
    exact h hb
  rw [hyphenSplit, hall]

theorem hyphenSplit_append (h : hyphen ∉ core) : hyphenSplit (core ++ hyphen :: pre) = (core, some pre) := by
  have hall : ∀ b ∈ core, (b != 0x2D) = true := by
    intro b hb
    simp only [bne_iff_ne, ne_eq]
    rintro rfl
    exact h hb
  rw [hyphenSplit, List.dropWhile_append_of_pos hall, List.takeWhile_append_of_pos hall]
  simp [hyphen]

theorem Core.clean (h : Core core) (hb : ¬ Digit b) (hdot : b ≠ dot) : b ∉ core := by
  obtain ⟨major, minor, patch, hmajor, hminor, hpatch, rfl⟩ := h
  simp only [List.mem_append, List.mem_cons, not_or]
  exact ⟨fun h => hb (hmajor.digits _ h), hdot, fun h => hb (hminor.digits _ h), hdot, fun h => hb (hpatch.digits _ h)⟩

theorem mem_intercalate {ids : List Bytes} (h : b ∈ [dot].intercalate ids) : b = dot ∨ ∃ id ∈ ids, b ∈ id := by
  induction ids with
  | nil => simp [List.intercalate] at h
  | cons id ids ih =>
    by_cases hids : ids = []
    · subst hids
      exact .inr ⟨id, List.mem_cons_self, by simpa [List.intercalate] using h⟩
    · rw [List.intercalate_cons_of_ne_nil hids, List.append_assoc, List.mem_append, List.singleton_append,
        List.mem_cons] at h
      rcases h with hhere | hdot | hrest
      · exact .inr ⟨id, List.mem_cons_self, hhere⟩
      · exact .inl hdot
      · rcases ih hrest with hdot | ⟨later, hlater, hmem⟩
        · exact .inl hdot
        · exact .inr ⟨later, List.mem_cons_of_mem _ hlater, hmem⟩

theorem PreRelease.clean (h : PreRelease pre) : plus ∉ pre := by
  obtain ⟨-, -, ids, -, hids, rfl⟩ := h
  intro hplus
  rcases mem_intercalate hplus with hdot | ⟨id, hid, hmem⟩
  · exact absurd hdot (by decide)
  · rcases (hids id hid).letters plus hmem with hbad | hbad | hbad
    · exact absurd hbad (by simp [Digit, plus])
    · exact absurd hbad (by simp [Letter, plus])
    · exact absurd hbad (by decide)

theorem release_iff : (let (core, pre) := hyphenSplit release
    let parts := core.splitOn 0x2E
    parts.length == 3 && parts.all component && pre.all preRelease) = true ↔
      Core release ∨ ∃ core pre, Core core ∧ PreRelease pre ∧ release = core ++ hyphen :: pre := by
  by_cases hhyphen : hyphen ∈ release
  · obtain ⟨core, pre, rfl, hfirst⟩ := List.eq_append_cons_of_mem hhyphen
    rw [hyphenSplit_append hfirst]
    simp only [Bool.and_eq_true, beq_iff_eq, List.all_eq_true, component_iff, Option.all_some, preRelease_iff, core_iff]
    constructor
    · rintro ⟨hcore, hpre⟩
      exact .inr ⟨core, pre, hcore, hpre, rfl⟩
    · rintro (hcore | ⟨core', pre', hcore, hpre, heq⟩)
      · exact absurd hhyphen (hcore.clean (by simp [Digit, hyphen]) (by decide))
      · have hclean := hcore.clean (b := hyphen) (by simp [Digit, hyphen]) (by decide)
        have hsame := congrArg hyphenSplit heq
        rw [hyphenSplit_append hfirst, hyphenSplit_append hclean] at hsame
        cases hsame
        exact ⟨hcore, hpre⟩
  · rw [hyphenSplit_whole hhyphen]
    simp only [Bool.and_eq_true, beq_iff_eq, List.all_eq_true, component_iff, Option.all_none, and_true, core_iff]
    constructor
    · exact .inl
    · rintro (hcore | ⟨core, pre, -, -, rfl⟩)
      · exact hcore
      · simp at hhyphen

theorem conforms_iff : conforms text = true ↔ Text text := by
  constructor
  · intro h
    unfold conforms at h
    split at h
    · cases h
    · rename_i release id hsplit
      obtain ⟨hrelease, hcommit⟩ := Bool.and_eq_true_iff.mp h
      rw [commitSplit_some hsplit]
      rcases release_iff.mp hrelease with hcore | ⟨core, pre, hcore, hpre, rfl⟩
      · exact .release hcore (commit_iff.mp hcommit)
      · exact .preRelease hcore hpre (commit_iff.mp hcommit)
  · have hconforms : ∀ {release id}, plus ∉ release → CommitId id →
        (Core release ∨ ∃ core pre, Core core ∧ PreRelease pre ∧ release = core ++ hyphen :: pre) →
        conforms (release ++ plus :: letterG :: id) = true := by
      intro release id hplus hcommit hrelease
      rw [conforms, commitSplit_append hplus]
      exact Bool.and_eq_true_iff.mpr ⟨release_iff.mpr hrelease, commit_iff.mpr hcommit⟩
    have hplain : ∀ {core}, Core core → plus ∉ core := fun hcore => hcore.clean (by simp [Digit, plus]) (by decide)
    intro h
    cases h with
    | release hcore hcommit => exact hconforms (hplain hcore) hcommit (.inl hcore)
    | preRelease hcore hpre hcommit =>
      apply hconforms _ hcommit (.inr ⟨_, _, hcore, hpre, rfl⟩)
      rw [List.mem_append, List.mem_cons, not_or, not_or]
      exact ⟨hplain hcore, by decide, hpre.clean⟩

/-- The check takes the texts of the grammar, and refuses every other by its key. -/
theorem versioned_iff (key : LinkField) (text : Bytes) : (versioned key text = .ok () ↔ Text text) ∧
    (¬ Text text → versioned key text = .error (.notAVersion key)) := by
  rw [← conforms_iff, versioned]
  by_cases h : conforms text = true
  · simp [h]
  · simp [h]

end Km43.Link.Firmware
