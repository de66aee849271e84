import Km43.Cbor.Mirror

namespace Km43.Cbor

open Library CborWriter

namespace Call

def header : Call → Option (Major × ℕ)
  | array len => some (.array, len.toNat)
  | map pairs => some (.map, pairs.toNat)
  | key k => some (.unsigned, k.toInt.toNat)
  | u64 value => some (.unsigned, value.toNat)
  | i32 value =>
    if value.toInt < 0 then some (.negative, value.toInt.natAbs - 1)
    else some (.unsigned, value.toInt.natAbs)
  | bool value => some (.simple, if value then 21 else 20)
  | bytes value | fill value => some (.bytes, value.length)
  | text value => some (.text, value.raw.length)
  | raw _ => none

def payload : Call → Bytes
  | bytes value | fill value => value
  | text value => value.raw
  | raw item => item
  | array _ | map _ | key _ | u64 _ | i32 _ | bool _ => []

def spelling (call : Call) : Bytes :=
  (call.header.elim [] fun h => headBytes h.1 (Width.of h.2) h.2) ++ call.payload

end Call

structure Level where
  owes : ℕ
  keys : List ℤ

def closeLevels : List Level → List Level × List (List ℤ)
  | [] => ([], [])
  | level :: base =>
    if level.owes = 0 then ((closeLevels base).1, level.keys :: (closeLevels base).2)
    else (level :: base, [])

def payItem : List Level → List Level
  | level :: base => { level with owes := level.owes - 1 } :: base
  | [] => []

def Call.enterLevel (open' : List Level) : Call → List Level
  | array len => ⟨len.toNat, []⟩ :: payItem open'
  | map pairs => ⟨pairs.toNat * 2, []⟩ :: payItem open'
  | key k =>
    match open' with
    | level :: base => ⟨level.owes - 1, level.keys ++ [k.toInt]⟩ :: base
    | [] => []
  | u64 _ | i32 _ | bool _ | bytes _ | fill _ | text _ | raw _ => payItem open'

def keysOf (open' : List Level) : List Call → List (List ℤ)
  | [] => open'.map Level.keys
  | call :: calls =>
    (closeLevels open').2 ++ keysOf (call.enterLevel (closeLevels open').1) calls

variable {w w' : CborWriter}

theorem Width.of_least {n : ℕ} {v : Width} (h : v.Holds n) : (Width.of n).bytes ≤ v.bytes := by
  unfold Width.Holds at h
  unfold Width.of
  cases v <;> simp only [Width.limit] at h <;> split_ifs <;> simp only [Width.bytes] <;> omega

theorem Call.Spells.spelling {call : Call} {d : ℕ} {i : Item} (h : call.Spells d i) :
    i.spelling = call.spelling := by
  cases call with
  | array len | map pairs | key k => exact h.elim
  | u64 value =>
    obtain rfl := h
    exact (List.append_nil _).symm
  | i32 value =>
    obtain rfl := h
    by_cases hneg : value.toInt < 0
    · simp only [Item.ofInt, Call.spelling, Call.header, Call.payload, if_pos hneg, Option.elim,
        List.append_nil]
      rfl
    · simp only [Item.ofInt, Call.spelling, Call.header, Call.payload, if_neg hneg, Option.elim,
        List.append_nil]
      rfl
  | bool value =>
    obtain rfl := h
    cases value <;> rfl
  | bytes value | fill value =>
    obtain rfl := h
    rfl
  | text value =>
    obtain ⟨rfl, -⟩ := h
    rfl
  | raw item => exact h.2

theorem Call.Opens.spelling {call : Call} {kind : Nesting} {n : ℕ} (h : call.Opens kind n) :
    (kind.token (Width.of n) n).spelling = call.spelling := by
  cases call with
  | array len | map pairs =>
    obtain ⟨rfl, rfl⟩ := h
    exact (List.append_nil _).symm
  | key k | u64 value | i32 value | bool value | bytes value | fill value | text value | raw item =>
    exact h.elim

theorem Did.out {call : Call} (h : Did w w' call) : w'.out = w.out ++ call.spelling := by
  cases h with
  | item levels spells counted => rw [counted.2.2.out, spells.spelling]
  | box opens value levels fits moved => rw [moved, inside, opens.spelling]
  | key sign stack kind remaining above fits moved =>
    rw [moved]
    exact congrArg (w.out ++ ·) (List.append_nil _).symm

theorem writeAll_out {calls : List Call} (h : writeAll calls w = .ok ((), w'))
    (hs : w.stack.length ≤ maxDepth) : w'.out = w.out ++ calls.flatMap Call.spelling := by
  induction calls generalizing w with
  | nil =>
    cases h
    simp
  | cons call calls ih =>
    obtain ⟨⟨⟩, w₁, h₁, h⟩ := bind_run_ok.mp h
    have hdid := Call.did h₁ hs
    rw [ih h (hdid.grows.shallow hs), hdid.out, List.append_assoc, List.flatMap_cons]

structure Level.Keeps (level : Level) (o : Open) : Prop where
  owes : level.owes = o.remaining
  rising : level.keys.Pairwise (· < ·)
  last : ∀ k ∈ level.keys, ∃ g, o.lastKey = some ⟨false, g⟩ ∧ k ≤ g

def Kept (levels : List Level) (stack : List Open) : Prop := List.Forall₂ Level.Keeps levels stack

theorem Kept.rising {levels : List Level} {stack : List Open} (h : Kept levels stack) :
    ∀ level ∈ levels, level.keys.Pairwise (· < ·) := by
  induction h with
  | nil => simp
  | cons hl _ ih => exact List.forall_mem_cons.mpr ⟨hl.rising, ih⟩

theorem Kept.close {levels : List Level} {stack : List Open} (h : Kept levels stack) :
    Kept (closeLevels levels).1 (owing stack) ∧
      ∀ keys ∈ (closeLevels levels).2, keys.Pairwise (· < ·) := by
  induction h with
  | nil => exact ⟨.nil, by simp [closeLevels]⟩
  | @cons level o levels stack hl hrest ih =>
    by_cases ho : o.remaining = 0
    · rw [owing_zero ho, closeLevels, if_pos (hl.owes.trans ho)]
      exact ⟨ih.1, List.forall_mem_cons.mpr ⟨hl.rising, ih.2⟩⟩
    · rw [owing_pos (Nat.pos_of_ne_zero ho), closeLevels, if_neg (by rw [hl.owes]; exact ho)]
      exact ⟨.cons hl hrest, by simp⟩

theorem Kept.pay {levels : List Level} {stack : List Open} (h : Kept levels stack) :
    Kept (payItem levels) (countTop stack) := by
  cases h with
  | nil => exact .nil
  | cons hl hrest => exact .cons ⟨congrArg (· - 1) hl.owes, hl.rising, hl.last⟩ hrest

theorem Level.Keeps.key {level : Level} {o : Open} (h : level.Keeps o) {k n : ℕ}
    (hrem : o.remaining = (n + 1) * 2)
    (habove : ∀ g, o.lastKey = some g → (Key.ofNat k).rank.le g = false) :
    Level.Keeps ⟨level.owes - 1, level.keys ++ [(k : ℤ)]⟩
      { o with remaining := n * 2 + 1, lastKey := some (Key.ofNat k).rank } := by
  have hbelow : ∀ j ∈ level.keys, j < k := by
    intro j hj
    obtain ⟨g, hg, hle⟩ := h.last j hj
    have hgt : KeyRank.le ⟨false, k⟩ ⟨false, g⟩ = false := habove _ hg
    simp only [KeyRank.le, Bool.not_false, Bool.and_false, beq_self_eq_true, Bool.true_and,
      Bool.false_or, decide_eq_false_iff_not, not_le] at hgt
    omega
  refine ⟨?_, ?_, ?_⟩
  · have := h.owes
    simp only
    omega
  · rw [List.pairwise_append]
    refine ⟨h.rising, List.pairwise_singleton _ _, ?_⟩
    intro j hj k' hk'
    rw [List.mem_singleton.mp hk']
    exact hbelow j hj
  · intro j hj
    refine ⟨k, rfl, ?_⟩
    rcases List.mem_append.mp hj with hj | hj
    · exact (hbelow j hj).le
    · exact (List.mem_singleton.mp hj).le

theorem Did.kept {call : Call} {levels : List Level} (h : Did w w' call) (hk : Kept levels w.stack) :
    ∃ stack, Kept (call.enterLevel levels) stack ∧ owing stack = w'.stack := by
  cases h with
  | @item _ d i hlevels spells counted =>
    have hpay : call.enterLevel levels = payItem levels := by
      cases call with
      | array len | map pairs | key k => exact spells.elim
      | u64 value | i32 value | bool value | bytes value | fill value | text value | raw item => rfl
    refine ⟨countTop w.stack, hpay ▸ hk.pay, ?_⟩
    rw [counted.2.2.stack, stack_counted]
  | @box _ kind n opens value hlevels fits moved =>
    have henter : call.enterLevel levels = ⟨n * kind.per, []⟩ :: payItem levels := by
      cases call with
      | array len =>
        obtain ⟨rfl, rfl⟩ := opens
        rw [Nesting.per, Nat.mul_one]
        rfl
      | map pairs =>
        obtain ⟨rfl, rfl⟩ := opens
        rfl
      | key k | u64 value | i32 value | bool value | bytes value | fill value | text value | raw item =>
        exact opens.elim
    rw [henter, moved, stack_inside]
    exact ⟨_, .cons ⟨rfl, .nil, by simp⟩ hk.pay, rfl⟩
  | @key k level base n sign hstack kind remaining above fits moved =>
    rw [hstack] at hk
    cases hk with
    | @cons l _ levels _ hl hrest =>
      have hnumber : ((k.toInt.toNat : ℕ) : ℤ) = k.toInt := Int.toNat_of_nonneg sign
      have hkept := hl.key remaining above
      rw [hnumber] at hkept
      rw [moved]
      exact ⟨_, .cons hkept hrest, rfl⟩

theorem keysOf_rising {calls : List Call} {levels : List Level} {stack : List Open}
    (h : writeAll calls w = .ok ((), w')) (hs : w.stack.length ≤ maxDepth) (hk : Kept levels stack)
    (hw : owing stack = w.stack) : ∀ keys ∈ keysOf levels calls, keys.Pairwise (· < ·) := by
  induction calls generalizing w levels stack with
  | nil =>
    intro keys hkeys
    obtain ⟨level, hl, rfl⟩ := List.mem_map.mp hkeys
    exact hk.rising level hl
  | cons call calls ih =>
    obtain ⟨⟨⟩, w₁, h₁, h⟩ := bind_run_ok.mp h
    obtain ⟨hclose, hdone⟩ := hk.close
    have hdid := Call.did h₁ hs
    obtain ⟨stack', hk', hw'⟩ := hdid.kept (hw ▸ hclose)
    intro keys hkeys
    rcases List.mem_append.mp hkeys with hkeys | hkeys
    · exact hdone keys hkeys
    · exact ih h (hdid.grows.shallow hs) hk' hw' keys hkeys

/-- What the writer writes, its reader reads back; each header it writes itself is the shortest, and
the keys of each map rise. -/
theorem reads_back (capacity : UInt64) (calls : List Call) (w w' : CborWriter) (len : ℕ)
    (hw : writeAll calls (.new capacity.toNat) = .ok ((), w))
    (hf : CborWriter.finish w = .ok (len, w')) :
    (∃ r, readAll calls (.new (w.out.take len)) = .ok (calls.map Call.reading, r) ∧ r.finish = .ok ()) ∧
    w.out.take len = calls.flatMap Call.spelling ∧
    (∀ call ∈ calls, ∀ major n, call.header = some (major, n) → ∀ v : Width, v.Holds n →
      (headBytes major (Width.of n) n).length ≤ (headBytes major v n).length) ∧
    ∀ keys ∈ keysOf [] calls, keys.Pairwise (· < ·) := by
  have hs : (CborWriter.new capacity.toNat).stack.length ≤ maxDepth := Nat.zero_le _
  obtain ⟨hstack, rfl⟩ := finish_inv hf
  rw [List.take_length]
  refine ⟨?_, writeAll_out hw hs, ?_, keysOf_rising hw hs .nil rfl⟩
  · obtain ⟨r, hread, hm⟩ := writeAll_mirrors hw (.new _ w.out) hs capacity.toNat_lt
      (List.prefix_refl _) (by simp [hstack, owed])
    exact ⟨r, hread, hm.finish hstack rfl⟩
  · intro call _ major n _ v hv
    rw [headBytes_length, headBytes_length]
    exact Nat.succ_le_succ (Width.of_least hv)

theorem reads_back_pair :
    ∃ r, readAll [.map 1, .key 1, .u64 500] (.new [0xA1, 0x01, 0x19, 0x01, 0xF4]) =
      .ok ([.count 1, .key 1, .unsigned 500], r) ∧ r.finish = .ok () :=
  (reads_back 5 [.map 1, .key 1, .u64 500]
    ⟨5, [0xA1, 0x01, 0x19, 0x01, 0xF4], ⟨[⟨.map, 0, some ⟨false, 1⟩, 0⟩], 1⟩⟩
    ⟨5, [0xA1, 0x01, 0x19, 0x01, 0xF4], ⟨[], 1⟩⟩ 5 rfl rfl).1

/-- A spliced item keeps its own header: 5 takes two bytes here, where one holds it. -/
theorem spliced_header_longer :
    ∃ w w', writeAll [.raw [0x18, 0x05]] (.new 2) = .ok ((), w) ∧
      CborWriter.finish w = .ok (2, w') ∧ w.out.take 2 = headBytes .unsigned .one 5 ∧
      Width.inline.Holds 5 ∧ (headBytes .unsigned .inline 5).length < (w.out.take 2).length :=
  ⟨⟨2, [0x18, 0x05], .new⟩, ⟨2, [0x18, 0x05], .new⟩, by decide +kernel, rfl, rfl, by decide, by decide⟩

end Km43.Cbor
