import Km43.Cbor.Carried
import Km43.Cbor.Told
import Km43.Concerns.Page

namespace Km43.Concerns

open Library Cbor CborReader CborWriter

inductive ConcernsOutcome
  | ok
  | superseded
  | outOfRange
  deriving DecidableEq

namespace ConcernsOutcome

def number : ConcernsOutcome → UInt8
  | ok => 1
  | superseded => 2
  | outOfRange => 3

def of (number : UInt8) : Option ConcernsOutcome :=
  if number = 1 then some ok else if number = 2 then some superseded else if number = 3 then some outOfRange else none

@[simp] theorem of_number (outcome : ConcernsOutcome) : of outcome.number = some outcome := by cases outcome <;> rfl

theorem of_iff (n : UInt8) (outcome : ConcernsOutcome) : of n = some outcome ↔ n = outcome.number := by
  constructor
  · intro h
    unfold of at h
    split_ifs at h with h₁ h₂ h₃ <;> cases h <;> assumption
  · rintro rfl
    exact of_number outcome

end ConcernsOutcome

/-- Why an answer was refused; a row, a repeated key and the CBOR underneath have refusals of their own. -/
inductive AnswerError
  | concern (why : ConcernsError)
  | missingRequest (key : UInt8)
  | missingResponse (key : UInt8)
  | pagePastRowCap (rows : ℕ)
  | answeredNothing (outcome : ConcernsOutcome)
  | unknownOutcome (number : UInt8)
  deriving DecidableEq

instance : FromCbor AnswerError := ⟨fun why => .concern (.cbor why)⟩

inductive AnswerKey
  | rev
  | seq
  | rows
  | next
  | total
  | refused
  | outcome
  deriving DecidableEq

namespace AnswerKey

def all : List AnswerKey := [rev, seq, rows, next, total, refused, outcome]

theorem keyList : KeyList all := ⟨by decide, fun k => by cases k <;> decide, by decide⟩

instance : Listed AnswerKey := ⟨all, keyList⟩

end AnswerKey

structure ConcernsBody where
  rev : UInt32
  seq : UInt64
  total : UInt16
  refused : UInt16
  outcome : ConcernsOutcome
  page : Option ConcernsPage

namespace ConcernsBody

def answered (body : ConcernsBody) : Bool := body.outcome = .ok

def shown (body : ConcernsBody) : ConcernsPage :=
  match body.page with
  | some page => if body.answered then page else .new
  | none => .new

def front (body : ConcernsBody) : List (AnswerKey × List Call) :=
  [(.rev, [.u64 body.rev.toUInt64]), (.seq, [.u64 body.seq])]

def back (body : ConcernsBody) : List (AnswerKey × List Call) :=
  [(.next, [.u64 body.shown.next.toUInt64]), (.total, [.u64 body.total.toUInt64]),
    (.refused, [.u64 body.refused.toUInt64]), (.outcome, [.u64 body.outcome.number.toUInt64])]

def write (body : ConcernsBody) : Encoder AnswerError Unit := do
  tell (CborWriter.map (if body.shown.rows.rows > 0 then 7 else 6))
  writeEntries body.front
  (if body.shown.rows.rows > 0 then do
    tell (CborWriter.key 3)
    body.shown.rows.write
  else pure ())
  writeEntries body.back

/-- Nothing is encoded of an outcome that answered nothing beside a page that holds a row. -/
def encode (body : ConcernsBody) (dst : ℕ) : Except AnswerError Bytes :=
  if !body.answered && body.page.any fun page => page.rows.rows != 0 then .error (.answeredNothing body.outcome)
  else encodeBody body.write dst

end ConcernsBody

structure ConcernsHeader where
  rev : UInt32
  seq : UInt64
  next : UInt16
  total : UInt16
  refused : UInt16
  outcome : ConcernsOutcome
  rows : ℕ
  deriving DecidableEq

namespace ConcernsHeader

def Value : AnswerKey → Type
  | .rev => UInt32
  | .seq => UInt64
  | .rows => ℕ
  | .next | .total | .refused => UInt16
  | .outcome => UInt8

def count : Read AnswerError ℕ := do
  let n ← ask array
  itemLoop (fun _ => ask skip) n ()
  pure n

def table : Table AnswerError AnswerKey where
  Value := Value
  read
    | .rev => ask u32
    | .seq => UInt64.ofNat <$> ask u64
    | .rows => count
    | .next | .total | .refused => ask u16
    | .outcome => ask u8
  twice k := .concern (.duplicate (UInt8.ofNat (BodyKey.number k)))

def complete (s : table.Slots) : Except AnswerError ConcernsHeader := do
  let rows : ℕ := Option.getD (s .rows) (0 : ℕ)
  let number : UInt8 ← slotRequired (.missingResponse 7) (s .outcome)
  let outcome ← slotRequired (.unknownOutcome number) (ConcernsOutcome.of number)
  let next : UInt16 ← slotRequired (.missingResponse 4) (s .next)
  if outcome ≠ .ok ∧ (next ≠ 0 ∨ rows > 0) then .error (.answeredNothing outcome)
  else if rows > maxConcernPageRows then .error (.pagePastRowCap rows)
  else do
    let rev ← slotRequired (.missingResponse 1) (s .rev)
    let seq ← slotRequired (.missingResponse 2) (s .seq)
    let total ← slotRequired (.missingResponse 5) (s .total)
    let refused ← slotRequired (.missingResponse 6) (s .refused)
    .ok ⟨rev, seq, next, total, refused, outcome, rows⟩

def decode : Bytes → Except AnswerError ConcernsHeader := table.decode complete

end ConcernsHeader

inductive RowsKey
  | rows
  deriving DecidableEq

namespace RowsKey

def of (number : ℤ) : Option RowsKey := if number = 3 then some rows else none

def number : RowsKey → ℕ
  | rows => 3

theorem of_iff (n : ℤ) (k : RowsKey) : of n = some k ↔ n = k.number := by
  cases k
  simp [of, number]

theorem small (k : RowsKey) : k.number < 256 := by
  cases k
  decide

end RowsKey

instance : BodyKey RowsKey := ⟨RowsKey.of, RowsKey.number, RowsKey.of_iff, RowsKey.small⟩

structure ConcernRows where
  body : CborReader
  left : ℕ

namespace ConcernRows

def table : Table AnswerError RowsKey where
  Value _ := Bytes
  read _ := ask raw
  twice _ := .concern (.duplicate 3)

def of (payload : Bytes) : Except AnswerError ConcernRows := do
  let s ← decodeBody table.slots payload
  match s .rows with
  | none => .ok ⟨.new [], 0⟩
  | some rows => do
    let (left, body) ← (ask array : Read AnswerError ℕ) (.new rows)
    .ok ⟨body, left⟩

def decodeRow (one : Bytes) : Except AnswerError Concern := (Concern.decode one).mapError .concern

def all (rows : ConcernRows) : Except AnswerError (List Concern) := collect decodeRow rows.left rows.body

end ConcernRows

namespace ConcernsPage

structure Carries (page : ConcernsPage) (concerns : List Concern) : Prop where
  holds : page.rows.Holds 6 (concerns.map fun c => bodyItem c.items)
  few : page.rows.rows ≤ maxConcernPageRows
  within : page.rows.bytes.length ≤ maxConcernPageBytes
  named : ∀ c ∈ concerns, c.unnamed = false

variable {page : ConcernsPage} {concerns : List Concern} {c : Concern}

theorem new_carries : new.Carries [] := ⟨Packed.empty_holds, Nat.zero_le _, Nat.zero_le _, by simp⟩

theorem row_writes (hnamed : c.unnamed = false) (out : Bytes) : encodeBody c.encode concernMaxBytes = .ok out ↔
    out = (bodyItem c.items).spelling ∧ (bodyItem c.items).spelling.length ≤ concernMaxBytes := by
  rw [Concern.encode_ok, and_iff_right hnamed]

theorem row_legal (c : Concern) : (bodyItem c.items).Legal 6 := bodyItem_legal c.items_rising c.items_legal

theorem push_carries (h : page.Carries concerns) (hnamed : c.unnamed = false) (htook : (page.push c).1 = .ok true) :
    (page.push c).2.Carries (concerns ++ [c]) := by
  obtain ⟨hholds, hfew, hwithin⟩ := Packed.push_taken h.holds (row_legal c) (row_writes hnamed) htook
  refine ⟨?_, hfew, hwithin, ?_⟩
  · rw [List.map_append]
    exact hholds
  · intro d hd
    rcases List.mem_append.mp hd with hd | hd
    · exact h.named d hd
    · rw [List.mem_singleton.mp hd]
      exact hnamed

theorem push_left (h : page.Carries concerns) (hleft : (page.push c).1 ≠ .ok true) : (page.push c).2.Carries concerns := by
  have hsame : (page.push c).2.rows = page.rows := Packed.push_refused hleft
  refine ⟨?_, ?_, ?_, h.named⟩
  · rw [hsame]
    exact h.holds
  · rw [hsame]
    exact h.few
  · rw [hsame]
    exact h.within

theorem Carries.length (h : page.Carries concerns) : page.rows.rows = concerns.length := by
  rw [h.holds.rows, List.length_map]

end ConcernsPage

def listed (packed : List Item) : Option (List Item) := if packed = [] then none else some packed

def rowCalls (packed : List Item) : List Call :=
  .array (UInt64.ofNat packed.length) :: packed.map fun i => .raw i.spelling

theorem listed_some {packed rows : List Item} (h : listed packed = some rows) : rows = packed := by
  unfold listed at h
  split_ifs at h
  exact (Option.some.inj h).symm

theorem listed_length (packed : List Item) : ((listed packed).map List.length).getD 0 = packed.length := by
  cases packed <;> rfl

theorem listed_count (packed : List Item) : (listed packed).isSome.toNat = if packed.length > 0 then 1 else 0 := by
  cases packed <;> rfl

namespace ConcernsBody

variable {body : ConcernsBody} {packed : List Item}

def frontItems (body : ConcernsBody) : List (AnswerKey × Item) :=
  [(.rev, .ofNat body.rev.toNat), (.seq, .ofNat body.seq.toNat)]

def backItems (body : ConcernsBody) : List (AnswerKey × Item) :=
  [(.next, .ofNat body.shown.next.toNat), (.total, .ofNat body.total.toNat), (.refused, .ofNat body.refused.toNat),
    (.outcome, .ofNat body.outcome.number.toNat)]

def entries (body : ConcernsBody) (packed : List Item) : List (AnswerKey × List Call) :=
  body.front ++ (entryOf .rows (listed packed) rowCalls ++ body.back)

def items (body : ConcernsBody) (packed : List Item) : List (AnswerKey × Item) :=
  body.frontItems ++ (entryOf .rows (listed packed) .ofItems ++ body.backItems)

theorem items_rising : Rising (body.items packed) := by
  unfold items frontItems backItems
  cases listed packed <;> simp [Rising, BodyKey.number] <;> decide

theorem items_length : (body.items packed).length = 6 + (listed packed).isSome.toNat := by
  unfold items frontItems backItems
  cases listed packed <;> rfl

theorem entries_keys : (body.entries packed).map Prod.fst = (body.items packed).map Prod.fst := by
  unfold entries items front frontItems back backItems
  cases listed packed <;> rfl

theorem items_legal (hshort : packed.length < 256) (hlegal : ∀ i ∈ packed, i.Legal 6) :
    ∀ e ∈ body.items packed, e.2.Legal 7 := by
  have hrev := body.rev.toNat_lt
  have hseq := body.seq.toNat_lt
  have hnext := body.shown.next.toNat_lt
  have htotal := body.total.toNat_lt
  have hrefused := body.refused.toNat_lt
  have houtcome := body.outcome.number.toNat_lt
  unfold items frontItems backItems
  simp only [List.forall_mem_append, List.forall_mem_cons]
  refine ⟨⟨Item.ofNat_legal (by omega), Item.ofNat_legal (by omega), by simp⟩, ?_, Item.ofNat_legal (by omega),
    Item.ofNat_legal (by omega), Item.ofNat_legal (by omega), Item.ofNat_legal (by omega), by simp⟩
  intro e he
  obtain ⟨rows, hrows, rfl⟩ := entry_mem.mp he
  obtain rfl := listed_some hrows
  exact Item.ofItems_legal (hshort.trans (by decide)) hlegal

theorem spelled (hshort : packed.length < 256) (hlegal : ∀ i ∈ packed, i.Legal 6) :
    Spelled 7 (body.entries packed) (body.items packed) := by
  have hfront : Spelled 7 body.front body.frontItems := .cons ⟨rfl, writes_one rfl⟩ (.cons ⟨rfl, writes_one rfl⟩ .nil)
  have hback : Spelled 7 body.back body.backItems :=
    .cons ⟨rfl, writes_one rfl⟩ <| .cons ⟨rfl, writes_one rfl⟩ <| .cons ⟨rfl, writes_one rfl⟩ <|
      .cons ⟨rfl, writes_one rfl⟩ .nil
  have hrows : Spelled 7 (entryOf AnswerKey.rows (listed packed) rowCalls) (entryOf .rows (listed packed) .ofItems) := by
    apply Spelled.maybe
    intro rows hrows
    obtain rfl := listed_some hrows
    exact writes_spliced (UInt64.toNat_ofNat_of_lt' (hshort.trans (by decide))) hlegal
  exact List.rel_append hfront (List.rel_append hrows hback)

def pairs (packed : List Item) : UInt64 := if packed.length > 0 then 7 else 6

theorem items_count : (body.items packed).length = (pairs packed).toNat := by
  rw [items_length, listed_count]
  unfold pairs
  split_ifs <;> rfl

theorem write_tells (h : body.shown.rows.Holds 6 packed) (hshort : packed.length < 256) :
    Tells body.write (.map (pairs packed) :: entryCalls (body.entries packed)) := by
  have hcount : Tells (tell (CborWriter.map (if body.shown.rows.rows > 0 then 7 else 6)) : Encoder AnswerError Unit)
      [.map (pairs packed)] := by
    have hcall := Tells.call (ε := AnswerError) (.map (pairs packed))
    have hnumber : (pairs packed).toNat = if body.shown.rows.rows > 0 then 7 else 6 := by
      rw [h.rows]
      unfold pairs
      split_ifs <;> rfl
    rwa [Call.write, hnumber] at hcall
  have hrows : Tells (if body.shown.rows.rows > 0 then do
      tell (CborWriter.key 3)
      body.shown.rows.write
    else pure () : Encoder AnswerError Unit) (entryCalls (entryOf AnswerKey.rows (listed packed) rowCalls)) := by
    have hwrite := h.tells (ε := AnswerError) (by decide) (h.rows ▸ hshort.trans (by decide))
    rw [h.rows] at hwrite ⊢
    cases packed with
    | nil => exact .none
    | cons i rest =>
      have hkey := key_tells (ε := AnswerError) AnswerKey.rows
      have hpos : (i :: rest).length > 0 := Nat.succ_pos _
      rw [if_pos hpos]
      have hcalls : entryCalls (entryOf AnswerKey.rows (listed (i :: rest)) rowCalls) =
          [keyCall AnswerKey.rows] ++ rowCalls (i :: rest) := by
        simp [listed, entryCalls]
      rw [hcalls]
      exact hkey.append hwrite
  have hcalls : entryCalls (body.entries packed) = entryCalls body.front ++
      (entryCalls (entryOf AnswerKey.rows (listed packed) rowCalls) ++ entryCalls body.back) := by
    rw [entries, entryCalls_append, entryCalls_append]
  rw [hcalls]
  exact hcount.append ((writeEntries_tells _).append (hrows.append (writeEntries_tells _)))

def Written (body : ConcernsBody) : Prop := body.outcome ≠ .ok → ∀ page ∈ body.page, page.rows.rows = 0

theorem encode_checks {dst : ℕ} {out : Bytes} : body.encode dst = .ok out ↔ body.Written ∧
    encodeBody body.write dst = .ok out := by
  unfold encode
  constructor
  · intro h
    split_ifs at h with hheld
    refine ⟨?_, h⟩
    intro houtcome page hpage
    have hnot : body.answered = false := decide_eq_false houtcome
    rw [hnot, Bool.not_false, Bool.true_and] at hheld
    by_contra hrows
    apply hheld
    rw [hpage]
    exact bne_iff_ne.mpr hrows
  · rintro ⟨hwritten, h⟩
    rw [if_neg]
    · exact h
    · intro hheld
      obtain ⟨hnot, hheld⟩ := Bool.and_eq_true_iff.mp hheld
      have houtcome : body.outcome ≠ .ok := by simpa [answered] using hnot
      cases hpage : body.page with
      | none =>
        rw [hpage] at hheld
        cases hheld
      | some page =>
        rw [hpage] at hheld
        exact bne_iff_ne.mp hheld (hwritten houtcome page hpage)

theorem encode_ok (h : body.shown.rows.Holds 6 packed) (hshort : packed.length < 256) {dst : ℕ} {out : Bytes} :
    body.encode dst = .ok out ↔ body.Written ∧ out = (bodyItem (body.items packed)).spelling ∧
      (bodyItem (body.items packed)).spelling.length ≤ dst := by
  rw [encode_checks, encodeBody_item (write_tells h hshort)
    (bodyItem_writes (spelled hshort h.legal) items_rising items_count)]

def header (body : ConcernsBody) : ConcernsHeader :=
  ⟨body.rev, body.seq, body.shown.next, body.total, body.refused, body.outcome, body.shown.rows.rows⟩

theorem count_takes (hshort : packed.length < 256) : Takes ConcernsHeader.count (rowCalls packed) packed.length := by
  have harray := Takes.array (ε := AnswerError) (UInt64.ofNat packed.length)
  rw [UInt64.toNat_ofNat_of_lt' (hshort.trans (by decide))] at harray
  have hpassed := Takes.allPassed (ε := AnswerError) (packed.map Item.spelling)
  rw [List.length_map, List.map_map] at hpassed
  have hdone := hpassed.bind (k := fun _ => (pure packed.length : Read AnswerError ℕ)) (.pure packed.length)
  rw [List.append_nil] at hdone
  exact harray.bind hdone

def slots (body : ConcernsBody) (packed : List Item) : ConcernsHeader.table.Slots
  | .rev => some body.rev
  | .seq => some body.seq
  | .rows => (listed packed).map List.length
  | .next => some body.shown.next
  | .total => some body.total
  | .refused => some body.refused
  | .outcome => some body.outcome.number

theorem entries_take (hshort : packed.length < 256) : ∀ e ∈ body.entries packed,
    ∃ v, body.slots packed e.1 = some v ∧ Takes (ConcernsHeader.table.read e.1) e.2 v := by
  unfold entries front back
  simp only [List.forall_mem_append, List.forall_mem_cons]
  refine ⟨⟨⟨_, rfl, .u32 _⟩, ⟨_, rfl, .word _⟩, by simp⟩, ?_, ⟨_, rfl, .u16 _⟩, ⟨_, rfl, .u16 _⟩, ⟨_, rfl, .u16 _⟩,
    ⟨_, rfl, .u8 _⟩, by simp⟩
  intro e he
  obtain ⟨rows, hrows, rfl⟩ := entry_mem.mp he
  obtain rfl := listed_some hrows
  exact ⟨_, congrArg (Option.map List.length) hrows, count_takes hshort⟩

theorem slots_rest (k : AnswerKey) (hk : k ∉ (body.entries packed).map Prod.fst) : body.slots packed k = none := by
  rw [entries_keys] at hk
  unfold items frontItems backItems at hk
  cases k with
  | rows =>
    cases hrows : listed packed with
    | none => exact congrArg (Option.map List.length) hrows
    | some rows => simp [hrows] at hk
  | rev | seq | next | total | refused | outcome => simp at hk

theorem decode_slots (hwritten : body.Written) (h : body.shown.rows.Holds 6 packed) (hshort : packed.length < 256)
    (hfits : (bodyItem (body.items packed)).spelling.length < 2 ^ 64) :
    decodeBody ConcernsHeader.table.slots (bodyItem (body.items packed)).spelling = .ok (body.slots packed) := by
  have hkeys : ((body.entries packed).map Prod.fst).Nodup := by
    rw [entries_keys]
    exact items_rising.keys
  have hlen : (body.entries packed).length = (body.items packed).length := by
    have hboth := congrArg List.length (@entries_keys body packed)
    rwa [List.length_map, List.length_map] at hboth
  have hpairs := Table.pairs_take hkeys (entries_take hshort) slots_rest
  have hmap := Takes.map (ε := AnswerError) (pairs packed)
  rw [← @items_count body packed, ← hlen] at hmap
  have hslots : Takes ConcernsHeader.table.slots _ _ := hmap.bind hpairs
  have hencode := (encode_ok h hshort).mpr ⟨hwritten, rfl, Nat.le_refl _⟩
  obtain ⟨-, hencode⟩ := encode_checks.mp hencode
  obtain ⟨w, w', len, hwrite, hfinish, hout⟩ := (encodeBody_ok (write_tells h hshort)).mp hencode
  obtain ⟨r, hread, hend⟩ := hslots.run hfits hwrite hfinish
  rw [hout] at hread
  refine bind_ok.mpr ⟨_, hread, bind_ok.mpr ⟨(), ?_, rfl⟩⟩
  rw [hend]
  rfl

theorem shown_none (houtcome : body.outcome ≠ .ok) : body.shown = .new := by
  have hnot : body.answered = false := decide_eq_false houtcome
  unfold shown
  rw [hnot]
  cases body.page <;> rfl

theorem decode_items (hwritten : body.Written) (h : body.shown.rows.Holds 6 packed)
    (hfew : packed.length ≤ maxConcernPageRows)
    (hfits : (bodyItem (body.items packed)).spelling.length < 2 ^ 64) :
    ConcernsHeader.decode (bodyItem (body.items packed)).spelling = .ok body.header := by
  refine bind_ok.mpr ⟨_, decode_slots hwritten h (hfew.trans_lt (by decide)) hfits, ?_⟩
  have hrows : ((listed packed).map List.length).getD 0 = body.shown.rows.rows := by
    rw [listed_length, h.rows]
  have houtcome : slotRequired (AnswerError.unknownOutcome body.outcome.number)
      (ConcernsOutcome.of body.outcome.number) = .ok body.outcome := by
    rw [ConcernsOutcome.of_number]
    rfl
  have hanswered : ¬(body.outcome ≠ .ok ∧ (body.shown.next ≠ 0 ∨ body.shown.rows.rows > 0)) := by
    rintro ⟨hnot, hrest⟩
    rw [shown_none hnot] at hrest
    revert hrest
    decide
  have hcap : ¬body.shown.rows.rows > maxConcernPageRows := by
    rw [h.rows]
    exact Nat.not_lt.mpr hfew
  refine bind_ok.mpr ⟨_, rfl, bind_ok.mpr ⟨_, houtcome, bind_ok.mpr ⟨_, rfl, ?_⟩⟩⟩
  change (if body.outcome ≠ .ok ∧ (body.shown.next ≠ 0 ∨ ((listed packed).map List.length).getD 0 > 0) then _
    else if ((listed packed).map List.length).getD 0 > maxConcernPageRows then _ else _) = _
  rw [hrows, if_neg hanswered, if_neg hcap]
  refine bind_ok.mpr ⟨_, rfl, bind_ok.mpr ⟨_, rfl, bind_ok.mpr ⟨_, rfl, bind_ok.mpr ⟨_, rfl, ?_⟩⟩⟩⟩
  exact congrArg (fun rows => (Except.ok (ConcernsHeader.mk body.rev body.seq body.shown.next body.total body.refused
    body.outcome rows) : Except AnswerError ConcernsHeader)) hrows

end ConcernsBody

namespace ConcernRows

variable {body : ConcernsBody} {packed : List Item}

theorem decodes : table.Decodes fun _ i => some i.spelling :=
  Table.arms_decode fun _ => .kept .ok raw_checked fun _ => rfl

theorem rows_at (hlegal : (bodyItem (body.items packed)).Legal maxDepth) :
    valueAt (keyedPairs (body.items packed)) 3 = (listed packed).map .ofItems := by
  have hnumber : ∀ k : AnswerKey, (BodyKey.number k : ℤ) = 3 ↔ k = .rows := by
    intro k
    cases k <;> decide
  apply Option.ext
  intro i
  rw [keyedPairs_value hlegal.2.1, Option.map_eq_some_iff]
  simp only [hnumber]
  unfold ConcernsBody.items ConcernsBody.frontItems ConcernsBody.backItems
  simp only [List.mem_append, List.mem_cons, entry_mem, List.not_mem_nil, or_false]
  constructor
  · rintro ⟨e, he, hk, rfl⟩
    rcases he with (rfl | rfl) | ⟨rows, hrows, rfl⟩ | rfl | rfl | rfl | rfl <;>
      first | exact ⟨rows, hrows, rfl⟩ | cases hk
  · rintro ⟨rows, hrows, rfl⟩
    exact ⟨_, .inr (.inl ⟨rows, hrows, rfl⟩), rfl, rfl⟩

theorem of_items {concerns : List Concern} (hnamed : ∀ c ∈ concerns, c.unnamed = false) (hshort : concerns.length < 256)
    (hlegal : (bodyItem (body.items (concerns.map fun c => bodyItem c.items))).Legal maxDepth) :
    ∃ rows, of (bodyItem (body.items (concerns.map fun c => bodyItem c.items))).spelling = .ok rows ∧
      rows.all = .ok concerns := by
  have hbytes : decodeBody table.slots (bodyItem (body.items (concerns.map fun c => bodyItem c.items))).spelling =
      .ok fun _ => (listed (concerns.map fun c => bodyItem c.items)).map fun rows => (Item.ofItems rows).spelling := by
    apply (decodes.map hlegal).mpr
    refine ⟨keyedPairs_keyed _, ?_⟩
    rintro ⟨⟩
    have hvalue : valueAt (keyedPairs (body.items (concerns.map fun c => bodyItem c.items)))
        (BodyKey.number RowsKey.rows) = _ := rows_at hlegal
    unfold Table.SlotOf
    rw [hvalue]
    cases listed (concerns.map fun c => bodyItem c.items) with
    | none => rfl
    | some rows => exact ⟨rfl, rfl⟩
  cases concerns with
  | nil =>
    exact ⟨⟨.new [], 0⟩, bind_ok.mpr ⟨_, hbytes, rfl⟩, rfl⟩
  | cons c rest =>
    have hrows : List.Forall₂ (fun (i : Item) d => i.Legal 7 ∧ decodeRow i.spelling = .ok d)
        ((c :: rest).map fun c => bodyItem c.items) (c :: rest) := by
      rw [List.forall₂_map_left_iff, List.forall₂_same]
      intro d hd
      refine ⟨(ConcernsPage.row_legal d).mono (by decide), ?_⟩
      rw [decodeRow, Concern.decode_items (hnamed d hd)]
      rfl
    have hlength : ((c :: rest).map fun c => bodyItem c.items).length < 2 ^ 64 := by
      rw [List.length_map]
      exact hshort.trans (by decide)
    obtain ⟨reader, harray, hcollect⟩ := collect_array hlength hrows
    refine ⟨⟨reader, _⟩, bind_ok.mpr ⟨_, hbytes, ?_⟩, hcollect⟩
    have hask : (ask CborReader.array : Read AnswerError ℕ)
        (.new (Item.ofItems ((c :: rest).map fun c => bodyItem c.items)).spelling) =
          .ok (((c :: rest).map fun c => bodyItem c.items).length, reader) := by
      rw [ask, harray]
    exact bind_ok.mpr ⟨_, hask, rfl⟩

end ConcernRows

end Km43.Concerns
