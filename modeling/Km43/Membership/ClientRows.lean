import Km43.Cbor.Carried
import Km43.Cbor.Cells
import Km43.Cbor.Strict
import Km43.Membership.Clients

namespace Km43.Membership

open Library Library.StepParser Identity Invite Cbor CborReader CborWriter Link

section

variable {κ : Type} [DecidableEq κ] [Listed κ] {Value : κ → Type} {codec : ∀ k, Codec ClientsError (Value k)}
  {twice : κ → ClientsError} {s : ∀ k, Option (Value k)}

theorem cellItems_writes (h : MaySend codec s) {count : UInt64} (hcount : (cellCalls codec s).length = count.toNat)
    (d : ℕ) : Writes (d + 1) (writeAll (.map count :: entryCalls (cellCalls codec s))) (bodyItem (cellItems codec s)) :=
  bodyItem_writes (cellItems_spelled h d) (cellItems_rising codec s) ((cells_count s).trans hcount)

def slotsOf (t : Table ClientsError κ) (item : ∀ k, Item → Option (t.Value k)) (i : Item) : Option t.Slots :=
  i.pairs?.bind fun pairs => foldPairs (Table.take item) pairs t.none

theorem slotsOf_reads (codec : ∀ k, Codec ClientsError (Value k)) (twice : κ → ClientsError) (d : ℕ) :
    Reads (fun _ => True) (d + 1) (Table.ofCodecs codec twice).slots
      (slotsOf (Table.ofCodecs codec twice) fun k => (codec k).item) :=
  Table.reads (fun _ => trivial) (fun k => (codec k).reads d) fun _ => trivial

theorem slotsOf_cells (h : MaySend codec s) :
    slotsOf (Table.ofCodecs codec twice) (fun k => (codec k).item) (bodyItem (cellItems codec s)) = some s :=
  cellItems_fold h

theorem slotsOf_shows {i : Item} {d : ℕ} (hi : i.Legal (d + 1))
    (h : slotsOf (Table.ofCodecs codec twice) (fun k => (codec k).item) i = some s) :
    ∃ w ps, i = .map w ps ∧ Keyed ps ∧ ∀ k, Shows ps (BodyKey.number k) (codec k).item (s k) := by
  obtain ⟨ps, hps, hfold⟩ := Option.bind_eq_some_iff.mp h
  cases i with
  | map w pairs =>
    obtain rfl := Option.some.inj hps
    obtain ⟨hkeyed, hslots⟩ := (Table.fold_slots (t := .ofCodecs codec twice) hi.2.1 s).mp hfold
    exact ⟨w, _, rfl, hkeyed, fun k => Table.slotOf_shows.mp (hslots k)⟩
  | unsigned | negative | bytes | text | array | bool => cases hps

end

def clientRowMaxBytes : ℕ := 52

def inviteRowMaxBytes : ℕ := 111

/-- What a row that its check lets through is on the wire, and how it is taken from there. -/
class RowLaws (R : Type) [Row R] where
  few : Row.max R < 24
  item : R → Item
  calls : R → List Call
  ofItem : Item → Option R
  Stands : Item → R → Prop
  width : ℕ
  tells : ∀ row : R, Row.check row = .ok () → Tells (Row.encodeInto row) (calls row)
  writes : ∀ (d : ℕ) (row : R), Row.check row = .ok () → Writes (d + 1) (writeAll (calls row)) (item row)
  legal : ∀ (d : ℕ) (row : R), Row.check row = .ok () → (item row).Legal (d + 1)
  reads : ∀ d, Reads (fun _ => True) (d + 1) (Row.decodeFrom : Read ClientsError R) ofItem
  strict : ∀ d, Strict (d + 1) (Row.decodeFrom : Read ClientsError R)
  stands : ∀ (d : ℕ) (i : Item) (row : R), i.Legal (d + 1) → ofItem i = some row → Stands i row
  back : ∀ row : R, Row.check row = .ok () → ofItem (item row) = some row
  length : ∀ row : R, Row.check row = .ok () → (item row).spelling.length ≤ width

theorem number_may (field : ClientsField) (value : NonZeroU32) : field.number.may value := by
  refine ⟨trivial, ?_⟩
  unfold ClientsField.nonZero
  rw [NonZeroU32.new_get]

theorem closed_may {α : Type} [Numbered α] (field : ClientsField) (value : α) : (field.closed : Codec _ α).may value :=
  Codec.closed_may _ value

theorem number_strict (field : ClientsField) (d : ℕ) : Strict d field.number.read := .bind Codec.u32_strict _

theorem closed_strict {α : Type} [Numbered α] (field : ClientsField) (d : ℕ) :
    Strict d (field.closed : Codec _ α).read := .bind Codec.u8_strict _

theorem fixed_strict (n : ℕ) (field : ClientsField) (d : ℕ) : Strict d (field.fixed n).read := .bind Codec.bytes_strict _

theorem number_length (field : ClientsField) (value : NonZeroU32) : (field.number.spell value).spelling.length ≤ 5 :=
  ofNat_length_u32 value.get

theorem closed_length {α : Type} [Numbered α] (field : ClientsField) (value : α) (h : (Numbered.byte value).toNat < 24) :
    ((field.closed : Codec _ α).spell value).spelling.length ≤ 1 := ofNat_length_inline h

theorem role_length (field : ClientsField) (role : Role) :
    ((field.closed : Codec _ Role).spell role).spelling.length ≤ 1 := by
  apply closed_length
  cases role <;> decide

theorem clientKind_length (field : ClientsField) (kind : ClientKind) :
    ((field.closed : Codec _ ClientKind).spell kind).spelling.length ≤ 1 := by
  apply closed_length
  cases kind <;> decide

theorem suite_length (field : ClientsField) (suite : Suite) :
    ((field.closed : Codec _ Suite).spell suite).spelling.length ≤ 1 := by
  apply closed_length
  cases suite
  decide

theorem text_length {label : Str} (h : label.raw.length ≤ maxLabel) : (Item.ofText label).spelling.length ≤ 34 := by
  unfold maxLabel at h
  have hhead := (headBytes_le .text (n := label.raw.length)).2.2.2.1 (by omega)
  have hlen : (Item.ofText label).spelling.length = (headBytes .text (Width.of label.raw.length) label.raw.length).length +
      label.raw.length := by
    rw [Item.ofText, Item.spelling, Token.spelling, List.length_append]
  omega

theorem fixed_length {n : ℕ} (field : ClientsField) (value : Vector UInt8 n) : ((field.fixed n).spell value).spelling.length =
    (headBytes .bytes (Width.of n) n).length + n := by
  have hlen : value.toList.length = n := value.length_toList
  change (Item.ofBytes value.toList).spelling.length = _
  rw [Item.ofBytes, Item.spelling, Token.spelling, List.length_append, hlen]

namespace ClientRow

def slots (row : ClientRow) : ∀ k, Option (ClientRowKey.Value k)
  | .clientId => some row.clientId
  | .generation => some row.generation
  | .role => some row.role
  | .clientKind => some row.clientKind
  | .label => some row.label

theorem check_ok {row : ClientRow} : row.check = .ok () ↔ row.label.raw.length ≤ maxLabel := by
  unfold check
  split_ifs with h
  · simp [h]
  · simpa using h

theorem ofSlots_ok {s : table.Slots} {row : ClientRow} : ofSlots s = .ok row ↔ s = row.slots ∧ row.check = .ok () := by
  simp only [ofSlots, bind_ok, slotRequired_ok]
  constructor
  · rintro ⟨clientId, h₁, generation, h₂, role, h₃, clientKind, h₄, label, h₅, ⟨⟩, hcheck, ⟨⟩⟩
    refine ⟨?_, hcheck⟩
    funext k
    cases k <;> assumption
  · rintro ⟨rfl, hcheck⟩
    exact ⟨_, rfl, _, rfl, _, rfl, _, rfl, _, rfl, (), hcheck, rfl⟩

def item (row : ClientRow) : Item := bodyItem (cellItems ClientRowKey.codec row.slots)

def calls (row : ClientRow) : List Call := .map 5 :: entryCalls (cellCalls ClientRowKey.codec row.slots)

def ofItem (i : Item) : Option ClientRow :=
  checkedItem (slotsOf table fun k => (ClientRowKey.codec k).item) ofSlots i

theorem maySend (row : ClientRow) (h : row.check = .ok ()) : MaySend ClientRowKey.codec row.slots := by
  intro k a ha
  cases k with
  | clientId | generation => exact number_may _ a
  | role => exact closed_may (α := Role) _ a
  | clientKind => exact closed_may (α := ClientKind) _ a
  | label =>
    obtain rfl := Option.some.inj ha
    exact (check_ok.mp h).trans (by decide)

theorem tells (row : ClientRow) (h : row.check = .ok ()) : Tells row.encodeInto row.calls := by
  refine .check h ?_
  exact .cons (c := .map 5) <| .cons (c := .key 1) <| .cons (c := .u64 row.clientId.get.toUInt64) <|
    .cons (c := .key 2) <| .cons (c := .u64 row.generation.get.toUInt64) <| .cons (c := .key 3) <|
    .cons (c := .u64 row.role.byte.toUInt64) <| .cons (c := .key 4) <|
    .cons (c := .u64 row.clientKind.byte.toUInt64) <| .cons (c := .key 5) <| .call (.text row.label)

theorem writes (d : ℕ) (row : ClientRow) (h : row.check = .ok ()) :
    Writes (d + 1) (writeAll row.calls) row.item := cellItems_writes (row.maySend h) rfl d

theorem legal (d : ℕ) (row : ClientRow) (h : row.check = .ok ()) : row.item.Legal (d + 1) :=
  bodyItem_legal (cellItems_rising _ _) (cellItems_legal (row.maySend h) d)

theorem reads (d : ℕ) : Reads (fun _ => True) (d + 1) decodeFrom ofItem :=
  checkedRead_reads (slotsOf_reads ClientRowKey.codec _ d) ofSlots

theorem strict (d : ℕ) : Strict (d + 1) decodeFrom := by
  refine .bind (Table.slots_strict (fun k => (ClientRowKey.codec k).reads d) ?_) ofSlots
  intro k
  cases k with
  | clientId | generation => exact number_strict _ d
  | role => exact closed_strict (α := Role) _ d
  | clientKind => exact closed_strict (α := ClientKind) _ d
  | label => exact Codec.text_strict

def Stands (i : Item) (row : ClientRow) : Prop :=
  ∃ w ps, i = .map w ps ∧ Keyed ps ∧ ∀ k, Shows ps (BodyKey.number k) (ClientRowKey.codec k).item (row.slots k)

theorem stands (d : ℕ) (i : Item) (row : ClientRow) (hi : i.Legal (d + 1)) (h : ofItem i = some row) : Stands i row := by
  obtain ⟨s, hs, hrow⟩ := Option.bind_eq_some_iff.mp h
  obtain ⟨rfl, -⟩ := ofSlots_ok.mp (toOption_some.mp hrow)
  exact slotsOf_shows hi hs

theorem back (row : ClientRow) (h : row.check = .ok ()) : ofItem row.item = some row :=
  checkedItem_ok (slotsOf_cells (row.maySend h)) (ofSlots_ok.mpr ⟨rfl, h⟩)

def width : ClientRowKey → ℕ
  | .clientId | .generation => 6
  | .role | .clientKind => 2
  | .label => 35

theorem cell_length (row : ClientRow) (h : row.check = .ok ()) (k : ClientRowKey) (i : Item)
    (hi : (row.slots k).map (ClientRowKey.codec k).spell = some i) : 1 + i.spelling.length ≤ width k := by
  obtain ⟨a, ha, rfl⟩ := Option.map_eq_some_iff.mp hi
  cases k with
  | clientId => exact Nat.add_le_add_left (number_length _ a) 1
  | generation => exact Nat.add_le_add_left (number_length _ a) 1
  | role => exact Nat.add_le_add_left (role_length _ a) 1
  | clientKind => exact Nat.add_le_add_left (clientKind_length _ a) 1
  | label =>
    obtain rfl := Option.some.inj ha
    exact Nat.add_le_add_left (text_length (check_ok.mp h)) 1

theorem length (row : ClientRow) (h : row.check = .ok ()) : row.item.spelling.length ≤ clientRowMaxBytes :=
  cells_length Listed.few Listed.small (row.cell_length h)

theorem max_few : Row.max ClientRow < 24 := by decide

instance : RowLaws ClientRow := ⟨max_few, item, calls, ofItem, Stands, clientRowMaxBytes, tells, writes, legal, reads, strict,
  stands, back, length⟩

end ClientRow

namespace InviteRow

def slots (row : InviteRow) : ∀ k, Option (InviteRowKey.Value k)
  | .nonce => some row.nonce
  | .role => some row.role
  | .invitee => some row.invitee
  | .inviter => some row.inviter
  | .inviterGeneration => some row.inviterGeneration
  | .clientKind => some row.clientKind
  | .label => some row.label
  | .expiresIn => some row.expiresIn
  | .suite => some row.suite

theorem check_ok {row : InviteRow} : row.check = .ok () ↔
    (1 ≤ row.label.raw.length ∧ row.label.raw.length ≤ maxLabel) ∧ row.expiresIn.toNat ≤ maxExpiresIn := by
  have hempty : row.label.raw = [] ↔ row.label.raw.length = 0 := List.length_eq_zero_iff.symm
  simp only [check, hempty]
  constructor
  · intro h
    split_ifs at h
    omega
  · rintro ⟨⟨hlow, hhigh⟩, hexpires⟩
    rw [if_neg (by omega), if_neg (by omega)]

theorem ofSlots_ok {s : table.Slots} {row : InviteRow} : ofSlots s = .ok row ↔ s = row.slots ∧ row.check = .ok () := by
  simp only [ofSlots, bind_ok, slotRequired_ok]
  constructor
  · rintro ⟨nonce, h₁, role, h₂, invitee, h₃, inviter, h₄, inviterGeneration, h₅, clientKind, h₆, label, h₇, expiresIn,
      h₈, suite, h₉, ⟨⟩, hcheck, ⟨⟩⟩
    refine ⟨?_, hcheck⟩
    funext k
    cases k <;> assumption
  · rintro ⟨rfl, hcheck⟩
    exact ⟨_, rfl, _, rfl, _, rfl, _, rfl, _, rfl, _, rfl, _, rfl, _, rfl, _, rfl, (), hcheck, rfl⟩

def item (row : InviteRow) : Item := bodyItem (cellItems InviteRowKey.codec row.slots)

def calls (row : InviteRow) : List Call := .map 9 :: entryCalls (cellCalls InviteRowKey.codec row.slots)

def ofItem (i : Item) : Option InviteRow :=
  checkedItem (slotsOf table fun k => (InviteRowKey.codec k).item) ofSlots i

theorem maySend (row : InviteRow) (h : row.check = .ok ()) : MaySend InviteRowKey.codec row.slots := by
  intro k a ha
  cases k with
  | nonce | invitee => exact Codec.fixed_may (by decide) _ a
  | role => exact closed_may (α := Role) _ a
  | inviter | inviterGeneration => exact number_may _ a
  | clientKind => exact closed_may (α := ClientKind) _ a
  | label =>
    obtain rfl := Option.some.inj ha
    exact (check_ok.mp h).1.2.trans (by decide)
  | expiresIn => trivial
  | suite => exact closed_may (α := Suite) _ a

theorem tells (row : InviteRow) (h : row.check = .ok ()) : Tells row.encodeInto row.calls := by
  refine .check h ?_
  exact .cons (c := .map 9) <| .cons (c := .key 1) <| .cons (c := .bytes row.nonce.toList) <| .cons (c := .key 2) <|
    .cons (c := .u64 row.role.byte.toUInt64) <| .cons (c := .key 3) <| .cons (c := .bytes row.invitee.toList) <|
    .cons (c := .key 4) <| .cons (c := .u64 row.inviter.get.toUInt64) <| .cons (c := .key 5) <|
    .cons (c := .u64 row.inviterGeneration.get.toUInt64) <| .cons (c := .key 6) <|
    .cons (c := .u64 row.clientKind.byte.toUInt64) <| .cons (c := .key 7) <| .cons (c := .text row.label) <|
    .cons (c := .key 8) <| .cons (c := .u64 row.expiresIn.toUInt64) <| .cons (c := .key 9) <|
    .call (.u64 row.suite.byte.toUInt64)

theorem writes (d : ℕ) (row : InviteRow) (h : row.check = .ok ()) :
    Writes (d + 1) (writeAll row.calls) row.item := cellItems_writes (row.maySend h) rfl d

theorem legal (d : ℕ) (row : InviteRow) (h : row.check = .ok ()) : row.item.Legal (d + 1) :=
  bodyItem_legal (cellItems_rising _ _) (cellItems_legal (row.maySend h) d)

theorem reads (d : ℕ) : Reads (fun _ => True) (d + 1) decodeFrom ofItem :=
  checkedRead_reads (slotsOf_reads InviteRowKey.codec _ d) ofSlots

theorem strict (d : ℕ) : Strict (d + 1) decodeFrom := by
  refine .bind (Table.slots_strict (fun k => (InviteRowKey.codec k).reads d) ?_) ofSlots
  intro k
  cases k with
  | nonce | invitee => exact fixed_strict _ _ d
  | role => exact closed_strict (α := Role) _ d
  | inviter | inviterGeneration => exact number_strict _ d
  | clientKind => exact closed_strict (α := ClientKind) _ d
  | label => exact Codec.text_strict
  | expiresIn => exact Codec.u32_strict
  | suite => exact closed_strict (α := Suite) _ d

def Stands (i : Item) (row : InviteRow) : Prop :=
  ∃ w ps, i = .map w ps ∧ Keyed ps ∧ ∀ k, Shows ps (BodyKey.number k) (InviteRowKey.codec k).item (row.slots k)

theorem stands (d : ℕ) (i : Item) (row : InviteRow) (hi : i.Legal (d + 1)) (h : ofItem i = some row) : Stands i row := by
  obtain ⟨s, hs, hrow⟩ := Option.bind_eq_some_iff.mp h
  obtain ⟨rfl, -⟩ := ofSlots_ok.mp (toOption_some.mp hrow)
  exact slotsOf_shows hi hs

theorem back (row : InviteRow) (h : row.check = .ok ()) : ofItem row.item = some row :=
  checkedItem_ok (slotsOf_cells (row.maySend h)) (ofSlots_ok.mpr ⟨rfl, h⟩)

def width : InviteRowKey → ℕ
  | .nonce => 18
  | .role | .clientKind | .suite => 2
  | .invitee | .label => 35
  | .inviter | .inviterGeneration => 6
  | .expiresIn => 4

theorem cell_length (row : InviteRow) (h : row.check = .ok ()) (k : InviteRowKey) (i : Item)
    (hi : (row.slots k).map (InviteRowKey.codec k).spell = some i) : 1 + i.spelling.length ≤ width k := by
  obtain ⟨a, ha, rfl⟩ := Option.map_eq_some_iff.mp hi
  obtain ⟨⟨-, hlabel⟩, hexpires⟩ := check_ok.mp h
  cases k with
  | nonce => exact Nat.add_le_add_left (fixed_length (n := 16) .nonce a).le 1
  | role => exact Nat.add_le_add_left (role_length _ a) 1
  | invitee => exact Nat.add_le_add_left (fixed_length (n := 32) .invitee a).le 1
  | inviter => exact Nat.add_le_add_left (number_length _ a) 1
  | inviterGeneration => exact Nat.add_le_add_left (number_length _ a) 1
  | clientKind => exact Nat.add_le_add_left (clientKind_length _ a) 1
  | label =>
    obtain rfl := Option.some.inj ha
    exact Nat.add_le_add_left (text_length hlabel) 1
  | expiresIn =>
    obtain rfl := Option.some.inj ha
    have hshort : row.expiresIn.toNat ≤ 0xFFFF := hexpires.trans (by decide)
    exact Nat.add_le_add_left ((headBytes_le .unsigned).2.2.1 hshort) 1
  | suite => exact Nat.add_le_add_left (suite_length _ a) 1

theorem length (row : InviteRow) (h : row.check = .ok ()) : row.item.spelling.length ≤ inviteRowMaxBytes :=
  cells_length Listed.few Listed.small (row.cell_length h)

theorem max_few : Row.max InviteRow < 24 := by decide

instance : RowLaws InviteRow := ⟨max_few, item, calls, ofItem, Stands, inviteRowMaxBytes, tells, writes, legal, reads, strict,
  stands, back, length⟩

end InviteRow

section

variable {R : Type} [Row R] {d : ℕ}

namespace RowIter

theorem walk_built (rows : List R) (read : CborReader) (header : Except CborError Unit) :
    walk rows.length ⟨rows, read, 0, header⟩ = rows.map .ok := by
  induction rows with
  | nil => rfl
  | cons row rows ih =>
    have hnext : next ⟨row :: rows, read, 0, header⟩ = some (.ok (row, ⟨rows, read, 0, header⟩)) := rfl
    simp only [List.length_cons, walk, hnext, ih, List.map_cons]

theorem next_read {read read' : CborReader} {left : ℕ} {row : R} (h : Row.decodeFrom read = .ok (row, read')) :
    next ⟨[], read, left + 1, .ok ()⟩ = some (.ok (row, ⟨[], read', left, .ok ()⟩)) := by
  simp only [next, h, Nat.add_one_ne_zero, if_false, Nat.add_sub_cancel]

theorem walk_read [RowLaws R] {rows : List R} (hfits : ∀ row ∈ rows, Row.check row = .ok ()) {r : CborReader}
    {level : Open} {base : List Open} (hat : AtItems (d + 1) rows.length r level base) {tail : Bytes}
    (hrest : r.rest = Item.spellAll (rows.map RowLaws.item) ++ tail) :
    walk rows.length ⟨[], r, rows.length, .ok ()⟩ = rows.map .ok := by
  induction rows generalizing r level with
  | nil => rfl
  | cons row rows ih =>
    obtain ⟨hrow, hrows⟩ := List.forall_mem_cons.mp hfits
    have hlegal : (RowLaws.item row).Legal (d + 1) := RowLaws.legal d row hrow
    rw [List.map_cons, Item.spellAll, List.append_assoc] at hrest
    obtain ⟨r', hok, hpast⟩ := (RowLaws.reads d).takes hat.ready hlegal hrest (RowLaws.back row hrow)
    have hstep := (itemStep_exact (d + 1)).read hlegal (Item.spellAll (rows.map RowLaws.item) ++ tail)
    rw [← hrest] at hstep
    obtain ⟨hat', hrest'⟩ := hat.next hstep hpast
    simp only [List.length_cons, walk, next_read hok, List.map_cons, ih hrows hat' hrest']

theorem walk_elements [RowLaws R] {elems : List Item} {rows : List R} {r : CborReader} {level : Open} {base : List Open}
    {tail : Bytes} (hlegal : ∀ e ∈ elems, e.Legal (d + 1)) (hat : AtItems (d + 1) elems.length r level base)
    (hrest : r.rest = Item.spellAll elems ++ tail)
    (hwalk : walk elems.length ⟨[], r, elems.length, .ok ()⟩ = rows.map .ok) : List.Forall₂ RowLaws.Stands elems rows := by
  induction elems generalizing rows r level with
  | nil =>
    obtain rfl := List.map_eq_nil_iff.mp hwalk.symm
    exact .nil
  | cons e elems ih =>
    obtain ⟨he, helems⟩ := List.forall_mem_cons.mp hlegal
    rw [Item.spellAll, List.append_assoc] at hrest
    have hstep := (itemStep_exact (d + 1)).read he (Item.spellAll elems ++ tail)
    rw [← hrest] at hstep
    cases hread : (Row.decodeFrom r : Except ClientsError (R × CborReader)) with
    | error why =>
      simp only [List.length_cons, walk, next, Nat.add_one_ne_zero, if_false, hread] at hwalk
      cases rows with
      | nil => cases hwalk
      | cons row rows => cases (List.cons.inj hwalk).1
    | ok p =>
      obtain ⟨row, r'⟩ := p
      simp only [List.length_cons, walk, next_read hread] at hwalk
      cases rows with
      | nil => cases hwalk
      | cons row' rows =>
        obtain ⟨hrow, hrows⟩ := List.cons.inj hwalk
        obtain rfl := Except.ok.inj hrow
        obtain ⟨hof, hpast⟩ := (RowLaws.reads d).took (RowLaws.strict d) hat.ready hstep hread
        obtain ⟨hat', hrest'⟩ := hat.next hstep hpast
        exact .cons (RowLaws.stands d e row he hof) (ih helems hat' hrest' hrows)

theorem next_left {it it' : RowIter R} {row : R} (h : it.next = some (.ok (row, it'))) :
    it'.built.length + it'.left + 1 = it.built.length + it.left := by
  obtain ⟨built, read, left, header⟩ := it
  cases built with
  | cons first rest =>
    cases h
    simp only [List.length_cons]
    omega
  | nil =>
    simp only [next] at h
    split_ifs at h with hleft
    cases header with
    | error why => cases h
    | ok u =>
      dsimp only at h
      split at h <;> cases h
      simp only
      omega

theorem walk_take (n m : ℕ) (it : RowIter R) : (it.walk (n + m)).take n = it.walk n := by
  induction n generalizing it with
  | zero => rfl
  | succ n ih =>
    rw [Nat.add_right_comm, walk, walk]
    cases hnext : it.next with
    | none => rfl
    | some item =>
      cases item with
      | error why => simp
      | ok p => simp only [List.take_succ_cons, ih]

theorem walk_length_le (n : ℕ) (it : RowIter R) : (it.walk n).length ≤ n := by
  have htake := walk_take n 0 it
  rw [Nat.add_zero] at htake
  rw [← htake]
  exact List.length_take_le _ _

theorem walk_enough {n : ℕ} {it : RowIter R} (h : it.built.length + it.left ≤ n) (m : ℕ) :
    walk (n + m) it = walk n it := by
  induction n generalizing it with
  | zero =>
    obtain ⟨built, read, left, header⟩ := it
    obtain ⟨hbuilt, hleft⟩ := Nat.add_eq_zero_iff.mp (Nat.le_zero.mp h)
    obtain rfl := List.length_eq_zero_iff.mp hbuilt
    obtain rfl := hleft
    cases m <;> rfl
  | succ n ih =>
    rw [Nat.add_right_comm, walk, walk]
    cases hnext : it.next with
    | none => rfl
    | some item =>
      cases item with
      | error why => rfl
      | ok p =>
        have hleft := next_left hnext
        have hrest := @ih p.2 (by omega)
        simp only [hrest]

end RowIter

namespace Rows

structure Sound (rows : List R) : Prop where
  few : rows.length ≤ Row.max R
  fits : ∀ row ∈ rows, Row.check row = .ok ()
  follow : rows.Pairwise fun earlier row => Row.follows row earlier = .ok ()

theorem followsAll_ok {row : R} {before : List R} :
    followsAll row (before.map .ok) = .ok () ↔ ∀ earlier ∈ before, Row.follows row earlier = .ok () := by
  induction before with
  | nil => simp [followsAll]
  | cons earlier before ih =>
    have hcons : followsAll row ((earlier :: before).map .ok) = .ok () ↔
        Row.follows row earlier = .ok () ∧ followsAll row (before.map .ok) = .ok () := seq_ok
    rw [hcons, ih, List.forall_mem_cons]

variable {list : Rows R} {all : List R}

theorem checkFrom_rows {index : ℕ} {found : List (Except ClientsError R)}
    (h : list.checkFrom index found = .ok ()) : ∃ rows : List R, found = rows.map .ok := by
  induction found generalizing index with
  | nil => exact ⟨[], rfl⟩
  | cons next rest ih =>
    cases next with
    | error why => cases h
    | ok row =>
      obtain ⟨row', hrow, h⟩ := bind_ok.mp h
      cases hrow
      obtain ⟨-, -, h⟩ := bind_ok.mp h
      obtain ⟨-, -, h⟩ := bind_ok.mp h
      obtain ⟨rows, rfl⟩ := ih h
      exact ⟨row :: rows, rfl⟩

theorem items_walk (h : list.items = all.map .ok) {n : ℕ} (hn : n ≤ all.length) :
    list.iter.walk n = (all.take n).map .ok := by
  have hlen : all.length ≤ list.len := by
    rw [← List.length_map (f := (Except.ok : R → Except ClientsError R)), ← h]
    exact RowIter.walk_length_le _ _
  obtain ⟨m, hm⟩ := Nat.exists_eq_add_of_le (hn.trans hlen)
  rw [← RowIter.walk_take n m, ← hm, List.map_take, ← h]
  rfl

theorem checkFrom_ok (h : list.items = all.map .ok) {before rest : List R} (hall : all = before ++ rest) :
    list.checkFrom before.length (rest.map .ok) = .ok () ↔ (∀ row ∈ rest, Row.check row = .ok ()) ∧
      (∀ row ∈ rest, ∀ earlier ∈ before, Row.follows row earlier = .ok ()) ∧
      rest.Pairwise fun earlier row => Row.follows row earlier = .ok () := by
  induction rest generalizing before with
  | nil => simp [checkFrom]
  | cons row rest ih =>
    have hwalk : list.iter.walk before.length = before.map .ok := by
      rw [items_walk h (by simp [hall]), hall, List.take_left']
      rfl
    have hcons : list.checkFrom before.length ((row :: rest).map .ok) = .ok () ↔ Row.check row = .ok () ∧
        followsAll row (list.iter.walk before.length) = .ok () ∧
          list.checkFrom (before.length + 1) (rest.map .ok) = .ok () := seq_ok.trans (and_congr_right fun _ => seq_ok)
    have hrest : list.checkFrom (before ++ [row]).length (rest.map .ok) = .ok () ↔ _ := ih (by simp [hall])
    rw [List.length_append, List.length_singleton] at hrest
    rw [hcons, hwalk, followsAll_ok, hrest]
    simp only [List.forall_mem_cons, List.pairwise_cons, List.forall_mem_append, List.mem_singleton, forall_eq]
    constructor
    · rintro ⟨hcheck, hfollows, hchecks, hall, hpair⟩
      exact ⟨⟨hcheck, hchecks⟩, ⟨hfollows, fun other hother => (hall other hother).1⟩,
        fun other hother => (hall other hother).2, hpair⟩
    · rintro ⟨⟨hcheck, hchecks⟩, ⟨hfollows, hbefore⟩, hrow, hpair⟩
      exact ⟨hcheck, hfollows, hchecks, fun other hother => ⟨hbefore other hother, hrow other hother⟩, hpair⟩

theorem check_items (h : list.items = all.map .ok) : list.check = .ok () ↔ list.len ≤ Row.max R ∧
    (∀ row ∈ all, Row.check row = .ok ()) ∧ all.Pairwise fun earlier row => Row.follows row earlier = .ok () := by
  have hfrom : list.checkFrom ([] : List R).length (all.map .ok) = .ok () ↔ _ := checkFrom_ok h rfl
  rw [List.length_nil] at hfrom
  unfold check
  rw [h]
  by_cases hmany : list.len > Row.max R
  · simp [hmany]
  · rw [if_neg hmany, hfrom]
    simp only [List.not_mem_nil, false_implies, implies_true, true_and]
    exact (and_iff_right (Nat.le_of_not_lt hmany)).symm

theorem check_sound (h : list.check = .ok ()) : ∃ rows : List R, list.items = rows.map .ok ∧ Sound rows := by
  have hrows : ∃ rows : List R, list.items = rows.map .ok := by
    unfold check at h
    split_ifs at h
    exact checkFrom_rows h
  obtain ⟨rows, hrows⟩ := hrows
  obtain ⟨hfew, hfits, hfollow⟩ := (check_items hrows).mp h
  refine ⟨rows, hrows, ?_, hfits, hfollow⟩
  have hlen := RowIter.walk_length_le list.len list.iter
  change list.items.length ≤ _ at hlen
  rw [hrows, List.length_map] at hlen
  exact hlen.trans hfew

theorem check_walk (h : list.check = .ok ()) (n : ℕ) : ∀ x ∈ list.iter.walk n, ∃ row, x = .ok row := by
  have hleft : list.iter.built.length + list.iter.left = list.len := by
    cases list with
    | built rows => rfl
    | read item count =>
      simp only [iter, len]
      cases CborReader.array (.new item) <;> simp
  obtain ⟨rows, hrows, -⟩ := check_sound h
  intro x hx
  rw [← RowIter.walk_take n list.len] at hx
  have hmem := List.mem_of_mem_take hx
  rw [Nat.add_comm, RowIter.walk_enough hleft.le] at hmem
  change x ∈ list.items at hmem
  rw [hrows] at hmem
  obtain ⟨row, -, rfl⟩ := List.mem_map.mp hmem
  exact ⟨row, rfl⟩

theorem items_built (rows : List R) : items (.built rows) = rows.map .ok := RowIter.walk_built rows _ _

theorem built_check {rows : List R} : check (.built rows) = .ok () ↔ Sound rows := by
  rw [check_items (items_built rows)]
  constructor
  · rintro ⟨hfew, hfits, hfollow⟩
    exact ⟨hfew, hfits, hfollow⟩
  · rintro ⟨hfew, hfits, hfollow⟩
    exact ⟨hfew, hfits, hfollow⟩

theorem ofArray_ok {item : Bytes} : ofArray item = .ok list ↔ ∃ count r, CborReader.array (.new item) = .ok (count, r) ∧
    count ≤ Row.max R ∧ list = .read item count ∧ list.check = .ok () := by
  constructor
  · intro h
    obtain ⟨⟨count, r⟩, harray, h⟩ := bind_ok.mp h
    dsimp only at h
    split_ifs at h with hfew
    obtain ⟨⟨⟩, hok, h⟩ := bind_ok.mp h
    cases h
    exact ⟨count, r, mapError_ok.mp harray, Nat.le_of_not_lt hfew, rfl, hok⟩
  · rintro ⟨count, r, harray, hfew, rfl, hok⟩
    refine bind_ok.mpr ⟨(count, r), mapError_ok.mpr harray, ?_⟩
    dsimp only
    rw [if_neg (Nat.not_lt.mpr hfew)]
    exact bind_ok.mpr ⟨(), hok, rfl⟩

theorem same_of_rows [DecidableEq R] {a b : Rows R} (hlen : a.len = b.len) {rows : List R}
    (ha : a.items = rows.map .ok) (hb : b.items = rows.map .ok) : same a b = true := by
  rw [same, ha, hb, decide_eq_true hlen, Bool.true_and, List.all_eq_true]
  intro p hp
  rw [List.zip_map', List.mem_map] at hp
  obtain ⟨row, -, rfl⟩ := hp
  simp

end Rows

end

end Km43.Membership
