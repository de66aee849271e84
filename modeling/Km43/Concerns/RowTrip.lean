import Km43.Cbor.Packed
import Km43.Concerns.Row

namespace Km43.Concerns

open Library Cbor CborReader CborWriter Readings

theorem newId_raw (id : Id) : newId id.raw = .ok id := dif_neg id.nonzero

theorem newElement_raw (place : ElementAt) : newElement place.raw = .ok place := by
  rw [newElement, dif_neg place.nonzero, dif_pos place.within]

theorem severity_byte (sev : Severity) : severity sev.byte = .ok sev := by cases sev <;> rfl

theorem concernState_byte (state : ConcernState) : concernState state.byte = .ok state := by cases state <;> rfl

namespace Concern

def item : ∀ k, Item → Option (table.Value k)
  | .cid | .dev | .sig => checkedItem u16Of newId
  | .cmp => u16Of
  | .elem => checkedItem u8Of newElement
  | .cond => fun i => (u16Of i).map Condition.mk
  | .sev => checkedItem u8Of severity
  | .state => checkedItem u8Of concernState
  | .age | .raw => u32Of
  | .since | .seq => u64Of
  | .vns => fun i => (u16Of i).map VendorNamespace.mk

theorem reads (k : ConcernKey) : Reads (fun _ => True) 7 (table.read k) (item k) := by
  cases k with
  | cid | dev | sig => exact checkedRead_reads (.u16 fun _ => trivial) _
  | cmp => exact .u16 fun _ => trivial
  | elem | sev | state => exact checkedRead_reads (.u8 fun _ => trivial) _
  | cond | vns => exact (Reads.u16 fun _ => trivial).mapped _
  | age | raw => exact .u32 fun _ => trivial
  | since | seq => exact word_reads

def cell (c : Concern) : ConcernKey → Option Item
  | .cid => some (.ofNat c.cid.raw.toNat)
  | .dev => some (.ofNat c.subject.whole.dev.raw.toNat)
  | .cmp => some (.ofNat c.subject.whole.cmp.toNat)
  | .sig => c.subject.sig.map fun sig => .ofNat sig.raw.toNat
  | .elem => c.subject.place.map fun place => .ofNat place.raw.toNat
  | .cond => some (.ofNat c.cond.raw.toNat)
  | .sev => some (.ofNat c.sev.byte.toNat)
  | .state => some (.ofNat c.state.byte.toNat)
  | .age => some (.ofNat c.age.toNat)
  | .since => c.since.map fun since => .ofNat since.toNat
  | .raw => c.code.map fun code => .ofNat code.raw.toNat
  | .vns => c.code.map fun code => .ofNat code.vns.raw.toNat
  | .seq => some (.ofNat c.seq.toNat)

def slots (c : Concern) : table.Slots
  | .cid => some c.cid
  | .dev => some c.subject.whole.dev
  | .cmp => some c.subject.whole.cmp
  | .sig => c.subject.sig
  | .elem => c.subject.place
  | .cond => some c.cond
  | .sev => some c.sev
  | .state => some c.state
  | .age => some c.age
  | .since => c.since
  | .raw => c.code.map VendorCode.raw
  | .vns => c.code.map VendorCode.vns
  | .seq => some c.seq

def width : ConcernKey → ℕ
  | .cid | .dev | .cmp | .sig | .cond | .vns => 4
  | .elem | .sev | .state => 2
  | .age | .raw => 6
  | .since | .seq => 10

variable (c : Concern)

theorem call_writes {d : ℕ} (k : ConcernKey) : Option.Rel (fun calls i => Writes d (writeAll calls) i)
    ((c.call k).map fun call => [call]) (c.cell k) := by
  have hone : ∀ {call : Call} {i : Item}, call.Spells d i → Option.Rel (fun calls i => Writes d (writeAll calls) i)
      (some [call]) (some i) := fun h => .some (writes_one h)
  cases k with
  | cid | dev | cmp | cond | sev | state | age | seq => exact hone rfl
  | sig =>
    rw [call, cell]
    cases c.subject.sig with
    | none => exact .none
    | some sig => exact hone rfl
  | elem =>
    rw [call, cell]
    cases c.subject.place with
    | none => exact .none
    | some place => exact hone rfl
  | since =>
    rw [call, cell]
    cases c.since with
    | none => exact .none
    | some since => exact hone rfl
  | raw | vns =>
    rw [call, cell]
    cases c.code with
    | none => exact .none
    | some code => exact hone rfl

theorem cell_number {k : ConcernKey} {i : Item} (h : c.cell k = some i) : ∃ n < 2 ^ 64, i = .ofNat n := by
  have hid : ∀ n : UInt16, ∃ m < 2 ^ 64, Item.ofNat n.toNat = .ofNat m :=
    fun n => ⟨_, by have := n.toNat_lt; omega, rfl⟩
  cases k with
  | cid | dev | cmp | cond =>
    cases h
    exact hid _
  | sev | state =>
    cases h
    exact ⟨_, (UInt8.toNat_lt _).trans (by decide), rfl⟩
  | age =>
    cases h
    exact ⟨_, (UInt32.toNat_lt _).trans (by decide), rfl⟩
  | seq =>
    cases h
    exact ⟨_, UInt64.toNat_lt _, rfl⟩
  | sig | vns =>
    obtain ⟨v, -, rfl⟩ := Option.map_eq_some_iff.mp h
    exact hid _
  | elem =>
    obtain ⟨v, -, rfl⟩ := Option.map_eq_some_iff.mp h
    exact ⟨_, (UInt8.toNat_lt _).trans (by decide), rfl⟩
  | raw =>
    obtain ⟨v, -, rfl⟩ := Option.map_eq_some_iff.mp h
    exact ⟨_, (UInt32.toNat_lt _).trans (by decide), rfl⟩
  | since =>
    obtain ⟨v, -, rfl⟩ := Option.map_eq_some_iff.mp h
    exact ⟨_, UInt64.toNat_lt _, rfl⟩

theorem cell_legal {d : ℕ} (k : ConcernKey) (i : Item) (h : c.cell k = some i) : i.Legal d := by
  obtain ⟨n, hn, rfl⟩ := c.cell_number h
  exact Item.ofNat_legal hn

theorem cell_length (k : ConcernKey) (i : Item) (h : c.cell k = some i) : 1 + i.spelling.length ≤ width k := by
  have hword : ∀ n : UInt16, 1 + (Item.ofNat n.toNat).spelling.length ≤ 4 := by
    intro n
    have := ofNat_length_u16 n
    omega
  have hfour : ∀ n : UInt32, 1 + (Item.ofNat n.toNat).spelling.length ≤ 6 := by
    intro n
    have := ofNat_length_u32 n
    omega
  have height : ∀ n : UInt64, 1 + (Item.ofNat n.toNat).spelling.length ≤ 10 := by
    intro n
    have := ofNat_length_u64 n
    omega
  have hsmall : ∀ n : UInt8, n.toNat < 24 → 1 + (Item.ofNat n.toNat).spelling.length ≤ 2 := by
    intro n hn
    have := ofNat_length_inline hn
    omega
  cases k with
  | cid | dev | cmp | cond =>
    cases h
    exact hword _
  | sev =>
    cases h
    exact hsmall _ (by cases c.sev <;> decide)
  | state =>
    cases h
    exact hsmall _ (by cases c.state <;> decide)
  | age =>
    cases h
    exact hfour _
  | seq =>
    cases h
    exact height _
  | sig | vns =>
    obtain ⟨v, -, rfl⟩ := Option.map_eq_some_iff.mp h
    exact hword _
  | elem =>
    obtain ⟨place, -, rfl⟩ := Option.map_eq_some_iff.mp h
    exact hsmall _ (place.within.trans_lt (by decide))
  | raw =>
    obtain ⟨v, -, rfl⟩ := Option.map_eq_some_iff.mp h
    exact hfour _
  | since =>
    obtain ⟨v, -, rfl⟩ := Option.map_eq_some_iff.mp h
    exact height _

theorem cell_taken (k : ConcernKey) : Table.CellOf item c.cell c.slots k := by
  unfold Table.CellOf
  cases k with
  | cid | dev => exact ⟨checkedItem_ok (u16Of_ofNat _) (newId_raw _), rfl⟩
  | cmp => exact ⟨u16Of_ofNat _, rfl⟩
  | sig =>
    rw [cell, slots]
    cases c.subject.sig with
    | none => rfl
    | some sig => exact ⟨checkedItem_ok (u16Of_ofNat _) (newId_raw _), rfl⟩
  | elem =>
    rw [cell, slots]
    cases c.subject.place with
    | none => rfl
    | some place => exact ⟨checkedItem_ok (u8Of_ofNat _) (newElement_raw _), rfl⟩
  | cond => exact ⟨congrArg (Option.map Condition.mk) (u16Of_ofNat _), rfl⟩
  | sev => exact ⟨checkedItem_ok (u8Of_ofNat _) (severity_byte _), rfl⟩
  | state => exact ⟨checkedItem_ok (u8Of_ofNat _) (concernState_byte _), rfl⟩
  | age => exact ⟨u32Of_ofNat _, rfl⟩
  | since =>
    rw [cell, slots]
    cases c.since with
    | none => rfl
    | some since => exact ⟨u64Of_ofNat _, rfl⟩
  | raw =>
    rw [cell, slots]
    cases c.code with
    | none => rfl
    | some code => exact ⟨u32Of_ofNat _, rfl⟩
  | vns =>
    rw [cell, slots]
    cases c.code with
    | none => rfl
    | some code => exact ⟨congrArg (Option.map VendorNamespace.mk) (u16Of_ofNat _), rfl⟩
  | seq => exact ⟨u64Of_ofNat _, rfl⟩

def items : List (ConcernKey × Item) := cells ConcernKey.all c.cell

theorem items_rising : Rising c.items := cells_rising ConcernKey.all_inOrder _

theorem items_legal {d : ℕ} : ∀ e ∈ c.items, e.2.Legal d := fun e he => c.cell_legal e.1 e.2 (cells_mem.mp he).2

theorem items_spelled {d : ℕ} : Spelled d c.entries c.items := cells_spelled c.call_writes _

theorem pairs_items : c.items.length = c.pairs := by
  unfold items pairs cells ConcernKey.all
  simp only [cell, List.filterMap_cons, Option.map_some, Option.map_map]
  cases c.subject <;> cases c.since <;> cases c.code <;> rfl

theorem items_count : c.items.length = (UInt64.ofNat c.pairs).toNat := by
  have hfew := c.items_rising.few
  rw [pairs_items] at hfew ⊢
  rw [UInt64.toNat_ofNat_of_lt' (hfew.trans_lt (by decide))]

theorem items_length : (bodyItem c.items).spelling.length ≤ concernMaxBytes := by
  have hall : ConcernKey.all.length < 24 := by decide
  have hnarrow : ∀ k : ConcernKey, BodyKey.number k < 24 := ConcernKey.narrow
  have hlen : (bodyItem c.items).spelling.length ≤ 1 + (ConcernKey.all.map width).sum :=
    cells_length hall hnarrow c.cell_length
  exact hlen.trans (by decide)

variable {c}

theorem encode_ok {dst : ℕ} {out : Bytes} : encodeBody c.encode dst = .ok out ↔
    c.unnamed = false ∧ out = (bodyItem c.items).spelling ∧ (bodyItem c.items).spelling.length ≤ dst := by
  unfold encode
  split_ifs with hunnamed
  · rw [hunnamed]
    constructor
    · intro h
      cases h
    · rintro ⟨h, -⟩
      cases h
  · rw [and_iff_right (eq_false_of_ne_true hunnamed)]
    exact encode_entries c.items_spelled c.items_rising c.items_count

theorem partOf_ok {cmp : Option UInt16} {dev : Option Id} {part : Part} :
    partOf cmp dev = .ok part ↔ cmp = some part.cmp ∧ dev = some part.dev := by
  simp only [partOf, bind_ok, slotRequired_ok]
  constructor
  · rintro ⟨cmp, rfl, dev, rfl, h⟩
    split_ifs at h with hzero
    · cases h
      exact ⟨congrArg some hzero, rfl⟩
    · obtain ⟨component, hid, ⟨⟩⟩ := bind_ok.mp h
      rw [newId, dif_neg hzero] at hid
      cases hid
      exact ⟨rfl, rfl⟩
  · rintro ⟨rfl, rfl⟩
    refine ⟨_, rfl, _, rfl, ?_⟩
    obtain ⟨dev, cmp⟩ := part
    by_cases hzero : cmp = 0
    · subst hzero
      rfl
    · rw [if_neg hzero, newId, dif_neg hzero]
      rfl

theorem subjectOf_ok {part : Part} {sig : Option Id} {place : Option ElementAt} {subject : Subject} :
    subjectOf part sig place = .ok subject ↔ subject.whole = part ∧ sig = subject.sig ∧ place = subject.place := by
  cases subject <;> cases sig <;> cases place <;> simp [subjectOf, Subject.whole, Subject.sig, Subject.place] <;> tauto

theorem codeOf_ok {code : Option UInt32} {vns : Option VendorNamespace} {named : Option VendorCode} :
    codeOf code vns = .ok named ↔ code = named.map VendorCode.raw ∧ vns = named.map VendorCode.vns := by
  cases code with
  | none =>
    cases vns <;> cases named <;> simp [codeOf]
  | some code =>
    cases vns with
    | none => cases named <;> simp [codeOf]
    | some vns =>
      cases named with
      | none => simp [codeOf]
      | some named =>
        obtain ⟨raw, vns'⟩ := named
        simp [codeOf]

theorem ofSlots_ok {s : table.Slots} : ofSlots s = .ok c ↔ c.unnamed = false ∧ s = c.slots := by
  constructor
  · intro h
    obtain ⟨part, hpart, h⟩ := bind_ok.mp h
    obtain ⟨hcmp, hdev⟩ := partOf_ok.mp hpart
    obtain ⟨subject, hsubject, h⟩ := bind_ok.mp h
    obtain ⟨hwhole, hsig, hplace⟩ := subjectOf_ok.mp hsubject
    obtain ⟨code, hcode, h⟩ := bind_ok.mp h
    obtain ⟨hraw, hvns⟩ := codeOf_ok.mp hcode
    obtain ⟨cond, hcond, h⟩ := bind_ok.mp h
    split_ifs at h with hunnamed
    obtain ⟨cid, hcid, h⟩ := bind_ok.mp h
    obtain ⟨sev, hsev, h⟩ := bind_ok.mp h
    obtain ⟨state, hstate, h⟩ := bind_ok.mp h
    obtain ⟨age, hage, h⟩ := bind_ok.mp h
    obtain ⟨seq, hseq, ⟨⟩⟩ := bind_ok.mp h
    subst hwhole
    refine ⟨eq_false_of_ne_true hunnamed, ?_⟩
    funext k
    cases k with
    | cmp => exact hcmp
    | dev => exact hdev
    | sig => exact hsig
    | elem => exact hplace
    | raw => exact hraw
    | vns => exact hvns
    | cond => exact slotRequired_ok.mp hcond
    | cid => exact slotRequired_ok.mp hcid
    | sev => exact slotRequired_ok.mp hsev
    | state => exact slotRequired_ok.mp hstate
    | age => exact slotRequired_ok.mp hage
    | seq => exact slotRequired_ok.mp hseq
    | since => rfl
  · rintro ⟨hnamed, rfl⟩
    have hpart : partOf (c.slots .cmp) (c.slots .dev) = .ok c.subject.whole := partOf_ok.mpr ⟨rfl, rfl⟩
    have hsubject : subjectOf c.subject.whole (c.slots .sig) (c.slots .elem) = .ok c.subject :=
      subjectOf_ok.mpr ⟨rfl, rfl, rfl⟩
    have hcode : codeOf (c.slots .raw) (c.slots .vns) = .ok c.code := codeOf_ok.mpr ⟨rfl, rfl⟩
    have hnot : ¬(c.code.isNone && c.cond.needsVendorCode) = true := ne_true_of_eq_false hnamed
    refine bind_ok.mpr ⟨_, hpart, bind_ok.mpr ⟨_, hsubject, bind_ok.mpr ⟨_, hcode, bind_ok.mpr ⟨c.cond, rfl, ?_⟩⟩⟩⟩
    rw [if_neg hnot]
    rfl

theorem decodes : table.Decodes item := Table.decodes reads

theorem decode_ok {payload : Bytes} : decode payload = .ok c ↔ c.unnamed = false ∧
    ∃ w ps, (Item.map w ps).Legal maxDepth ∧ (Item.map w ps).spelling = payload ∧ Keyed ps ∧
      ∀ k, Table.SlotOf item ps c.slots k := by
  rw [decode, Table.decode, bind_ok]
  simp only [ofSlots_ok, decodes payload]
  constructor
  · rintro ⟨_, h, hnamed, rfl⟩
    exact ⟨hnamed, h⟩
  · rintro ⟨hnamed, h⟩
    exact ⟨_, h, hnamed, rfl⟩

theorem decode_items (hnamed : c.unnamed = false) : decode (bodyItem c.items).spelling = .ok c := by
  have hslots := decodes.cells ConcernKey.all_inOrder (fun k i => c.cell_legal k i) c.cell_taken
  exact bind_ok.mpr ⟨_, hslots, ofSlots_ok.mpr ⟨hnamed, rfl⟩⟩

end Concern

end Km43.Concerns
