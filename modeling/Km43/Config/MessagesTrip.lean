import Km43.Config.Messages

namespace Km43.Config

open Library Cbor CborReader CborWriter

def sectionOf : Item → Option ConfigSection := Allocated.itemOf

def outcomeOf (i : Item) : Option SetConfig := (u8Of i).bind Numbered.tryFrom

def sectionItem (i : Item) : Option ConfigSection :=
  checkedItem u16Of (Allocated.known ConfigMessageError.unknownSection) i

def outcomeItem : Item → Option SetConfig := checkedItem u8Of knownOutcome

theorem sectionItem_eq : sectionItem = sectionOf := by
  funext i
  exact Allocated.checked_itemOf _ i

theorem outcomeItem_eq : outcomeItem = outcomeOf := by
  funext i
  exact numbered_item _ i

theorem readSection_reads {d : ℕ} : Reads (fun _ => True) d readSection sectionItem :=
  checkedRead_reads (.u16 fun _ => trivial) _

theorem version_reads {d : ℕ} : Reads (fun _ : ConfigMessageError => True) d (ask u32) u32Of := .u32 fun _ => trivial

theorem outcome_reads {d : ℕ} : Reads (fun _ => True) d (checkedRead (ask u8) knownOutcome) outcomeItem :=
  checkedRead_reads (.u8 fun _ => trivial) _

theorem sectionOf_ofNat (s : ConfigSection) : sectionOf (.ofNat s.number.toNat) = some s := by
  rw [sectionOf, Allocated.itemOf, u16Of_ofNat, Option.bind_some]
  exact s.found

theorem outcomeOf_ofNat (o : SetConfig) : outcomeOf (.ofNat o.byte.toNat) = some o := by
  rw [outcomeOf, u8Of_ofNat, Option.bind_some]
  exact o.found

theorem section_back (s : ConfigSection) : sectionItem (.ofNat s.number.toNat) = some s := by
  rw [sectionItem_eq]
  exact sectionOf_ofNat s

theorem section_legal {d : ℕ} (s : ConfigSection) : (Item.ofNat s.number.toNat).Legal d :=
  Item.ofNat_legal (by have := s.number.toNat_lt; omega)

theorem version_legal {d : ℕ} (n : UInt32) : (Item.ofNat n.toNat).Legal d :=
  Item.ofNat_legal (by have := n.toNat_lt; omega)

namespace ConfigAnswer

def item : ∀ k, Item → Option (table.Value k)
  | .sectionId => sectionItem
  | .version => u32Of
  | .body => fun i => some i.spelling

theorem body_takes (i : Item) : item .body i = (.ok i.spelling : Except ConfigMessageError Bytes).toOption := rfl

def arms : ∀ k, table.Arm 7 item k
  | .sectionId => .typed readSection_reads
  | .version => .typed version_reads
  | .body => .kept .ok raw_checked body_takes

def slots (a : ConfigAnswer) : table.Slots
  | .sectionId => some a.sectionId
  | .version => some a.version
  | .body => a.body

theorem new_ok {sectionId : ConfigSection} {version : UInt32} {body : Option Bytes} {a : ConfigAnswer} :
    new sectionId version body = .ok a ↔ a.sectionId = sectionId ∧ a.version = version ∧ a.body = body := by
  unfold new
  split
  · rename_i hchecked
    rw [Except.ok.injEq]
    constructor
    · rintro rfl
      exact ⟨rfl, rfl, rfl⟩
    · obtain ⟨_, _, _, _⟩ := a
      rintro ⟨rfl, rfl, rfl⟩
      rfl
  · rename_i why hchecked
    refine iff_of_false (by simp) ?_
    rintro ⟨-, rfl, rfl⟩
    rw [a.checked] at hchecked
    cases hchecked

theorem ofSlots_ok {a : ConfigAnswer} (s : table.Slots) : ofSlots s = .ok a ↔ s = a.slots := by
  simp only [ofSlots, bind_ok, slotRequired_ok]
  constructor
  · rintro ⟨sectionId, h₁, version, h₂, h⟩
    obtain ⟨rfl, rfl, h₃⟩ := new_ok.mp h
    funext k
    cases k
    · exact h₁
    · exact h₂
    · exact h₃.symm
  · rintro rfl
    exact ⟨_, rfl, _, rfl, new_ok.mpr ⟨rfl, rfl, rfl⟩⟩

def Paired (ps : List (Key × Item)) (version : UInt32) (body : Option Bytes) : Prop :=
  (version = 0 ↔ body = none) ∧ body = (valueAt ps 3).map Item.spelling ∧ ∀ i, valueAt ps 3 = some i → i.pairs?.isSome

theorem checkAnswer_none {version : UInt32} : checkAnswer version none = .ok () ↔ version = 0 := by
  simp [checkAnswer]

theorem checkAnswer_some {version : UInt32} {body : Bytes} :
    checkAnswer version (some body) = .ok () ↔ version ≠ 0 ∧ aMap body = .ok () := by
  unfold checkAnswer
  by_cases h : version = 0 <;> simp [h]

theorem paired_iff {w : Width} {ps : List (Key × Item)} (hlegal : (Item.map w ps).Legal maxDepth) {version : UInt32}
    {body : Option Bytes} : Paired ps version body ↔
      checkAnswer version body = .ok () ∧ body = (valueAt ps 3).map Item.spelling := by
  unfold Paired
  cases hvalue : valueAt ps 3 with
  | none =>
    rw [Option.map_none]
    constructor
    · rintro ⟨hversion, rfl, -⟩
      exact ⟨checkAnswer_none.mpr (hversion.mpr rfl), rfl⟩
    · rintro ⟨hchecked, rfl⟩
      exact ⟨iff_of_true (checkAnswer_none.mp hchecked) rfl, rfl, by simp⟩
  | some i =>
    obtain ⟨k, -, hmem⟩ := valueAt_mem hvalue
    have hi : i.Legal maxDepth := (hlegal.2.2 _ hmem).2.mono (by decide)
    rw [Option.map_some]
    constructor
    · rintro ⟨hversion, rfl, hmap⟩
      refine ⟨checkAnswer_some.mpr ⟨by simpa using hversion, ?_⟩, rfl⟩
      exact (probeMap_item _ hi).mpr (hmap i rfl)
    · rintro ⟨hchecked, rfl⟩
      obtain ⟨hversion, hmap⟩ := checkAnswer_some.mp hchecked
      refine ⟨by simpa using hversion, rfl, ?_⟩
      rintro j ⟨⟩
      exact (probeMap_item _ hi).mp hmap

def Answers (payload : Bytes) (sectionId : ConfigSection) (version : UInt32) (body : Option Bytes) : Prop :=
  ∃ w ps, (Item.map w ps).Legal maxDepth ∧ (Item.map w ps).spelling = payload ∧ Keyed ps ∧
    Holds ps 1 sectionOf sectionId ∧ Holds ps 2 u32Of version ∧ Paired ps version body

theorem decode_exact (payload : Bytes) (sectionId : ConfigSection) (version : UInt32) (body : Option Bytes) :
    (∃ a, decode payload = .ok a ∧ a.sectionId = sectionId ∧ a.version = version ∧ a.body = body) ↔
      Answers payload sectionId version body := by
  have hslots : ∀ (a : ConfigAnswer) w ps, (Item.map w ps).Legal maxDepth → ((∀ k, Table.SlotOf item ps a.slots k) ↔
      Holds ps 1 sectionOf a.sectionId ∧ Holds ps 2 u32Of a.version ∧ Paired ps a.version a.body) := by
    intro a w ps hlegal
    have hbody : Table.SlotOf item ps a.slots .body ↔ a.body = (valueAt ps 3).map Item.spelling := by
      cases hvalue : valueAt ps 3 with
      | none => exact Table.slotOf_absent hvalue
      | some i =>
        rw [Table.slotOf_present hvalue]
        constructor
        · rintro ⟨h, -⟩
          exact h.symm
        · intro h
          refine ⟨h.symm, ?_⟩
          change a.body.isSome = true
          rw [h]
          rfl
    rw [AnswerKey.all_iff, Table.slotOf_holds rfl, Table.slotOf_holds rfl, hbody, paired_iff hlegal,
      and_iff_right a.checked, ← sectionItem_eq]
    rfl
  constructor
  · rintro ⟨a, hdecode, rfl, rfl, rfl⟩
    rw [decode, (Table.arms_decode arms).value ofSlots_ok] at hdecode
    exact (Table.stands_iff (hslots a)).mp hdecode
  · rintro ⟨w, ps, hlegal, hspell, hkeyed, hsection, hversion, hpaired⟩
    obtain ⟨hchecked, -⟩ := (paired_iff hlegal).mp hpaired
    refine ⟨⟨sectionId, version, body, hchecked⟩, ?_, rfl, rfl, rfl⟩
    rw [decode, (Table.arms_decode arms).value ofSlots_ok]
    exact (Table.stands_iff (hslots _)).mpr ⟨w, ps, hlegal, hspell, hkeyed, hsection, hversion, hpaired⟩

def items (a : ConfigAnswer) : List (AnswerKey × Item) :=
  [(.sectionId, .ofNat a.sectionId.number.toNat), (.version, .ofNat a.version.toNat)]

theorem items_rising (a : ConfigAnswer) (i : Item) : Rising (a.items ++ [(.body, i)]) := by
  simp [Rising, items, BodyKey.number, AnswerKey.key, ConfigMessageKey.number]

theorem items_alone (a : ConfigAnswer) : Rising a.items := (List.pairwise_append.mp (a.items_rising (.bool true))).1

theorem heads_spelled (a : ConfigAnswer) : Spelled 7 a.heads a.items :=
  .cons ⟨rfl, writes_one rfl⟩ <| .cons ⟨rfl, writes_one rfl⟩ .nil

theorem heads_taken (a : ConfigAnswer) : ∀ e ∈ a.items, item e.1 e.2 = a.slots e.1 ∧ (a.slots e.1).isSome := by
  simp only [items, List.forall_mem_cons]
  exact ⟨⟨section_back _, rfl⟩, ⟨u32Of_ofNat _, rfl⟩, by simp⟩

theorem heads_legal (a : ConfigAnswer) : ∀ e ∈ a.items, e.2.Legal 7 := by
  simp only [items, List.forall_mem_cons]
  exact ⟨section_legal _, version_legal _, by simp⟩

theorem encode_unwritten {a : ConfigAnswer} (hbody : a.body = none) {dst : ℕ} {out : Bytes} :
    a.encode dst = .ok out ↔ out = (bodyItem a.items).spelling ∧ (bodyItem a.items).spelling.length ≤ dst := by
  have hentries : a.entries = a.heads := by simp [entries, hbody]
  rw [encode, hentries, hbody]
  exact encode_entries a.heads_spelled a.items_alone rfl

theorem encode_written {a : ConfigAnswer} {body : Bytes} (hbody : a.body = some body) {dst : ℕ} {out : Bytes} :
    a.encode dst = .ok out ↔ ∃ i : Item, i.Legal 7 ∧ i.spelling = body ∧
      out = (bodyItem (a.items ++ [(.body, i)])).spelling ∧ (bodyItem (a.items ++ [(.body, i)])).spelling.length ≤ dst := by
  have hentries : a.entries = a.heads ++ [(.body, [.raw body])] := by simp [entries, hbody]
  rw [encode, hentries, hbody]
  exact encode_carried a.heads_spelled a.items_rising rfl

theorem decode_encode {a : ConfigAnswer} {dst : ℕ} {out : Bytes} (h : a.encode dst = .ok out) : decode out = .ok a := by
  have hdecodes := Table.arms_decode arms
  cases hbody : a.body with
  | none =>
    obtain ⟨rfl, -⟩ := (encode_unwritten hbody).mp h
    refine bind_ok.mpr ⟨a.slots, hdecodes.entries a.items_alone a.heads_legal a.heads_taken ?_, (ofSlots_ok _).mpr rfl⟩
    intro k hk
    cases k with
    | sectionId | version => simp [items] at hk
    | body => exact hbody
  | some body =>
    obtain ⟨i, hi, rfl, rfl, -⟩ := (encode_written hbody).mp h
    have hlegal : ∀ e ∈ a.items ++ [(.body, i)], e.2.Legal 7 :=
      List.forall_mem_append.mpr ⟨a.heads_legal, by simpa using hi⟩
    have hlast : item .body i = a.slots .body ∧ (a.slots .body).isSome := by
      have hslot : a.slots .body = some i.spelling := hbody
      exact ⟨hslot.symm, by rw [hslot]; rfl⟩
    have htaken : ∀ e ∈ a.items ++ [(.body, i)], item e.1 e.2 = a.slots e.1 ∧ (a.slots e.1).isSome :=
      List.forall_mem_append.mpr ⟨a.heads_taken, by simpa using hlast⟩
    refine bind_ok.mpr ⟨a.slots, hdecodes.entries (a.items_rising i) hlegal htaken ?_, (ofSlots_ok _).mpr rfl⟩
    intro k hk
    cases k <;> simp [items] at hk

def Whole (a : ConfigAnswer) : Prop :=
  ∃ size, ∀ dst, size ≤ dst → ∃ out, a.encode dst = .ok out ∧ decode out = .ok a

theorem whole_iff (a : ConfigAnswer) : a.Whole ↔ ∀ body, a.body = some body → Nests (maxDepth - 1) body := by
  constructor
  · rintro ⟨size, hwhole⟩ body hbody
    obtain ⟨out, hout, -⟩ := hwhole size le_rfl
    obtain ⟨i, hi, hspell, -⟩ := (encode_written hbody).mp hout
    exact ⟨i, hi, hspell⟩
  · intro hnests
    cases hbody : a.body with
    | none =>
      refine ⟨(bodyItem a.items).spelling.length, fun dst hdst => ?_⟩
      have hout := (encode_unwritten hbody).mpr ⟨rfl, hdst⟩
      exact ⟨_, hout, decode_encode hout⟩
    | some body =>
      obtain ⟨i, hi, hspell⟩ := hnests body hbody
      refine ⟨(bodyItem (a.items ++ [(.body, i)])).spelling.length, fun dst hdst => ?_⟩
      have hout := (encode_written hbody).mpr ⟨i, hi, hspell, rfl, hdst⟩
      exact ⟨_, hout, decode_encode hout⟩

end ConfigAnswer

namespace SetConfigOperation

def item : ∀ k, Item → Option (table.Value k)
  | .sectionId => sectionItem
  | .expectedVersion => u32Of
  | .body => keptItem ConfigMessageError.bodyNotAMap

theorem body_takes (i : Item) : item .body i = (keptMap ConfigMessageError.bodyNotAMap i.spelling).toOption := rfl

def arms : ∀ k, table.Arm 7 item k
  | .sectionId => .typed readSection_reads
  | .expectedVersion => .typed version_reads
  | .body => .kept (keptMap .bodyNotAMap) rfl body_takes

def slots (op : SetConfigOperation) : table.Slots
  | .sectionId => some op.sectionId
  | .expectedVersion => some op.expectedVersion
  | .body => some op.body

theorem ofSlots_ok {op : SetConfigOperation} (s : table.Slots) : ofSlots s = .ok op ↔ s = op.slots := by
  simp only [ofSlots, bind_ok, slotRequired_ok]
  constructor
  · rintro ⟨sectionId, h₁, version, h₂, body, h₃, ⟨⟩⟩
    funext k
    cases k <;> assumption
  · rintro rfl
    exact ⟨_, rfl, _, rfl, _, rfl, rfl⟩

def Orders (op : SetConfigOperation) (payload : Bytes) : Prop :=
  ∃ w ps, (Item.map w ps).Legal maxDepth ∧ (Item.map w ps).spelling = payload ∧ Keyed ps ∧
    Holds ps 1 sectionOf op.sectionId ∧ Holds ps 2 u32Of op.expectedVersion ∧ Holds ps 3 Item.mapBytes? op.body

theorem decode_exact (payload : Bytes) (op : SetConfigOperation) : decode payload = .ok op ↔ op.Orders payload := by
  rw [decode, (Table.arms_decode arms).value ofSlots_ok]
  apply Table.stands_iff
  intro w ps hlegal
  rw [SetKey.all_iff, Table.slotOf_holds rfl, Table.slotOf_holds rfl, Table.slotOf_holds rfl,
    ← holds_legal hlegal fun i hi => keptItem_legal _ hi, ← sectionItem_eq]
  rfl

def items (op : SetConfigOperation) : List (SetKey × Item) :=
  [(.sectionId, .ofNat op.sectionId.number.toNat), (.expectedVersion, .ofNat op.expectedVersion.toNat)]

theorem items_rising (op : SetConfigOperation) (i : Item) : Rising (op.items ++ [(.body, i)]) := by
  simp [Rising, items, BodyKey.number, SetKey.key, ConfigMessageKey.number]

theorem heads_spelled (op : SetConfigOperation) : Spelled 7 op.heads op.items :=
  .cons ⟨rfl, writes_one rfl⟩ <| .cons ⟨rfl, writes_one rfl⟩ .nil

theorem encode_ok {op : SetConfigOperation} {dst : ℕ} {out : Bytes} : op.encode dst = .ok out ↔
    ∃ i : Item, i.Legal 7 ∧ i.mapBytes? = some op.body ∧ out = (bodyItem (op.items ++ [(.body, i)])).spelling ∧
      (bodyItem (op.items ++ [(.body, i)])).spelling.length ≤ dst :=
  encode_keptMap op.heads_spelled op.items_rising rfl

theorem decode_encode {op : SetConfigOperation} {dst : ℕ} {out : Bytes} (h : op.encode dst = .ok out) :
    decode out = .ok op := by
  obtain ⟨i, hi, hbody, rfl, -⟩ := encode_ok.mp h
  refine bind_ok.mpr ⟨op.slots, (Table.arms_decode arms).entries (op.items_rising i) ?_ ?_ ?_, (ofSlots_ok _).mpr rfl⟩
  · simp only [items, List.forall_mem_append, List.forall_mem_cons]
    exact ⟨⟨section_legal _, version_legal _, by simp⟩, hi, by simp⟩
  · simp only [items, List.forall_mem_append, List.forall_mem_cons]
    rw [← keptItem_legal _ hi] at hbody
    exact ⟨⟨⟨section_back _, rfl⟩, ⟨u32Of_ofNat _, rfl⟩, by simp⟩, ⟨hbody, rfl⟩, by simp⟩
  · intro k hk
    cases k <;> simp [items] at hk

end SetConfigOperation

namespace SetConfigAck

def item : ∀ k, Item → Option (table.Value k)
  | .sectionId => sectionItem
  | .version => u32Of
  | .outcome => outcomeItem

theorem reads (k : SetAckKey) : Reads (fun _ => True) 7 (table.read k) (item k) := by
  cases k with
  | sectionId => exact readSection_reads
  | version => exact version_reads
  | outcome => exact outcome_reads

def slots (ack : SetConfigAck) : table.Slots
  | .sectionId => some ack.sectionId
  | .version => some ack.version
  | .outcome => some ack.outcome

theorem ofSlots_ok {ack : SetConfigAck} (s : table.Slots) : ofSlots s = .ok ack ↔ s = ack.slots := by
  simp only [ofSlots, bind_ok, slotRequired_ok]
  constructor
  · rintro ⟨sectionId, h₁, version, h₂, outcome, h₃, ⟨⟩⟩
    funext k
    cases k <;> assumption
  · rintro rfl
    exact ⟨_, rfl, _, rfl, _, rfl, rfl⟩

def Reports (ack : SetConfigAck) (payload : Bytes) : Prop :=
  ∃ w ps, (Item.map w ps).Legal maxDepth ∧ (Item.map w ps).spelling = payload ∧ Keyed ps ∧
    Holds ps 1 sectionOf ack.sectionId ∧ Holds ps 2 u32Of ack.version ∧ Holds ps 3 outcomeOf ack.outcome

theorem decode_exact (payload : Bytes) (ack : SetConfigAck) : decode payload = .ok ack ↔ ack.Reports payload := by
  rw [decode, (Table.decodes reads).value ofSlots_ok]
  apply Table.stands_iff
  intro w ps _
  rw [SetAckKey.all_iff, Table.slotOf_holds rfl, Table.slotOf_holds rfl, Table.slotOf_holds rfl, ← sectionItem_eq,
    ← outcomeItem_eq]
  rfl

def items (ack : SetConfigAck) : List (SetAckKey × Item) :=
  [(.sectionId, .ofNat ack.sectionId.number.toNat), (.version, .ofNat ack.version.toNat),
    (.outcome, .ofNat ack.outcome.byte.toNat)]

theorem items_rising (ack : SetConfigAck) : Rising ack.items := by
  simp [Rising, items, BodyKey.number, SetAckKey.key, ConfigMessageKey.number]

theorem encode_ok (ack : SetConfigAck) (dst : ℕ) (out : Bytes) : ack.encode dst = .ok out ↔
    True ∧ out = (bodyItem ack.items).spelling ∧ (bodyItem ack.items).spelling.length ≤ dst := by
  have hspelled : Spelled 7 ack.entries ack.items :=
    .cons ⟨rfl, writes_one rfl⟩ <| .cons ⟨rfl, writes_one rfl⟩ <| .cons ⟨rfl, writes_one rfl⟩ .nil
  rw [encode, encode_entries hspelled ack.items_rising rfl, true_and]

theorem carries (ack : SetConfigAck) (_ : True) : table.Carries 7 item ofSlots ack.items ack := by
  refine ⟨ack.items_rising, ?_, ack.slots, ?_, ?_, (ofSlots_ok _).mpr rfl⟩
  · simp only [items, List.forall_mem_cons]
    have houtcome := ack.outcome.byte.toNat_lt
    exact ⟨section_legal _, version_legal _, Item.ofNat_legal (by omega), by simp⟩
  · simp only [items, List.forall_mem_cons]
    refine ⟨⟨section_back _, rfl⟩, ⟨u32Of_ofNat _, rfl⟩, ⟨?_, rfl⟩, by simp⟩
    change outcomeItem _ = _
    rw [outcomeItem_eq]
    exact outcomeOf_ofNat _
  · intro k hk
    cases k <;> simp [items] at hk

theorem laws : BodyLaws (fun _ => True) encode decode table.Known := Table.laws (Table.decodes reads) encode_ok carries

end SetConfigAck

end Km43.Config
