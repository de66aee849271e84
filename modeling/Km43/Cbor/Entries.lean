import Km43.Cbor.Lookup

namespace Km43.Cbor

open Library Library.StepParser CborReader CborWriter

section

variable {ε κ : Type} [FromCbor ε] [BodyKey κ]

def keyCall (k : κ) : Call := .key (Int64.ofNat (BodyKey.number k))

def writeEntries (entries : List (κ × List Call)) : Encoder ε Unit :=
  entries.forM fun e => do
    tell (keyCall e.1).write
    e.2.forM fun c => tell c.write

def writeBody (count : UInt64) (entries : List (κ × List Call)) : Encoder ε Unit := do
  tell (Call.map count).write
  writeEntries entries

def entryCalls (entries : List (κ × List Call)) : List Call := entries.flatMap fun e => keyCall e.1 :: e.2

theorem calls_tell (calls : List Call) : Tells (calls.forM fun c => (tell c.write : Encoder ε Unit)) calls := by
  have h : Tells (calls.forM fun c => (tell c.write : Encoder ε Unit)) (calls.flatMap fun c => [c]) :=
    .forM (fun c => .call c) calls
  rwa [List.flatMap_singleton'] at h

theorem writeEntries_tells (entries : List (κ × List Call)) :
    Tells (writeEntries entries : Encoder ε Unit) (entryCalls entries) := by
  apply Tells.forM
  intro e
  exact .cons (calls_tell e.2)

theorem writeBody_tells (count : UInt64) (entries : List (κ × List Call)) :
    Tells (writeBody count entries : Encoder ε Unit) (.map count :: entryCalls entries) :=
  .cons (writeEntries_tells entries)

end

section

variable {κ : Type} [BodyKey κ] {d : ℕ} {entries : List (κ × List Call)} {items : List (κ × Item)}

def keyedPairs (items : List (κ × Item)) : List (Key × Item) :=
  items.map fun e => (Key.ofNat (BodyKey.number e.1), e.2)

def Spelled (d : ℕ) (entries : List (κ × List Call)) (items : List (κ × Item)) : Prop :=
  List.Forall₂ (fun e f => e.1 = f.1 ∧ Writes d (writeAll e.2) f.2) entries items

def Rising (items : List (κ × Item)) : Prop := items.Pairwise fun e f => BodyKey.number e.1 < BodyKey.number f.1

theorem keyCall_toInt (k : κ) : (Int64.ofNat (BodyKey.number k)).toInt = BodyKey.number k := by
  have hsmall := BodyKey.small k
  exact Int64.toInt_ofNat_of_lt (by omega)

theorem Spelled.pairs (h : Spelled d entries items) :
    WritesPairs d (writeAll (entryCalls entries)) (keyedPairs items) := by
  induction h with
  | nil => exact .nil
  | @cons e f entries items hef _ ih =>
    obtain ⟨k, calls⟩ := e
    obtain ⟨k', i⟩ := f
    obtain ⟨rfl, hwrites⟩ := hef
    have hpos : 0 ≤ (Int64.ofNat (BodyKey.number k)).toInt := by
      rw [keyCall_toInt]
      exact Int.natCast_nonneg _
    have hpair := WritesPairs.keyed hpos hwrites
    rw [keyCall_toInt, Int.toNat_natCast] at hpair
    exact hpair.both ih

theorem rising_ascends {α : Type} {number : α → ℕ} {value : α → Item} {xs : List α}
    (h : xs.Pairwise fun a b => number a < number b) : Ascends none (xs.map fun a => (Key.ofNat (number a), value a)) := by
  have hfrom : ∀ (xs : List α) (last : Option KeyRank), xs.Pairwise (fun a b => number a < number b) →
      (∀ g, last = some g → ∀ a ∈ xs, (Key.ofNat (number a)).rank.le g = false) →
      Ascends last (xs.map fun a => (Key.ofNat (number a), value a)) := by
    intro xs
    induction xs with
    | nil =>
      intro last _ _
      trivial
    | cons a xs ih =>
      intro last hrise habove
      obtain ⟨ha, hrest⟩ := List.pairwise_cons.mp hrise
      refine ⟨fun g hg => habove g hg a (List.mem_cons_self ..), ih _ hrest ?_⟩
      rintro g hg b hb
      obtain rfl := Option.some.inj hg
      have hlt := ha b hb
      simp only [Key.ofNat_rank, KeyRank.le]
      exact decide_eq_false (by omega)
  exact hfrom xs none h (by simp)

theorem Rising.ascends (h : Rising items) : Ascends none (keyedPairs items) := rising_ascends h

theorem Rising.keys (h : Rising items) : (items.map Prod.fst).Nodup := by
  rw [List.Nodup, List.pairwise_map]
  apply h.imp
  intro e f hlt heq
  rw [heq] at hlt
  exact lt_irrefl _ hlt

theorem Rising.few (h : Rising items) : items.length ≤ 256 := by
  have hnodup : (items.map fun e => BodyKey.number e.1).Nodup := by
    rw [List.Nodup, List.pairwise_map]
    exact h.imp fun hlt => hlt.ne
  have hsub : (items.map fun e => BodyKey.number e.1) ⊆ List.range 256 := by
    intro n hn
    obtain ⟨e, -, rfl⟩ := List.mem_map.mp hn
    exact List.mem_range.mpr (BodyKey.small e.1)
  have hlen := (List.subperm_of_subset hnodup hsub).length_le
  simpa using hlen

def bodyItem (items : List (κ × Item)) : Item := .ofPairs (keyedPairs items)

theorem bodyItem_legal (hrise : Rising items) (hlegal : ∀ e ∈ items, e.2.Legal d) : (bodyItem items).Legal (d + 1) := by
  have hfew := hrise.few
  refine Item.ofPairs_legal ?_ hrise.ascends ?_
  · rw [keyedPairs, List.length_map]
    omega
  · intro p hp
    obtain ⟨e, he, rfl⟩ := List.mem_map.mp hp
    have hsmall := BodyKey.small e.1
    exact ⟨Key.ofNat_legal (by omega), hlegal e he⟩

theorem bodyItem_writes (h : Spelled d entries items) (hrise : Rising items) {count : UInt64}
    (hcount : items.length = count.toNat) :
    Writes (d + 1) (writeAll (.map count :: entryCalls entries)) (bodyItem items) := by
  refine writes_mapCalls h.pairs ?_ hrise.ascends
  rw [keyedPairs, List.length_map]
  exact hcount

end

theorem encode_entries {ε κ : Type} [FromCbor ε] [BodyKey κ] {entries : List (κ × List Call)} {items : List (κ × Item)}
    (h : Spelled 7 entries items) (hrise : Rising items) {count : UInt64} (hcount : items.length = count.toNat)
    {dst : ℕ} {out : Bytes} : encodeBody (writeBody count entries : Encoder ε Unit) dst = .ok out ↔
      out = (bodyItem items).spelling ∧ (bodyItem items).spelling.length ≤ dst :=
  encodeBody_item (writeBody_tells count entries) (bodyItem_writes h hrise hcount)

theorem repeated_spelling {d : ℕ} {w : Width} {ps : List (Key × Item)} (hw : w.Holds ps.length)
    (hlegal : LegalPairs d ps) (hrepeated : ¬(ranks ps).Nodup) {i : Item} (hi : i.Legal (d + 1)) :
    i.spelling ≠ (Item.map w ps).spelling := by
  intro hspell
  have hread := (itemStep_exact (d + 1)).read hi []
  have htoken := tokenStep_exact.read (x := .map w ps.length) hw (Item.spellPairs ps)
  rw [List.append_nil, hspell] at hread
  change itemWith (some (itemStep d)) (Item.map w ps).spelling = _ at hread
  rw [Item.spelling, itemWith, htoken] at hread
  simp only [Option.bind_some, Option.map_eq_some_iff, Prod.exists, Prod.mk.injEq] at hread
  obtain ⟨qs, tail, hqs, rfl, rfl⟩ := hread
  obtain ⟨⟨hlen, hall, hfresh, -⟩, hspelled⟩ :=
    (manyFresh_exact _ (pair_exact keyStep_exact (itemStep_exact d)) [] ps.length _ _ _).mp hqs
  have hmany := many_exact (pair_exact keyStep_exact (itemStep_exact d)) ps.length
  have hps := hmany.read (x := ps) ⟨rfl, hlegal⟩ []
  have hqs' := hmany.read (x := qs) ⟨hlen, hall⟩ []
  rw [← hspelled, Item.spellPairs_eq] at hqs'
  rw [List.append_nil] at hps
  have heq := hps.symm.trans hqs'
  simp only [Option.some.injEq, Prod.mk.injEq, and_true] at heq
  rw [← heq] at hfresh
  exact hrepeated hfresh

namespace Table

variable {ε κ : Type} [DecidableEq κ] [BodyKey κ] [FromCbor ε] {t : Table ε κ} {item : ∀ k, Item → Option (t.Value k)}

/-- A body is decoded exactly of a map whose known keys carry what their arms take. -/
def Decodes (t : Table ε κ) (item : ∀ k, Item → Option (t.Value k)) : Prop :=
  ∀ payload s, decodeBody t.slots payload = .ok s ↔ ∃ w ps, (Item.map w ps).Legal maxDepth ∧
    (Item.map w ps).spelling = payload ∧ Keyed ps ∧ ∀ k, SlotOf item ps s k

theorem slots_reads (hreads : ∀ k, Reads (fun _ => True) 7 (t.read k) (item k)) :
    Reads (fun _ => True) maxDepth t.slots fun i => i.pairs?.bind fun ps => foldPairs (take item) ps t.none :=
  Table.reads (fun _ => trivial) hreads fun _ => trivial

theorem decodes_of (hslots : Reads (fun _ => True) maxDepth t.slots
    fun i => i.pairs?.bind fun ps => foldPairs (take item) ps t.none) : t.Decodes item := by
  intro payload s
  rw [decodeBody_ok hslots]
  constructor
  · rintro ⟨i, hi, rfl, hs⟩
    obtain ⟨ps, hps, hfold⟩ := Option.bind_eq_some_iff.mp hs
    cases i with
    | map w pairs =>
      obtain rfl := Option.some.inj hps
      exact ⟨w, pairs, hi, rfl, (fold_slots hi.2.1 s).mp hfold⟩
    | unsigned | negative | bytes | text | array | bool => cases hps
  · rintro ⟨w, ps, hi, rfl, hslots⟩
    exact ⟨_, hi, rfl, (fold_slots hi.2.1 s).mpr hslots⟩

theorem decodes (hreads : ∀ k, Reads (fun _ => True) 7 (t.read k) (item k)) : t.Decodes item :=
  decodes_of (slots_reads hreads)

namespace Decodes

variable (h : t.Decodes item)

include h

theorem map {w : Width} {ps : List (Key × Item)} (hlegal : (Item.map w ps).Legal maxDepth) {s : t.Slots} :
    decodeBody t.slots (Item.map w ps).spelling = .ok s ↔ Keyed ps ∧ ∀ k, SlotOf item ps s k := by
  rw [h]
  constructor
  · rintro ⟨w', qs, hi, hspell, hslots⟩
    obtain ⟨rfl, rfl⟩ := Item.map.inj (Item.spelling_inj hi hlegal hspell)
    exact hslots
  · intro hslots
    exact ⟨w, ps, hlegal, rfl, hslots⟩

theorem order {w w' : Width} {ps qs extra : List (Key × Item)} (hqs : qs.Perm (ps ++ extra))
    (hextra : Unread t.Known extra) (hlegal : (Item.map w ps).Legal maxDepth)
    (hlegal' : (Item.map w' qs).Legal maxDepth) (s : t.Slots) :
    decodeBody t.slots (Item.map w ps).spelling = .ok s ↔ decodeBody t.slots (Item.map w' qs).spelling = .ok s := by
  have hvalue : ∀ k : κ, valueAt qs (BodyKey.number k) = valueAt ps (BodyKey.number k) :=
    fun k => valueAt_known hqs hlegal'.2.1 hextra ⟨k, rfl⟩
  rw [h.map hlegal, h.map hlegal', keyed_known hqs hextra]
  simp only [SlotOf, hvalue]

theorem entries {items : List (κ × Item)} (hrise : Rising items) (hlegal : ∀ e ∈ items, e.2.Legal 7) {s : t.Slots}
    (hvalue : ∀ e ∈ items, item e.1 e.2 = s e.1 ∧ (s e.1).isSome) (hrest : ∀ k, k ∉ items.map Prod.fst → s k = .none) :
    decodeBody t.slots (bodyItem items).spelling = .ok s := by
  have hbody := bodyItem_legal hrise hlegal
  exact (h.map hbody).mpr ((fold_slots hbody.2.1 s).mp (fold_entries hrise.keys hvalue hrest))

theorem once {w : Width} {ps : List (Key × Item)} (hw : w.Holds ps.length) (hlegal : LegalPairs 7 ps)
    (hrepeated : ¬(ranks ps).Nodup) : ∃ why, decodeBody t.slots (Item.map w ps).spelling = .error why := by
  cases hdecode : decodeBody t.slots (Item.map w ps).spelling with
  | error why => exact ⟨why, rfl⟩
  | ok s =>
    obtain ⟨w', qs, hi, hspell, -⟩ := (h _ s).mp hdecode
    exact absurd hspell (repeated_spelling hw hlegal hrepeated hi)

end Decodes

end Table

structure BodyLaws {ε β : Type} (valid : β → Prop) (encode : β → ℕ → Except ε Bytes) (decode : Bytes → Except ε β)
    (known : ℤ → Prop) : Prop where
  encodes : ∀ v, valid v → ∃ size, ∀ dst, size ≤ dst → ∃ out, encode v dst = .ok out
  trip : ∀ v dst out, encode v dst = .ok out → decode out = .ok v
  order : ∀ (w w' : Width) (ps qs extra : List (Key × Item)), qs.Perm (ps ++ extra) → Unread known extra →
    (Item.map w ps).Legal maxDepth → (Item.map w' qs).Legal maxDepth →
      ∀ v, decode (Item.map w ps).spelling = .ok v ↔ decode (Item.map w' qs).spelling = .ok v
  once : ∀ (w : Width) (ps : List (Key × Item)), w.Holds ps.length → LegalPairs 7 ps → ¬(ranks ps).Nodup →
    ∃ why, decode (Item.map w ps).spelling = .error why

/-- A value's side of a table: the items its keys are written as, and the slots they fill again. -/
structure Table.Carries {ε κ β : Type} [DecidableEq κ] [BodyKey κ] (t : Table ε κ) (d : ℕ)
    (item : ∀ k, Item → Option (t.Value k)) (judge : t.Slots → Except ε β) (items : List (κ × Item)) (v : β) : Prop where
  rising : Rising items
  legal : ∀ e ∈ items, e.2.Legal d
  taken : ∃ s : t.Slots, (∀ e ∈ items, item e.1 e.2 = s e.1 ∧ (s e.1).isSome) ∧
    (∀ k, k ∉ items.map Prod.fst → s k = .none) ∧ judge s = .ok v

theorem Table.laws {ε κ β : Type} [DecidableEq κ] [BodyKey κ] [FromCbor ε] {t : Table ε κ}
    {item : ∀ k, Item → Option (t.Value k)} (hdecodes : t.Decodes item) {judge : t.Slots → Except ε β}
    {encode : β → ℕ → Except ε Bytes} {valid : β → Prop} {items : β → List (κ × Item)}
    (hencode : ∀ v dst out, encode v dst = .ok out ↔
      valid v ∧ out = (bodyItem (items v)).spelling ∧ (bodyItem (items v)).spelling.length ≤ dst)
    (hcarries : ∀ v, valid v → t.Carries 7 item judge (items v) v) :
    BodyLaws valid encode (t.decode judge) t.Known := by
  refine ⟨?_, ?_, ?_, ?_⟩
  · intro v hv
    exact ⟨(bodyItem (items v)).spelling.length, fun dst hdst => ⟨_, (hencode v dst _).mpr ⟨hv, rfl, hdst⟩⟩⟩
  · intro v dst out hout
    obtain ⟨hv, rfl, -⟩ := (hencode v dst out).mp hout
    obtain ⟨hrise, hlegal, s, hvalue, hrest, hjudge⟩ := hcarries v hv
    exact bind_ok.mpr ⟨s, hdecodes.entries hrise hlegal hvalue hrest, hjudge⟩
  · intro w w' ps qs extra hqs hextra hlegal hlegal' v
    rw [Table.decode, Table.decode, bind_ok, bind_ok]
    exact exists_congr fun s => and_congr_left fun _ => hdecodes.order hqs hextra hlegal hlegal' s
  · intro w ps hw hlegal hrepeated
    obtain ⟨why, herror⟩ := hdecodes.once hw hlegal hrepeated
    exact ⟨why, bind_error.mpr (.inl herror)⟩

end Km43.Cbor
