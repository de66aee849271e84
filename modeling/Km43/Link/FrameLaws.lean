import Km43.Cbor.Carried
import Km43.Cbor.Record
import Km43.Link.Frame

namespace Km43.Link

open Library Library.StepParser Cbor CborReader CborWriter Sealed

section

variable {ε κ : Type} [DecidableEq κ] [BodyKey κ] [FromCbor ε] {t : Table ε κ}
  {item : ∀ k, Item → Option (t.Value k)}

theorem bodySlots_late {arms : ∀ k, t.Arm 6 item k} {e : LinkEnvelope} {s : t.Slots} :
    bodySlots t e = .ok s ↔ ∃ late, bodySlots (t.late arms) e = .ok late ∧ Table.Judged late s := by
  have hnone : Table.Judged (t.late arms).none t.none := fun _ => rfl
  unfold bodySlots Table.pairs
  simp only [bind_ok, Prod.exists, Except.ok.injEq]
  constructor
  · rintro ⟨out, r, hpairs, u, hfinish, rfl⟩
    obtain ⟨late, hlate, hout⟩ := (Table.pairs_late hnone).mp hpairs
    exact ⟨late, ⟨_, r, hlate, u, hfinish, rfl⟩, hout⟩
  · rintro ⟨late, ⟨out, r, hpairs, u, hfinish, rfl⟩, hout⟩
    exact ⟨_, r, (Table.pairs_late hnone).mpr ⟨_, hpairs, hout⟩, u, hfinish, rfl⟩

theorem received (arms : ∀ k, t.Arm 6 item k) {bytes : Bytes} {head : FrameHead} {s : t.Slots} :
    (∃ e, LinkEnvelope.decode bytes = .ok e ∧ e.head = head ∧ bodySlots t e = .ok s) ↔
      ∃ f : Frame, f.item.Legal maxDepth ∧ f.item.spelling = bytes ∧ f.Scalars head ∧ Keyed f.pairs ∧
        ∀ k, Table.SlotOf item f.pairs s k := by
  have hreads : Reads (fun _ => True) 7 (boxed (t.late arms).pairs) fun i =>
      i.pairs?.bind fun ps => foldPairs (Table.take (Table.lateItem arms)) ps (t.late arms).none :=
    Reads.watchedMapFrom (fun _ => trivial) Table.late_watches Table.fills fun n _ => Table.none_filled n
  have hjudged : @Table.Judged _ _ _ t 6 item arms (fun k => (s k).map some) s := fun _ => rfl
  have hslots : ∀ f : Frame, f.item.Legal maxDepth → ∀ late, foldPairs (Table.take (Table.lateItem arms)) f.pairs
      (t.late arms).none = some late ↔ Keyed f.pairs ∧ ∀ k, Table.SlotOf (Table.lateItem arms) f.pairs late k := by
    intro f hf late
    have hmap : (Item.map f.mapWidth f.pairs).Legal 7 := hf.2 _ (by simp)
    exact Table.fold_slots hmap.2.1 late
  constructor
  · rintro ⟨e, he, hhead, hs⟩
    obtain ⟨late, hlate, hout⟩ : ∃ late, bodySlots (t.late arms) e = .ok late ∧ Table.Judged late s := bodySlots_late.mp hs
    obtain ⟨f, hf, hspell, hscalars, hfold⟩ := (pairs_received hreads).mp ⟨e, he, hhead, hlate⟩
    obtain ⟨hkeyed, hlates⟩ := (hslots f hf late).mp hfold
    exact ⟨f, hf, hspell, hscalars, hkeyed, fun k => (Table.slotOf_late hout k).mp (hlates k)⟩
  · rintro ⟨f, hf, hspell, hscalars, hkeyed, hs⟩
    have hfold := (hslots f hf _).mpr ⟨hkeyed, fun k => (Table.slotOf_late hjudged k).mpr (hs k)⟩
    obtain ⟨e, he, hhead, hlate⟩ := (pairs_received hreads).mpr ⟨f, hf, hspell, hscalars, hfold⟩
    exact ⟨e, he, hhead, bodySlots_late.mpr ⟨_, hlate, hjudged⟩⟩

end

theorem records_slots {ε κ σ β : Type} [DecidableEq κ] [BodyKey κ] [FromCbor ε] {t : Table ε κ} {into : t.Slots → σ}
    {recStep : ℤ → σ → Read ε σ} (h : t.Records into recStep) (judge : σ → Except ε β) (e : LinkEnvelope) :
    (pairLoop recStep e.keys (into t.none) e.body >>= fun out =>
      out.2.finish.mapError FromCbor.cbor >>= fun _ => judge out.1) =
      bodySlots t e >>= fun s => judge (into s) := by
  have hloop := h.loop e.keys t.none
  unfold bodySlots Table.pairs
  rw [hloop, map_eq_pure_bind, bind_apply]
  cases pairLoop t.step e.keys t.none e.body with
  | error why => rfl
  | ok out =>
    change _ = ((out.2.finish.mapError FromCbor.cbor >>= fun _ => .ok out.1) >>= fun s => judge (into s))
    rw [bind_assoc]
    rfl

theorem encodeBody_tells {ε : Type} [FromCbor ε] {m m' : Encoder ε Unit} {calls : List Call} (h : Tells m calls)
    (h' : Tells m' calls) {dst : ℕ} {out : Bytes} : encodeBody m dst = .ok out ↔ encodeBody m' dst = .ok out := by
  rw [encodeBody_ok h, encodeBody_ok h']

def Receives {ε β : Type} (decode : LinkEnvelope → Except ε β) (bytes : Bytes) (head : FrameHead) (v : β) : Prop :=
  ∃ e, LinkEnvelope.decode bytes = .ok e ∧ e.head = head ∧ decode e = .ok v

def written {κ : Type} [BodyKey κ] (head : FrameHead) (items : List (κ × Item)) : Frame :=
  ⟨Width.of elements, .ofNat head.opcode.toNat, .ofNat head.session.raw.toNat, .ofNat head.reqId.toNat,
    Width.of (keyedPairs items).length, keyedPairs items⟩

def linkBody {ε κ : Type} [FromCbor ε] [BodyKey κ] (header : LinkHeader) (keys : UInt64)
    (entries : List (κ × List Call)) : Encoder ε Unit := do
  mapErr (fun _ => FromCbor.cbor .destinationTooSmall) (header.write keys.toNat)
  writeEntries entries

section

variable {ε κ : Type} [FromCbor ε] [BodyKey κ] {entries : List (κ × List Call)} {items : List (κ × Item)}
  {head : FrameHead}

theorem written_scalars (head : FrameHead) (items : List (κ × Item)) : (written head items).Scalars head := by
  refine ⟨u8Of_ofNat _, ?_, u32Of_ofNat _⟩
  change (u16Of (.ofNat head.session.raw.toNat)).map SessionId.ofRaw = _
  rw [u16Of_ofNat, Option.map_some, SessionId.ofRaw_raw]

theorem written_legal (hrise : Rising items) (hlegal : ∀ e ∈ items, e.2.Legal 6) :
    (written head items).item.Legal maxDepth := by
  have hopcode := head.opcode.toNat_lt
  have hsession := head.session.raw.toNat_lt
  have hreq := head.reqId.toNat_lt
  have hbody : (bodyItem items).Legal 7 := bodyItem_legal hrise hlegal
  have hall : ∀ i ∈ [Item.ofNat head.opcode.toNat, .ofNat head.session.raw.toNat, .ofNat head.reqId.toNat,
      bodyItem items], i.Legal 7 := by
    simp only [List.forall_mem_cons, List.not_mem_nil, false_implies, implies_true, and_true]
    exact ⟨Item.ofNat_legal (by omega), Item.ofNat_legal (by omega), Item.ofNat_legal (by omega), hbody⟩
  exact Item.ofItems_legal (by simp) hall

theorem linkBody_tells (header : LinkHeader) (keys : UInt64) (entries : List (κ × List Call)) :
    Tells (linkBody header keys entries : Encoder ε Unit)
      (scalarCalls header.kind.byte header.session header.reqId keys ++ entryCalls entries) := by
  have hheader : Tells (mapErr (fun _ => (FromCbor.cbor .destinationTooSmall : ε)) (header.write keys.toNat))
      (scalarCalls header.kind.byte header.session header.reqId keys) := by
    intro w w'
    rw [mapErr_ok, LinkHeader.write, ← writeScalars_calls]
  exact hheader.append (writeEntries_tells entries)

theorem frame_writes (h : Spelled 6 entries items) (hrise : Rising items) {keys : UInt64}
    (hkeys : items.length = keys.toNat) (head : FrameHead) :
    Writes maxDepth (writeAll (scalarCalls head.opcode head.session head.reqId keys ++ entryCalls entries))
      (written head items).item := by
  have hbody : WritesItems 7 (writeAll (.map keys :: entryCalls entries)) [bodyItem items] := by
    have hone := WritesItems.cons (bodyItem_writes h hrise hkeys) .nil
    rwa [bind_pure_unit] at hone
  have hreq := WritesItems.cons (writes_call (d := 7) (c := .u64 head.reqId.toUInt64) rfl) hbody
  have hsession := WritesItems.cons (writes_call (d := 7) (c := .u64 head.session.raw.toUInt64) rfl) hreq
  have hopcode := WritesItems.cons (writes_call (d := 7) (c := .u64 head.opcode.toUInt64) rfl) hsession
  exact writes_arrayCalls (n := 4) hopcode rfl

theorem linkBody_ok (h : Spelled 6 entries items) (hrise : Rising items) {keys : UInt64}
    (hkeys : items.length = keys.toNat) {header : LinkHeader} {dst : ℕ} {out : Bytes} :
    encodeBody (linkBody header keys entries : Encoder ε Unit) dst = .ok out ↔
      out = (written header.head items).item.spelling ∧ (written header.head items).item.spelling.length ≤ dst :=
  encodeBody_item (linkBody_tells header keys entries) (frame_writes h hrise hkeys header.head)

end

structure Frame.Formed (f : Frame) : Prop where
  width : f.width.Holds elements
  opcode : f.opcode.Legal 7
  session : f.session.Legal 7
  reqId : f.reqId.Legal 7
  mapWidth : f.mapWidth.Holds f.pairs.length
  pairs : LegalPairs 6 f.pairs

namespace Frame

variable {f : Frame}

theorem legal_iff : f.item.Legal maxDepth ↔ f.Formed ∧ (ranks f.pairs).Nodup := by
  constructor
  · rintro ⟨hwidth, hall⟩
    have hmap : (Item.map f.mapWidth f.pairs).Legal 7 := hall _ (by simp)
    exact ⟨⟨hwidth, hall _ (by simp), hall _ (by simp), hall _ (by simp), hmap.1, hmap.2.2⟩, hmap.2.1⟩
  · rintro ⟨h, hfresh⟩
    have hmap : (Item.map f.mapWidth f.pairs).Legal 7 := ⟨h.mapWidth, hfresh, h.pairs⟩
    refine ⟨h.width, ?_⟩
    change ∀ i ∈ [f.opcode, f.session, f.reqId, Item.map f.mapWidth f.pairs], i.Legal 7
    simp only [List.forall_mem_cons, List.not_mem_nil, false_implies, implies_true, and_true]
    exact ⟨h.opcode, h.session, h.reqId, hmap⟩

theorem spelling_eq (f : Frame) : f.item.spelling = (Token.array f.width elements).spelling ++
    (f.opcode.spelling ++ (f.session.spelling ++ (f.reqId.spelling ++ (Item.map f.mapWidth f.pairs).spelling))) := by
  change (Item.array _ _).spelling = _
  simp only [Item.spelling, Item.spellAll, List.append_nil]
  rfl

theorem repeated (h : f.Formed) (hrepeated : ¬(ranks f.pairs).Nodup) {i : Item} (hi : i.Legal maxDepth) :
    i.spelling ≠ f.item.spelling := by
  intro hspell
  have htoken := tokenStep_exact.read (x := .array f.width elements) h.width (f.opcode.spelling ++
    (f.session.spelling ++ (f.reqId.spelling ++ (Item.map f.mapWidth f.pairs).spelling)))
  have hread := (itemStep_exact maxDepth).read hi []
  rw [List.append_nil, hspell, spelling_eq] at hread
  have hfirst := itemStep_first htoken hread
  cases i with
  | array w items =>
    obtain ⟨rfl, hlen⟩ := Token.array.inj hfirst
    have hrest : Item.spellAll items = f.opcode.spelling ++
        (f.session.spelling ++ (f.reqId.spelling ++ (Item.map f.mapWidth f.pairs).spelling)) := by
      rw [spelling_eq, Item.spelling, hlen] at hspell
      exact List.append_cancel_left hspell
    have hall : ∀ j ∈ items, j.Legal 7 := hi.2
    obtain ⟨a, b, c, m, rfl⟩ : ∃ a b c m, items = [a, b, c, m] := List.length_eq_four.mp hlen
    have hfree := itemStep_exact 7
    obtain ⟨-, hsession⟩ := hfree.prefix_free (hall a (by simp)) h.opcode hrest
    obtain ⟨-, hreq⟩ := hfree.prefix_free (hall b (by simp)) h.session hsession
    obtain ⟨-, hmap⟩ := hfree.prefix_free (hall c (by simp)) h.reqId hreq
    rw [Item.spellAll, Item.spellAll, List.append_nil] at hmap
    exact repeated_spelling h.mapWidth h.pairs hrepeated (hall m (by simp)) hmap
  | unsigned | negative | bytes | text | map | bool => cases hfirst

end Frame

/-- What a link body's two sides owe each other, whatever the header. -/
structure LinkLaws {ε β : Type} (made valid conforms : β → Prop) (equal : β → β → Prop)
    (write : β → LinkHeader → ℕ → Except ε Bytes) (decode : LinkEnvelope → Except ε β) (known : ℤ → Prop)
    (required : List ℤ) : Prop where
  sends : ∀ v header dst out, made v → write v header dst = .ok out → valid v
  fits : ∀ v header, valid v → ∃ size, ∀ dst, size ≤ dst → ∃ out, write v header dst = .ok out
  trip : ∀ v header dst out, made v → write v header dst = .ok out →
    ∃ v', equal v v' ∧ Receives decode out header.head v'
  accepts : ∀ bytes head v, Receives decode bytes head v → conforms v → valid v
  order : ∀ (f g : Frame) (extra : List (Key × Item)), g.pairs.Perm (f.pairs ++ extra) → Unread known extra →
    f.item.Legal maxDepth → g.item.Legal maxDepth → g.opcode = f.opcode → g.session = f.session →
      g.reqId = f.reqId → ∀ head v, Receives decode f.item.spelling head v ↔ Receives decode g.item.spelling head v
  once : ∀ f : Frame, f.Formed → ¬(ranks f.pairs).Nodup → ∀ head v, ¬Receives decode f.item.spelling head v
  needs : ∀ f : Frame, f.item.Legal maxDepth → ∀ k ∈ required, ¬HasKey f.pairs k →
    ∀ head v, ¬Receives decode f.item.spelling head v

section

variable {ε κ β : Type} [DecidableEq κ] [BodyKey κ] [FromCbor ε] {t : Table ε κ}
  {item : ∀ k, Item → Option (t.Value k)} {judge : t.Slots → Except ε β} {decode : LinkEnvelope → Except ε β}

theorem receives_iff (arms : ∀ k, t.Arm 6 item k) (hdecode : ∀ e, decode e = bodySlots t e >>= judge)
    {bytes : Bytes} {head : FrameHead} {v : β} : Receives decode bytes head v ↔
      ∃ f : Frame, f.item.Legal maxDepth ∧ f.item.spelling = bytes ∧ f.Scalars head ∧ Keyed f.pairs ∧
        ∃ s : t.Slots, (∀ k, Table.SlotOf item f.pairs s k) ∧ judge s = .ok v := by
  constructor
  · rintro ⟨e, he, hhead, hv⟩
    rw [hdecode] at hv
    obtain ⟨s, hs, hjudge⟩ := bind_ok.mp hv
    obtain ⟨f, hf, hspell, hscalars, hkeyed, hslots⟩ := (received arms).mp ⟨e, he, hhead, hs⟩
    exact ⟨f, hf, hspell, hscalars, hkeyed, s, hslots, hjudge⟩
  · rintro ⟨f, hf, hspell, hscalars, hkeyed, s, hslots, hjudge⟩
    obtain ⟨e, he, hhead, hs⟩ := (received arms).mpr ⟨f, hf, hspell, hscalars, hkeyed, hslots⟩
    refine ⟨e, he, hhead, ?_⟩
    rw [hdecode]
    exact bind_ok.mpr ⟨s, hs, hjudge⟩

theorem receives_frame (arms : ∀ k, t.Arm 6 item k) (hdecode : ∀ e, decode e = bodySlots t e >>= judge) {f : Frame}
    (hf : f.item.Legal maxDepth) {head : FrameHead} {v : β} : Receives decode f.item.spelling head v ↔
      f.Scalars head ∧ Keyed f.pairs ∧ ∃ s : t.Slots, (∀ k, Table.SlotOf item f.pairs s k) ∧ judge s = .ok v := by
  rw [receives_iff arms hdecode]
  constructor
  · rintro ⟨g, hg, hspell, h⟩
    have heq := Item.spelling_inj hg hf hspell
    obtain ⟨gw, ga, gb, gc, gm, gps⟩ := g
    obtain ⟨fw, fa, fb, fc, fm, fps⟩ := f
    simp only [Frame.item, Item.array.injEq, List.cons.injEq, Item.map.injEq, and_true] at heq
    obtain ⟨rfl, rfl, rfl, rfl, rfl, rfl⟩ := heq
    exact h
  · intro h
    exact ⟨f, hf, rfl, h⟩

theorem linkLaws (arms : ∀ k, t.Arm 6 item k) (hdecode : ∀ e, decode e = bodySlots t e >>= judge)
    {write : β → LinkHeader → ℕ → Except ε Bytes} {made valid conforms : β → Prop} {equal : β → β → Prop}
    (hsends : ∀ v header dst out, made v → write v header dst = .ok out → valid v)
    (hcarries : ∀ v, valid v → ∃ items v', equal v v' ∧ t.Carries 6 item judge items v' ∧ ∀ header dst out,
      write v header dst = .ok out ↔ out = (written header.head items).item.spelling ∧
        (written header.head items).item.spelling.length ≤ dst)
    (haccepts : ∀ ps s v, LegalPairs 6 ps → (∀ k, Table.SlotOf item ps s k) → judge s = .ok v → conforms v → valid v)
    {required : List κ} (hneeds : ∀ s v, judge s = .ok v → ∀ k ∈ required, (s k).isSome) :
    LinkLaws made valid conforms equal write decode t.Known (required.map fun k => (BodyKey.number k : ℤ)) := by
  constructor
  · exact hsends
  · intro v header hv
    obtain ⟨items, v', -, -, hwrite⟩ := hcarries v hv
    exact ⟨_, fun dst hdst => ⟨_, (hwrite header dst _).mpr ⟨rfl, hdst⟩⟩⟩
  · intro v header dst out hmade h
    obtain ⟨items, v', hequal, ⟨hrise, hlegal, s, hvalue, hrest, hjudge⟩, hwrite⟩ := hcarries v (hsends v header dst out hmade h)
    obtain ⟨rfl, -⟩ := (hwrite header dst out).mp h
    have hbody : (bodyItem items).Legal 7 := bodyItem_legal hrise hlegal
    refine ⟨v', hequal, (receives_frame arms hdecode (written_legal hrise hlegal)).mpr ⟨written_scalars _ _, ?_⟩⟩
    obtain ⟨hkeyed, hslots⟩ := (Table.fold_slots hbody.2.1 s).mp (Table.fold_entries hrise.keys hvalue hrest)
    exact ⟨hkeyed, s, hslots, hjudge⟩
  · intro bytes head v h hconforms
    obtain ⟨f, hf, -, -, -, s, hslots, hjudge⟩ := (receives_iff arms hdecode).mp h
    exact haccepts f.pairs s v (Frame.legal_iff.mp hf).1.pairs hslots hjudge hconforms
  · intro f g extra hpairs hextra hf hg hopcode hsession hreq head v
    have hfresh := (Frame.legal_iff.mp hg).2
    have hvalue : ∀ k : κ, valueAt g.pairs (BodyKey.number k) = valueAt f.pairs (BodyKey.number k) :=
      fun k => valueAt_known hpairs hfresh hextra ⟨k, rfl⟩
    rw [receives_frame arms hdecode hf, receives_frame arms hdecode hg, keyed_known hpairs hextra]
    simp only [Frame.Scalars, Table.SlotOf, hvalue, hopcode, hsession, hreq]
  · intro f hf hrepeated head v h
    obtain ⟨g, hg, hspell, -⟩ := (receives_iff arms hdecode).mp h
    exact Frame.repeated hf hrepeated hg hspell
  · intro f hf k hk hmissing head v h
    obtain ⟨j, hj, rfl⟩ := List.mem_map.mp hk
    obtain ⟨-, -, s, hslots, hjudge⟩ := (receives_frame arms hdecode hf).mp h
    exact hmissing ((hslots j).has.mpr (hneeds s v hjudge j hj))

end

section

variable {ε κ β : Type} [DecidableEq κ] [Listed κ] [FromCbor ε] {Value : κ → Type} {codec : ∀ k, Codec ε (Value k)}
  {twice : κ → ε}

def cellItems (codec : ∀ k, Codec ε (Value k)) (s : ∀ k, Option (Value k)) : List (κ × Item) :=
  cells Listed.all fun k => (s k).map (codec k).spell

def cellCalls (codec : ∀ k, Codec ε (Value k)) (s : ∀ k, Option (Value k)) : List (κ × List Call) :=
  cells Listed.all fun k => (s k).map (codec k).calls

def MaySend (codec : ∀ k, Codec ε (Value k)) (s : ∀ k, Option (Value k)) : Prop :=
  ∀ k a, s k = some a → (codec k).may a

variable {s : ∀ k, Option (Value k)}

theorem cells_count (s : ∀ k, Option (Value k)) : (cellItems codec s).length = (cellCalls codec s).length := by
  unfold cellItems cellCalls cells
  induction Listed.all (κ := κ) with
  | nil => rfl
  | cons k all ih =>
    cases hk : s k with
    | none => simp only [List.filterMap_cons, hk, Option.map_none, ih]
    | some a => simp only [List.filterMap_cons, hk, Option.map_some, List.length_cons, ih]

theorem cellItems_spelled (h : MaySend codec s) (d : ℕ) : Spelled d (cellCalls codec s) (cellItems codec s) := by
  apply cells_spelled
  intro k
  cases hk : s k with
  | none => exact .none
  | some a => exact .some ((codec k).writes d a (h k a hk))

theorem cellItems_legal (h : MaySend codec s) (d : ℕ) : ∀ e ∈ cellItems codec s, e.2.Legal d := by
  intro e he
  obtain ⟨a, ha, heq⟩ := Option.map_eq_some_iff.mp (cells_mem.mp he).2
  rw [← heq]
  exact (codec e.1).legal d a (h e.1 a ha)

theorem cellItems_taken (h : MaySend codec s) :
    ∀ e ∈ cellItems codec s, (codec e.1).item e.2 = s e.1 ∧ (s e.1).isSome := by
  intro e he
  obtain ⟨a, ha, heq⟩ := Option.map_eq_some_iff.mp (cells_mem.mp he).2
  rw [← heq, ha]
  exact ⟨(codec e.1).back a (h e.1 a ha), rfl⟩

theorem cellItems_rest (codec : ∀ k, Codec ε (Value k)) {k : κ} (hk : k ∉ (cellItems codec s).map Prod.fst) :
    s k = none := by
  cases ha : s k with
  | none => rfl
  | some a =>
    refine absurd (List.mem_map.mpr ⟨(k, (codec k).spell a), cells_mem.mpr ⟨Listed.mem k, ?_⟩, rfl⟩) hk
    rw [ha]
    rfl

theorem cellItems_rising (codec : ∀ k, Codec ε (Value k)) (s : ∀ k, Option (Value k)) : Rising (cellItems codec s) :=
  cells_rising Listed.inOrder _

theorem cellItems_carries (h : MaySend codec s) {judge : (Table.ofCodecs codec twice).Slots → Except ε β} {v : β}
    (hjudge : judge s = .ok v) :
    (Table.ofCodecs codec twice).Carries 6 (fun k => (codec k).item) judge (cellItems codec s) v :=
  ⟨cellItems_rising codec s, cellItems_legal h 6, s, cellItems_taken h, fun _ => cellItems_rest codec, hjudge⟩

theorem cellItems_fold (h : MaySend codec s) :
    foldPairs (Table.take (t := Table.ofCodecs codec twice) fun k => (codec k).item) (keyedPairs (cellItems codec s))
      (Table.ofCodecs codec twice).none = some s :=
  Table.fold_entries (cellItems_rising codec s).keys (cellItems_taken h) fun _ => cellItems_rest codec

theorem codecs_decode (codec : ∀ k, Codec ε (Value k)) (twice : κ → ε) :
    (Table.ofCodecs codec twice).Decodes fun k => (codec k).item := Table.decodes fun k => (codec k).reads 7

theorem cellItems_decode (h : MaySend codec s) :
    decodeBody (Table.ofCodecs codec twice).slots (bodyItem (cellItems codec s)).spelling = .ok s :=
  (codecs_decode codec twice).entries (cellItems_rising codec s) (cellItems_legal h 7) (cellItems_taken h)
    fun _ => cellItems_rest codec

theorem encode_cells {m : Encoder ε Unit} {count : UInt64} (htells : Tells m (.map count :: entryCalls (cellCalls codec s)))
    (hmay : MaySend codec s) (hcount : (cellCalls codec s).length = count.toNat) {dst : ℕ} {out : Bytes} :
    encodeBody m dst = .ok out ↔
      out = (bodyItem (cellItems codec s)).spelling ∧ (bodyItem (cellItems codec s)).spelling.length ≤ dst :=
  encodeBody_item htells
    (bodyItem_writes (cellItems_spelled hmay 7) (cellItems_rising codec s) ((cells_count s).trans hcount))

theorem cellItems_length {width : κ → ℕ} (h : ∀ k a, s k = some a → 1 + ((codec k).spell a).spelling.length ≤ width k) :
    (bodyItem (cellItems codec s)).spelling.length ≤ 1 + ((Listed.all (κ := κ)).map width).sum := by
  apply cells_length Listed.few Listed.small
  intro k i hi
  obtain ⟨a, ha, rfl⟩ := Option.map_eq_some_iff.mp hi
  exact h k a ha

theorem codecLaws {judge : (Table.ofCodecs codec twice).Slots → Except ε β} {decode : LinkEnvelope → Except ε β}
    (hdecode : ∀ e, decode e = bodySlots (Table.ofCodecs codec twice) e >>= judge)
    {write : β → LinkHeader → ℕ → Except ε Bytes} {valid judged conforms : β → Prop} {keys : β → UInt64}
    {slots : β → ∀ k, Option (Value k)}
    (hwrite : ∀ v header dst out, write v header dst = .ok out ↔ valid v ∧
      encodeBody (linkBody header (keys v) (cellCalls codec (slots v)) : Encoder ε Unit) dst = .ok out)
    (hkeys : ∀ v, (cellCalls codec (slots v)).length = (keys v).toNat)
    (hmay : ∀ v, valid v → MaySend codec (slots v))
    (hjudge : ∀ s v, judge s = .ok v ↔ s = slots v ∧ judged v) (hvalid : ∀ v, valid v → judged v)
    (haccepts : ∀ v, judged v → conforms v → MaySend codec (slots v) → valid v) (required : List κ)
    (hneeds : ∀ v, ∀ k ∈ required, (slots v k).isSome) :
    LinkLaws (fun _ => True) valid conforms Eq write decode (Table.ofCodecs codec twice).Known
      (required.map fun k => (BodyKey.number k : ℤ)) := by
  have harms : ∀ k, (Table.ofCodecs codec twice).Arm 6 (fun k => (codec k).item) k := fun k => .typed ((codec k).reads 6)
  have hcount : ∀ v, (cellItems codec (slots v)).length = (keys v).toNat := fun v => (cells_count _).trans (hkeys v)
  apply linkLaws harms hdecode
  · intro v header dst out _ h
    exact ((hwrite v header dst out).mp h).1
  · intro v hv
    refine ⟨_, v, rfl, cellItems_carries (hmay v hv) ((hjudge (slots v) v).mpr ⟨rfl, hvalid v hv⟩), ?_⟩
    intro header dst out
    rw [hwrite, and_iff_right hv]
    exact linkBody_ok (cellItems_spelled (hmay v hv) 6) (cells_rising Listed.inOrder _) (hcount v)
  · intro ps s v hlegal hslots hs hconforms
    obtain ⟨rfl, hjudged⟩ := (hjudge s v).mp hs
    refine haccepts v hjudged hconforms fun k a ha => ?_
    have hslot := hslots k
    cases hvalue : valueAt ps (BodyKey.number k) with
    | none =>
      have hempty := (Table.slotOf_absent hvalue).mp hslot
      rw [ha] at hempty
      cases hempty
    | some i =>
      have htaken := ((Table.slotOf_present hvalue).mp hslot).1
      obtain ⟨key, -, hmem⟩ := valueAt_mem hvalue
      exact (codec k).sound 6 i a (hlegal _ hmem).2 (htaken.trans ha)
  · intro s v hs k hk
    rw [((hjudge s v).mp hs).1]
    exact hneeds v k hk

/-- A value stands in a payload: one well-formed map that carries each of its fields under the field's key, the fields
it is without not at all, and whatever other keys beside them. -/
def Carried (codec : ∀ k, Codec ε (Value k)) (s : ∀ k, Option (Value k)) (payload : Bytes) : Prop :=
  ∃ w ps, (Item.map w ps).Legal maxDepth ∧ (Item.map w ps).spelling = payload ∧ Keyed ps ∧
    ∀ k, Shows ps (BodyKey.number k) (codec k).item (s k)

/-- What a plain body's two sides owe each other: whatever may be said fits and is read as it was said, and a payload
is read as a value exactly where that value stands in it. -/
structure PlainLaws (codec : ∀ k, Codec ε (Value k)) (slots : β → ∀ k, Option (Value k)) (said : β → Prop) (room : ℕ)
    (encode : β → ℕ → Except ε Bytes) (decode : Bytes → Except ε β) : Prop where
  trip : ∀ v dst, said v → room ≤ dst → ∃ out, encode v dst = .ok out ∧ decode out = .ok v
  exact : ∀ payload v, decode payload = .ok v ↔ said v ∧ Carried codec (slots v) payload

theorem plainLaws {judge : (Table.ofCodecs codec twice).Slots → Except ε β} {slots : β → ∀ k, Option (Value k)}
    {said : β → Prop} {m : β → Encoder ε Unit} {count : β → UInt64} {width : κ → ℕ}
    (htells : ∀ v, Tells (m v) (.map (count v) :: entryCalls (cellCalls codec (slots v))))
    (hcount : ∀ v, (cellCalls codec (slots v)).length = (count v).toNat) (hmay : ∀ v, MaySend codec (slots v))
    (hjudge : ∀ s v, judge s = .ok v ↔ s = slots v ∧ said v)
    (hwidth : ∀ v k a, slots v k = some a → 1 + ((codec k).spell a).spelling.length ≤ width k) :
    PlainLaws codec slots said (1 + ((Listed.all (κ := κ)).map width).sum) (fun v => encodeBody (m v))
      ((Table.ofCodecs codec twice).decode judge) := by
  constructor
  · intro v dst hv hdst
    have hlen := cellItems_length (hwidth v)
    refine ⟨_, (encode_cells (htells v) (hmay v) (hcount v)).mpr ⟨rfl, hlen.trans hdst⟩, ?_⟩
    exact bind_ok.mpr ⟨_, cellItems_decode (hmay v), (hjudge _ v).mpr ⟨rfl, hv⟩⟩
  · intro payload v
    by_cases hv : said v
    · have hstands : (Table.ofCodecs codec twice).decode judge payload = .ok v ↔
          Table.Stands (t := Table.ofCodecs codec twice) (fun k => (codec k).item) (slots v) payload :=
        (codecs_decode codec twice).value fun s => (hjudge s v).trans (and_iff_left hv)
      rw [hstands, and_iff_right hv]
      exact Table.stands_iff fun _ _ _ => forall_congr' fun _ => Table.slotOf_shows
    · refine iff_of_false (fun h => ?_) fun h => hv h.1
      obtain ⟨s, -, hs⟩ := bind_ok.mp h
      exact hv ((hjudge s v).mp hs).2

theorem plainBody {judge : (Table.ofCodecs codec twice).Slots → Except ε β} {slots : β → ∀ k, Option (Value k)}
    {said : β → Prop} {count : β → UInt64} {entries : β → List (κ × List Call)} {width : κ → ℕ}
    (hentries : ∀ v, entries v = cellCalls codec (slots v)) (hcount : ∀ v, (entries v).length = (count v).toNat)
    (hmay : ∀ v, MaySend codec (slots v)) (hjudge : ∀ s v, judge s = .ok v ↔ s = slots v ∧ said v)
    (hwidth : ∀ v k a, slots v k = some a → 1 + ((codec k).spell a).spelling.length ≤ width k) :
    PlainLaws codec slots said (1 + ((Listed.all (κ := κ)).map width).sum)
      (fun v => encodeBody (writeBody (count v) (entries v))) ((Table.ofCodecs codec twice).decode judge) := by
  have htells : ∀ v, Tells (writeBody (count v) (entries v) : Encoder ε Unit)
      (.map (count v) :: entryCalls (cellCalls codec (slots v))) := by
    intro v
    rw [← hentries]
    exact writeBody_tells (count v) (entries v)
  exact plainLaws htells (fun v => hentries v ▸ hcount v) hmay hjudge hwidth

end

end Km43.Link
