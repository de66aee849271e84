import Km43.Handshake.DiscoveryTrip

namespace Km43.Handshake

open Library Identity Cbor CborReader CborWriter Sealed Link

section

variable {ε κ : Type} [DecidableEq κ] [BodyKey κ] [FromCbor ε]

/-- The slots of an envelope's body that carries no key beside its own, read to the envelope's end. -/
def closedSlots (t : Table ε κ) (unknown : ℤ → ε) (e : Envelope) : Except ε t.Slots := do
  let (s, body) ← t.closedPairs unknown e.keys e.body
  body.finish.mapError FromCbor.cbor
  .ok s

variable {t : Table ε κ} {item : ∀ k, Item → Option (t.Value k)} {unknown : ℤ → ε}

/-- Such a body is read from the frames that carry its own keys and no more, each once, in any order. -/
theorem closed_received (hreads : ∀ k, Reads (fun _ => True) 6 (t.read k) (item k)) (bytes : Bytes) (header : Header)
    (s : t.Slots) :
    (∃ e, Envelope.decode bytes = .ok e ∧ e.header = header ∧ closedSlots t unknown e = .ok s) ↔
      ∃ f : Frame, f.item.Legal maxDepth ∧ f.item.spelling = bytes ∧ f.Scalars (frameHead header) ∧ OnlyKeys κ f.pairs ∧
        ∀ k, Table.SlotOf item f.pairs s k := by
  have hmap : Reads (fun _ => True) 7 (boxed (t.closedPairs unknown)) fun i =>
      i.pairs?.bind fun ps => foldPairs (Table.closedTake item) ps t.none :=
    Reads.mapFrom (fun _ => trivial) (Table.closed_steps hreads) Table.closed_fills fun n _ => Table.none_filled n
  have hframe := @pairs_received _ _ _ _ _ (frameHead header) s hmap bytes
  have hslots : ∀ f : Frame, f.item.Legal maxDepth → (foldPairs (Table.closedTake item) f.pairs t.none = some s ↔
      OnlyKeys κ f.pairs ∧ ∀ k, Table.SlotOf item f.pairs s k) := by
    intro f hf
    have hbody : (Item.map f.mapWidth f.pairs).Legal 7 := hf.2 _ (by simp)
    rw [Table.closed_fold, Table.fold_slots hbody.2.1 s]
    constructor
    · rintro ⟨⟨-, hs⟩, honly⟩
      exact ⟨honly, hs⟩
    · rintro ⟨honly, hs⟩
      refine ⟨⟨fun p hp => ?_, hs⟩, honly⟩
      obtain ⟨k, hk⟩ := honly p hp
      rw [hk]
      rfl
  constructor
  · rintro ⟨e, he, rfl, hs⟩
    obtain ⟨f, hf, hspell, hscalars, hfold⟩ := hframe.mp ⟨_, Link.decode_ok.mp he, rfl, hs⟩
    exact ⟨f, hf, hspell, hscalars, (hslots f hf).mp hfold⟩
  · rintro ⟨f, hf, hspell, hscalars, hs⟩
    obtain ⟨⟨opcode, session, reqId, keys, body⟩, he, hhead, hs⟩ :=
      hframe.mpr ⟨f, hf, hspell, hscalars, (hslots f hf).mpr hs⟩
    obtain ⟨rfl, rfl, rfl⟩ := FrameHead.mk.inj hhead
    exact ⟨⟨header, keys, body⟩, Link.decode_ok.mpr he, rfl, hs⟩

omit [FromCbor ε] in
theorem header_tells {f : CborError → ε} (header : Header) (keys : UInt64) :
    Tells (mapErr f (header.write keys.toNat)) (scalarCalls header.kind.byte header.session header.reqId keys) := by
  intro w w'
  rw [mapErr_ok, header_write, ← writeScalars_calls]

end

theorem ofBytes_length {raw : Bytes} (h : raw.length ≤ 0xFFFF) : (Item.ofBytes raw).spelling.length ≤ 3 + raw.length := by
  have hhead := (headBytes_le .bytes).2.2.1 h
  rw [Item.ofBytes, Item.spelling, Token.spelling, List.length_append]
  omega

section

variable {ε κ : Type} [DecidableEq κ] [Listed κ] [FromCbor ε] {Value : κ → Type} {codec : ∀ k, Codec ε (Value k)}
  {s : ∀ k, Option (Value k)}

def cellFrame (codec : ∀ k, Codec ε (Value k)) (header : Header) (s : ∀ k, Option (Value k)) : Frame :=
  written (frameHead header) (cellItems codec s)

theorem cellFrame_legal (h : MaySend codec s) (header : Header) : (cellFrame codec header s).item.Legal maxDepth :=
  written_legal (cellItems_rising codec s) (cellItems_legal h 6)

theorem cellFrame_encode (h : MaySend codec s) {header : Header} {keys : UInt64} {m : Encoder ε Unit}
    (hm : Tells m (scalarCalls header.kind.byte header.session header.reqId keys ++ entryCalls (cellCalls codec s)))
    (hkeys : (cellCalls codec s).length = keys.toNat) {dst : ℕ} {out : Bytes} : encodeBody m dst = .ok out ↔
      out = (cellFrame codec header s).item.spelling ∧ (cellFrame codec header s).item.spelling.length ≤ dst :=
  encodeBody_item hm (frame_writes (cellItems_spelled h 6) (cellItems_rising codec s) ((cells_count s).trans hkeys)
    (frameHead header))

theorem cellFrame_length (codec : ∀ k, Codec ε (Value k)) (header : Header) (s : ∀ k, Option (Value k)) :
    (cellFrame codec header s).item.spelling.length ≤ 11 + (bodyItem (cellItems codec s)).spelling.length := by
  have hopcode := ofNat_length_u8 header.kind.byte
  have hsession := ofNat_length_u16 header.session.raw
  have hreq := ofNat_length_u32 header.reqId
  rw [cellFrame, Frame.spelling_eq]
  simp only [List.length_append]
  change (Token.array (Width.of elements) elements).spelling.length +
    ((Item.ofNat header.kind.byte.toNat).spelling.length + ((Item.ofNat header.session.raw.toNat).spelling.length +
      ((Item.ofNat header.reqId.toNat).spelling.length + (bodyItem (cellItems codec s)).spelling.length))) ≤ _
  have harray : (Token.array (Width.of elements) elements).spelling.length = 1 := by decide
  omega

theorem cellFrame_received {twice : κ → ε} {unknown : ℤ → ε} (h : MaySend codec s) (header : Header) :
    ∃ e, Envelope.decode (cellFrame codec header s).item.spelling = .ok e ∧ e.header = header ∧
      closedSlots (.ofCodecs codec twice) unknown e = .ok s := by
  have hbody : (bodyItem (cellItems codec s)).Legal 7 :=
    bodyItem_legal (cellItems_rising codec s) (cellItems_legal h 6)
  obtain ⟨-, hslots⟩ := (Table.fold_slots hbody.2.1 _).mp (@cellItems_fold _ _ _ _ _ _ codec twice s h)
  have hreads : ∀ k, Reads (fun _ => True) 6 ((Table.ofCodecs codec twice).read k) (codec k).item :=
    fun k => (codec k).reads 6
  refine (closed_received hreads _ header s).mpr
    ⟨_, cellFrame_legal h header, rfl, written_scalars _ _, ?_, hslots⟩
  intro p hp
  obtain ⟨e, -, rfl⟩ := List.mem_map.mp hp
  have hsmall := BodyKey.small e.1
  exact ⟨e.1, Key.ofNat_i64 (by unfold i64Max; omega)⟩

end

def receive {ε α : Type} (lift : EnvelopeError → ε) (bytes : Bytes) (decode : Envelope → Except ε α) : Except ε α := do
  let envelope ← (Envelope.decode bytes).mapError lift
  decode envelope

theorem receive_ok {ε α : Type} {lift : EnvelopeError → ε} {bytes : Bytes} {decode : Envelope → Except ε α} {value : α} :
    receive lift bytes decode = .ok value ↔ ∃ e, Envelope.decode bytes = .ok e ∧ decode e = .ok value := by
  unfold receive
  simp only [bind_ok, mapError_ok]

inductive MessageKey
  | handshake
  deriving DecidableEq

namespace MessageKey

theorem keyList : KeyList [handshake] := ⟨by decide, fun k => by cases k; decide, by decide⟩

instance : Listed MessageKey := ⟨[handshake], keyList⟩

end MessageKey

section

variable {ε : Type} [FromCbor ε]

def messageCodec : ∀ _ : MessageKey, Codec ε Bytes
  | .handshake => .bytes

def messageTable (twice : ε) : Table ε MessageKey := .ofCodecs messageCodec fun _ => twice

def messageBody (unknown : ℤ → ε) (twice missing : ε) (envelope : Envelope) : Except ε Bytes := do
  let s ← closedSlots (messageTable twice) unknown envelope
  slotRequired missing (s .handshake)

def encodeMessage (lift : CborError → ε) (header : Header) (message : Bytes) : Encoder ε Unit := do
  mapErr lift (header.write 1)
  tell (CborWriter.key 1)
  tell (CborWriter.bytes message)

def messageSlots (message : Bytes) (_ : MessageKey) : Option Bytes := some message

def messageFrame (header : Header) (message : Bytes) : Frame :=
  cellFrame (messageCodec (ε := CborError)) header (messageSlots message)

variable {unknown : ℤ → ε} {twice missing : ε} {header : Header} {message : Bytes}

theorem message_may (h : message.length < 2 ^ 64) : MaySend (messageCodec (ε := ε)) (messageSlots message) := by
  intro k v hv
  cases k
  obtain rfl := Option.some.inj hv
  exact h

theorem encodeMessage_tells (lift : CborError → ε) (header : Header) (message : Bytes) :
    Tells (encodeMessage lift header message) (scalarCalls header.kind.byte header.session header.reqId 1 ++
      entryCalls (cellCalls (messageCodec (ε := ε)) (messageSlots message))) :=
  (header_tells header 1).append (.entry MessageKey.handshake (.bytes message))

theorem encodeMessage_ok {lift : CborError → ε} (h : message.length < 2 ^ 64) {dst : ℕ} {out : Bytes} :
    encodeBody (encodeMessage lift header message) dst = .ok out ↔
      out = (messageFrame header message).item.spelling ∧ (messageFrame header message).item.spelling.length ≤ dst :=
  cellFrame_encode (message_may h) (encodeMessage_tells lift header message) rfl

theorem messageFrame_length {n : ℕ} (h : message.length ≤ n) (hn : n ≤ 0xFFFF) :
    (messageFrame header message).item.spelling.length ≤ 16 + n := by
  have hwidth : ∀ k v, messageSlots message k = some v →
      1 + ((messageCodec (ε := CborError) k).spell v).spelling.length ≤ 4 + n := by
    intro k v hv
    cases k
    obtain rfl := Option.some.inj hv
    have hbytes := ofBytes_length (h.trans hn)
    change 1 + (Item.ofBytes message).spelling.length ≤ 4 + n
    omega
  have hbody := cellItems_length hwidth
  have hframe := cellFrame_length (messageCodec (ε := CborError)) header (messageSlots message)
  have hsum : ((Listed.all (κ := MessageKey)).map fun _ => 4 + n).sum = 4 + n := by simp [Listed.all]
  rw [hsum] at hbody
  exact hframe.trans (by omega)

theorem messageBody_ok {e : Envelope} : messageBody unknown twice missing e = .ok message ↔
    closedSlots (messageTable twice) unknown e = .ok (messageSlots message) := by
  rw [messageBody, bind_ok]
  constructor
  · rintro ⟨s, hs, hmessage⟩
    have hslots : s = messageSlots message := by
      funext k
      cases k
      exact slotRequired_ok.mp hmessage
    rw [hs, hslots]
  · intro h
    exact ⟨_, h, rfl⟩

theorem message_received (unknown : ℤ → ε) (twice missing : ε) (h : message.length < 2 ^ 64) (header : Header) :
    ∃ e, Envelope.decode (messageFrame header message).item.spelling = .ok e ∧ e.header = header ∧
      messageBody unknown twice missing e = .ok message := by
  have hmay : MaySend (messageCodec (ε := ε)) (messageSlots message) := message_may h
  obtain ⟨e, he, hheader, hs⟩ := cellFrame_received hmay header
  exact ⟨e, he, hheader, messageBody_ok.mpr hs⟩

theorem message_read {bytes : Bytes} : (∃ e, Envelope.decode bytes = .ok e ∧ e.header = header ∧
    messageBody unknown twice missing e = .ok message) ↔
      ∃ f : Frame, f.item.Legal maxDepth ∧ f.item.spelling = bytes ∧ f.Scalars (frameHead header) ∧
        OnlyKeys MessageKey f.pairs ∧ Cbor.Holds f.pairs 1 Item.bytes? message := by
  have hslots : ∀ pairs : List (Key × Item), (∀ k, Table.SlotOf (t := messageTable twice)
      (fun k => (messageCodec (ε := ε) k).item) pairs (messageSlots message) k) ↔ Cbor.Holds pairs 1 Item.bytes? message := by
    intro pairs
    constructor
    · intro h
      exact Table.slotOf_shows.mp (h .handshake)
    · intro h k
      apply Table.slotOf_shows.mpr
      cases k
      exact h
  have hreads : ∀ k, Reads (fun _ => True) 6 ((messageTable twice).read k) (messageCodec (ε := ε) k).item :=
    fun k => (messageCodec k).reads 6
  have hframe := @closed_received _ _ _ _ _ (messageTable twice) _ unknown hreads bytes header (messageSlots message)
  have hbody : ∀ e, messageBody unknown twice missing e = .ok message ↔
      closedSlots (messageTable twice) unknown e = .ok (messageSlots message) := fun _ => messageBody_ok
  simp only [hslots, ← hbody] at hframe
  exact hframe

end

end Km43.Handshake
