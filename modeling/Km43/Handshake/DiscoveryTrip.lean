import Km43.Handshake.ReportTrip
import Km43.Link.FrameLaws

namespace Km43.Handshake

open Library Identity Cbor CborReader CborWriter Sealed Log Link

namespace DiscoverKey

def all : List DiscoverKey :=
  [protocolMajor, protocolMinor, deviceId, model, provisioned, pairingOpen, challenge, epoch]

theorem rising : all.Pairwise fun j k => BodyKey.number j < BodyKey.number k := by decide

theorem complete (k : DiscoverKey) : k ∈ all := by cases k <;> decide

theorem inOrder : InOrder all := ⟨rising, complete⟩

def takes : ∀ k, Item → Option (Value k)
  | protocolMajor => u8Of
  | protocolMinor => u8Of
  | deviceId => fixedItem 16
  | model => Item.str?
  | provisioned => Item.bool?
  | pairingOpen => Item.bool?
  | challenge => fixedItem 16
  | epoch => nonZeroItem

theorem codec_takes (k : DiscoverKey) : (codec k).item = takes k := by
  cases k with
  | deviceId | challenge => exact fixed_item 16 _
  | epoch => exact nonZero_item _
  | protocolMajor | protocolMinor | model | provisioned | pairingOpen => rfl

end DiscoverKey

def frameHead (header : Header) : FrameHead := ⟨header.kind.byte, header.session, header.reqId⟩

section

variable {ε κ : Type} [DecidableEq κ] [BodyKey κ] [FromCbor ε] {t : Table ε κ}
  {item : ∀ k, Item → Option (t.Value k)}

theorem envelope_received (arms : ∀ k, t.Arm 6 item k) (bytes : Bytes) (header : Header) (s : t.Slots) :
    (∃ e, Envelope.decode bytes = .ok e ∧ e.header = header ∧
        bodySlots t ⟨e.header.kind.byte, e.header.session, e.header.reqId, e.keys, e.body⟩ = .ok s) ↔
      ∃ f : Frame, f.item.Legal maxDepth ∧ f.item.spelling = bytes ∧ f.Scalars (frameHead header) ∧ Keyed f.pairs ∧
        ∀ k, Table.SlotOf item f.pairs s k := by
  rw [← received arms]
  constructor
  · rintro ⟨e, he, rfl, hs⟩
    exact ⟨_, Link.decode_ok.mp he, rfl, hs⟩
  · rintro ⟨⟨opcode, session, reqId, keys, body⟩, he, hhead, hs⟩
    obtain ⟨rfl, rfl, rfl⟩ := FrameHead.mk.inj hhead
    exact ⟨⟨header, keys, body⟩, Link.decode_ok.mpr he, rfl, hs⟩

end

namespace Discovery

def field (d : Discovery) : ∀ k, DiscoverKey.Value k
  | .protocolMajor => d.version.major
  | .protocolMinor => d.version.minor
  | .deviceId => d.deviceId
  | .model => d.model
  | .provisioned => d.provisioned
  | .pairingOpen => d.pairingOpen
  | .challenge => d.challenge
  | .epoch => d.epoch

def items (d : Discovery) : List (DiscoverKey × Item) := fullItems DiscoverKey.codec DiscoverKey.all d.field

def calls (d : Discovery) : List (DiscoverKey × List Call) := fullCalls DiscoverKey.codec DiscoverKey.all d.field

theorem maySend {d : Discovery} (h : d.model.raw.length ≤ maxString) (k : DiscoverKey) :
    (DiscoverKey.codec k).may (d.field k) := by
  cases k with
  | model => exact h
  | deviceId => exact Codec.fixed_may (by decide) _ d.deviceId
  | challenge => exact Codec.fixed_may (by decide) _ d.challenge
  | epoch => exact nonZero_may _ _
  | protocolMajor | protocolMinor | provisioned | pairingOpen => trivial

theorem complete_ok {s : table.Slots} {d : Discovery} : complete s = .ok d ↔ s = fun k => some (d.field k) := by
  simp only [complete, bind_ok, taken, slotRequired_ok]
  constructor
  · rintro ⟨major, h₁, minor, h₂, deviceId, h₃, model, h₄, provisioned, h₅, pairingOpen, h₆, challenge, h₇, epoch, h₈,
      ⟨⟩⟩
    funext k
    cases k <;> assumption
  · rintro rfl
    exact ⟨_, rfl, _, rfl, _, rfl, _, rfl, _, rfl, _, rfl, _, rfl, _, rfl, rfl⟩

theorem expected_ok {header : Header} {kind : MessageType} : expected header kind = .ok () ↔ header.kind = kind := by
  unfold expected
  split_ifs with h <;> simp [h]

theorem encodeInto_tells (d : Discovery) (header : Header) : Tells (d.encodeInto header)
    (scalarCalls header.kind.byte header.session header.reqId 8 ++ entryCalls d.calls) := by
  have hheader : Tells (mapErr (fun why => HandshakeError.envelope (.cbor why)) (header.write DiscoverKey.count))
      (scalarCalls header.kind.byte header.session header.reqId 8) := by
    intro w w'
    rw [mapErr_ok, header_write, ← writeScalars_calls]
    rfl
  have hcalls : entryCalls d.calls = [
      keyCall DiscoverKey.protocolMajor, .u64 d.version.major.toUInt64,
      keyCall DiscoverKey.protocolMinor, .u64 d.version.minor.toUInt64,
      keyCall DiscoverKey.deviceId, .bytes d.deviceId.toList,
      keyCall DiscoverKey.model, .text d.model,
      keyCall DiscoverKey.provisioned, .bool d.provisioned,
      keyCall DiscoverKey.pairingOpen, .bool d.pairingOpen,
      keyCall DiscoverKey.challenge, .bytes d.challenge.toList,
      keyCall DiscoverKey.epoch, .u64 d.epoch.get.toUInt64] := rfl
  rw [hcalls]
  refine hheader.append ?_
  refine .entryCons DiscoverKey.protocolMajor (.u64 d.version.major.toUInt64) ?_
  refine .entryCons DiscoverKey.protocolMinor (.u64 d.version.minor.toUInt64) ?_
  refine .entryCons DiscoverKey.deviceId (.bytes d.deviceId.toList) ?_
  refine .entryCons DiscoverKey.model (.text d.model) ?_
  refine .entryCons DiscoverKey.provisioned (.bool d.provisioned) ?_
  refine .entryCons DiscoverKey.pairingOpen (.bool d.pairingOpen) ?_
  refine .entryCons DiscoverKey.challenge (.bytes d.challenge.toList) ?_
  exact .entry DiscoverKey.epoch (.u64 d.epoch.get.toUInt64)

def frame (d : Discovery) (header : Header) : Frame := written (frameHead header) d.items

theorem write_iff {d : Discovery} {header : Header} {dst : ℕ} {out : Bytes} : d.write header dst = .ok out ↔
    header.kind = .discoverResponse ∧ d.model.raw.length ≤ maxString ∧ out = (d.frame header).item.spelling ∧
      (d.frame header).item.spelling.length ≤ dst := by
  have hbody : d.model.raw.length ≤ maxString → (encodeBody (d.encodeInto header) dst = .ok out ↔
      out = (d.frame header).item.spelling ∧ (d.frame header).item.spelling.length ≤ dst) := fun hmodel =>
    encodeBody_item (d.encodeInto_tells header) (frame_writes (fullItems_spelled (maySend hmodel) 6)
      (fullItems_rising DiscoverKey.inOrder) rfl (frameHead header))
  unfold write
  rw [seq_ok, expected_ok]
  constructor
  · rintro ⟨hkind, h⟩
    obtain ⟨w, w', len, hw, -⟩ := (encodeBody_ok (d.encodeInto_tells header)).mp h
    have hmem : Call.text d.model ∈ entryCalls d.calls := by simp [entryCalls, calls, fullCalls, DiscoverKey.all,
      DiscoverKey.codec, field, Codec.text]
    have hmodel := writeAll_text hw (List.mem_append_right _ hmem)
    exact ⟨hkind, hmodel, (hbody hmodel).mp h⟩
  · rintro ⟨hkind, hmodel, h⟩
    exact ⟨hkind, (hbody hmodel).mpr h⟩

theorem decode_ok {e : Envelope} {d : Discovery} : decode e = .ok d ↔ e.header.kind = .discoverResponse ∧
    bodySlots table ⟨e.header.kind.byte, e.header.session, e.header.reqId, e.keys, e.body⟩ =
      .ok fun k => some (d.field k) := by
  unfold decode bodySlots
  rw [seq_ok, expected_ok]
  simp only [bind_ok, Prod.exists, complete_ok, Except.ok.injEq]
  apply and_congr_right
  intro hkind
  constructor
  · rintro ⟨s, r, hpairs, u, hfinish, rfl⟩
    exact ⟨_, r, hpairs, u, hfinish, rfl⟩
  · rintro ⟨s, r, hpairs, u, hfinish, rfl⟩
    exact ⟨_, r, hpairs, u, hfinish, rfl⟩

def Received (bytes : Bytes) (header : Header) (d : Discovery) : Prop :=
  ∃ e, Envelope.decode bytes = .ok e ∧ e.header = header ∧ decode e = .ok d

theorem received_exact (bytes : Bytes) (header : Header) (d : Discovery) : Received bytes header d ↔
    header.kind = .discoverResponse ∧ ∃ f : Frame, f.item.Legal maxDepth ∧ f.item.spelling = bytes ∧
      f.Scalars (frameHead header) ∧ Keyed f.pairs ∧ ∀ k : DiscoverKey, Holds f.pairs k.number k.takes (d.field k) := by
  have harms : ∀ k, table.Arm 6 (fun k => (DiscoverKey.codec k).item) k := fun k => .typed ((DiscoverKey.codec k).reads 6)
  have hslots := envelope_received harms bytes header fun k => some (d.field k)
  have htakes : ∀ k : DiscoverKey, (DiscoverKey.codec k).item = k.takes := DiscoverKey.codec_takes
  have hholds : ∀ f : Frame, (∀ k, Table.SlotOf (fun k => (DiscoverKey.codec k).item) f.pairs (t := table)
      (fun k => some (d.field k)) k) ↔ ∀ k : DiscoverKey, Holds f.pairs k.number k.takes (d.field k) := by
    intro f
    apply forall_congr'
    intro k
    rw [← htakes k]
    exact Table.slotOf_holds rfl
  simp only [hholds] at hslots
  rw [← hslots]
  constructor
  · rintro ⟨e, he, rfl, hd⟩
    obtain ⟨hkind, hs⟩ := decode_ok.mp hd
    exact ⟨hkind, e, he, rfl, hs⟩
  · rintro ⟨hkind, e, he, rfl, hs⟩
    exact ⟨e, he, rfl, decode_ok.mpr ⟨hkind, hs⟩⟩

theorem received_write {d : Discovery} {header : Header} {dst : ℕ} {out : Bytes} (h : d.write header dst = .ok out) :
    Received out header d := by
  obtain ⟨hkind, hmodel, rfl, -⟩ := write_iff.mp h
  have hrise : Rising d.items := fullItems_rising DiscoverKey.inOrder
  have hlegal : ∀ e ∈ d.items, e.2.Legal 6 := fullItems_legal (maySend hmodel) 6
  have hbody : (bodyItem d.items).Legal 7 := bodyItem_legal hrise hlegal
  have hfold : foldPairs (Table.take (t := table) fun k => (DiscoverKey.codec k).item) (keyedPairs d.items) table.none =
      some fun k => some (d.field k) :=
    Table.fold_entries hrise.keys (fullItems_taken (maySend hmodel)) fun _ => fullItems_rest DiscoverKey.inOrder
  obtain ⟨hkeyed, hslots⟩ := (Table.fold_slots hbody.2.1 _).mp hfold
  refine (received_exact _ header d).mpr ⟨hkind, d.frame header, written_legal hrise hlegal, rfl, written_scalars _ _,
    hkeyed, ?_⟩
  intro k
  rw [← DiscoverKey.codec_takes k]
  exact (Table.slotOf_holds rfl).mp (hslots k)

end Discovery

/-- A hello's report and a discovery are each decoded to what was written, and to nothing but what their bytes say. -/
theorem hello_and_discovery :
    (∀ (report : HelloReport) (dst : ℕ) (out : Bytes), report.encode dst = .ok out →
      HelloReport.decode out report.session = .ok report ∧ out.length ≤ maxHelloReport) ∧
    (∀ (d : Discovery) (header : Header) (dst : ℕ) (out : Bytes), d.write header dst = .ok out →
      Discovery.Received out header d) ∧
    (∀ (payload : Bytes) (envelope : SessionId) (report : HelloReport),
      HelloReport.decode payload envelope = .ok report ↔
        (∃ w ps, (Item.map w ps).Legal maxDepth ∧ (Item.map w ps).spelling = payload ∧ Keyed ps ∧
          ∀ k : ReportKey, Holds ps k.number k.takes (report.field k)) ∧
        report.session = envelope ∧ report.caps.channels ≤ Caps.channelCeiling) ∧
    (∀ (bytes : Bytes) (header : Header) (d : Discovery), Discovery.Received bytes header d ↔
      header.kind = .discoverResponse ∧ ∃ f : Frame, f.item.Legal maxDepth ∧ f.item.spelling = bytes ∧
        f.Scalars (frameHead header) ∧ Keyed f.pairs ∧
          ∀ k : DiscoverKey, Holds f.pairs k.number k.takes (d.field k)) := by
  refine ⟨?_, ?_, HelloReport.decode_exact, Discovery.received_exact⟩
  · intro report dst out h
    exact report.decode_encode h
  · intro d header dst out h
    exact Discovery.received_write h

end Km43.Handshake
