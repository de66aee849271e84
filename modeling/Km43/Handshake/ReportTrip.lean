import Km43.Handshake.Report
import Km43.Link.BodiesTrip

namespace Km43.Handshake

open Library Identity Cbor CborReader CborWriter Sealed Log Link

def textMax : ℕ := 2 + maxString

def topologyReportBytes : ℕ := 59

def maxHelloReport : ℕ := 71 + 2 * textMax + topologyReportBytes + 2 * 7 + 1

theorem nonZero_may (why : HandshakeError) (value : NonZeroU32) : (nonZeroCodec why).may value := by
  refine ⟨trivial, ?_⟩
  unfold nonZeroOr
  rw [NonZeroU32.new_get]

theorem session_may (session : SessionId) : sessionCodec.may session :=
  ⟨trivial, congrArg Except.ok (SessionId.ofRaw_raw session)⟩

def fixedItem (n : ℕ) (i : Item) : Option (Vector UInt8 n) :=
  i.bytes?.bind fun raw => if raw.length = n then some (fill n raw) else none

def nonZeroItem (i : Item) : Option NonZeroU32 := (u32Of i).bind NonZeroU32.new

theorem nonZero_bind {raw : Option UInt32} {n : NonZeroU32} : raw.bind NonZeroU32.new = some n ↔ raw = some n.get := by
  rw [Option.bind_eq_some_iff]
  constructor
  · rintro ⟨value, rfl, h⟩
    unfold NonZeroU32.new at h
    split_ifs at h
    cases h
    rfl
  · rintro rfl
    exact ⟨n.get, rfl, n.new_get⟩

theorem nonZero_holds {ps : List (Key × Item)} {n : ℤ} {value : NonZeroU32} :
    Holds ps n u32Of value.get ↔ Holds ps n nonZeroItem value := holds_congr fun _ => nonZero_bind.symm

theorem fixed_item {ε : Type} [FromCbor ε] (n : ℕ) (why : ℕ → ε) : (Codec.fixed n why).item = fixedItem n := by
  funext i
  change i.bytes?.bind (fun raw => (Codec.fixedOf n why raw).toOption) = fixedItem n i
  unfold fixedItem
  congr 1
  funext raw
  unfold Codec.fixedOf
  split_ifs
  · rfl
  · rfl

theorem nonZero_item (why : HandshakeError) : (nonZeroCodec why).item = nonZeroItem := by
  funext i
  change (u32Of i).bind (fun raw => (nonZeroOr why raw).toOption) = nonZeroItem i
  unfold nonZeroItem
  congr 1
  funext raw
  unfold nonZeroOr
  cases NonZeroU32.new raw with
  | none => rfl
  | some value => rfl

theorem session_item : sessionCodec.item = fun i => (u16Of i).map SessionId.ofRaw := by
  funext i
  change (u16Of i).bind (fun raw => (sessionOf raw).toOption) = _
  cases u16Of i with
  | none => rfl
  | some raw => rfl

namespace ReportKey

def all : List ReportKey :=
  [protocolMajor, protocolMinor, sessionId, fwController, fwComms, capabilities, logOldestSeq, logNewestSeq,
   stateSeq, timeKnown, maxSessions, maxChannels, maxClients, maxEventQueue, maxInflight, maxCmdDedup, rev,
   topoDigest, maxBuses, maxDevices, maxComponents, maxSignals, maxSeriesElements, maxParams, maxConcerns,
   maxSelectors, maxHistorySignals, maxTopologyDepth, clientId, generation]

theorem rising : all.Pairwise fun j k => BodyKey.number j < BodyKey.number k := by decide +kernel

theorem complete (k : ReportKey) : k ∈ all := by cases k <;> decide

theorem inOrder : InOrder all := ⟨rising, complete⟩

def keyWidth (k : ReportKey) : ℕ := if k.number < 24 then 1 else 2

def valueWidth : ReportKey → ℕ
  | protocolMajor | protocolMinor | maxSessions | maxChannels | maxClients | maxInflight | maxBuses |
    maxSelectors | maxTopologyDepth => 2
  | sessionId | maxEventQueue | maxCmdDedup | maxDevices | maxComponents | maxSignals | maxSeriesElements |
    maxParams | maxConcerns | maxHistorySignals => 3
  | fwController | fwComms => textMax
  | capabilities | rev | clientId | generation => 5
  | logOldestSeq | logNewestSeq | stateSeq | topoDigest => 9
  | timeKnown => 1

def takes : ∀ k, Item → Option (Value k)
  | protocolMajor => u8Of
  | protocolMinor => u8Of
  | sessionId => fun i => (u16Of i).map SessionId.ofRaw
  | fwController => Item.str?
  | fwComms => Item.str?
  | capabilities => u32Of
  | logOldestSeq => u64Of
  | logNewestSeq => u64Of
  | stateSeq => u64Of
  | timeKnown => Item.bool?
  | maxSessions => u8Of
  | maxChannels => u8Of
  | maxClients => u8Of
  | maxEventQueue => u16Of
  | maxInflight => u8Of
  | maxCmdDedup => u16Of
  | rev => u32Of
  | topoDigest => fixedItem 8
  | maxBuses => u8Of
  | maxDevices => u16Of
  | maxComponents => u16Of
  | maxSignals => u16Of
  | maxSeriesElements => u16Of
  | maxParams => u16Of
  | maxConcerns => u16Of
  | maxSelectors => u8Of
  | maxHistorySignals => u16Of
  | maxTopologyDepth => u8Of
  | clientId => nonZeroItem
  | generation => nonZeroItem

theorem codec_takes (k : ReportKey) : (codec k).item = takes k := by
  cases k with
  | sessionId => exact session_item
  | topoDigest => exact fixed_item 8 _
  | clientId | generation => exact nonZero_item _
  | protocolMajor | protocolMinor | fwController | fwComms | capabilities | logOldestSeq | logNewestSeq | stateSeq |
    timeKnown | maxSessions | maxChannels | maxClients | maxEventQueue | maxInflight | maxCmdDedup | rev | maxBuses |
    maxDevices | maxComponents | maxSignals | maxSeriesElements | maxParams | maxConcerns | maxSelectors |
    maxHistorySignals | maxTopologyDepth => rfl

theorem key_length (k : ReportKey) : (Key.ofNat (BodyKey.number k)).spelling.length = k.keyWidth := by
  cases k <;> decide

theorem widths : 2 + (all.map fun k => k.keyWidth + k.valueWidth).sum = maxHelloReport := by decide +kernel

end ReportKey

namespace HelloReport

def field (report : HelloReport) : ∀ k, ReportKey.Value k
  | .protocolMajor => report.version.major
  | .protocolMinor => report.version.minor
  | .sessionId => report.session
  | .fwController => report.fwController
  | .fwComms => report.fwComms
  | .capabilities => report.capabilities
  | .logOldestSeq => report.logOldestSeq
  | .logNewestSeq => report.logNewestSeq
  | .stateSeq => report.stateSeq
  | .timeKnown => report.timeKnown
  | .maxSessions => report.caps.sessions
  | .maxChannels => report.caps.channels
  | .maxClients => report.caps.clients
  | .maxEventQueue => report.caps.eventQueue
  | .maxInflight => report.caps.inflight
  | .maxCmdDedup => report.caps.cmdDedup
  | .rev => report.topology.rev
  | .topoDigest => report.topology.digest
  | .maxBuses => report.topology.buses
  | .maxDevices => report.topology.devices
  | .maxComponents => report.topology.components
  | .maxSignals => report.topology.signals
  | .maxSeriesElements => report.topology.seriesElements
  | .maxParams => report.topology.params
  | .maxConcerns => report.topology.concerns
  | .maxSelectors => report.topology.selectors
  | .maxHistorySignals => report.topology.historySignals
  | .maxTopologyDepth => report.topology.topologyDepth
  | .clientId => report.clientId
  | .generation => report.generation

def items (report : HelloReport) : List (ReportKey × Item) := fullItems ReportKey.codec ReportKey.all report.field

structure Fits (report : HelloReport) : Prop where
  controller : report.fwController.raw.length ≤ maxString
  comms : report.fwComms.raw.length ≤ maxString

theorem maySend {report : HelloReport} (h : report.Fits) (k : ReportKey) : (ReportKey.codec k).may (report.field k) := by
  cases k with
  | fwController => exact h.controller
  | fwComms => exact h.comms
  | sessionId => exact session_may _
  | topoDigest => exact Codec.fixed_may (by decide) _ _
  | clientId | generation => exact nonZero_may _ _
  | protocolMajor | protocolMinor | capabilities | logOldestSeq | logNewestSeq | stateSeq | timeKnown |
    maxSessions | maxChannels | maxClients | maxEventQueue | maxInflight | maxCmdDedup | rev | maxBuses |
    maxDevices | maxComponents | maxSignals | maxSeriesElements | maxParams | maxConcerns | maxSelectors |
    maxHistorySignals | maxTopologyDepth => trivial

theorem value_length {report : HelloReport} (h : report.Fits) (k : ReportKey) :
    ((ReportKey.codec k).spell (report.field k)).spelling.length ≤ k.valueWidth := by
  have htext : ∀ text : Str, text.raw.length ≤ maxString → (Item.ofText text).spelling.length ≤ textMax := by
    intro text hshort
    have hhead := (headBytes_le .text (n := text.raw.length)).2.2.2.1 (hshort.trans (by decide))
    rw [Item.ofText, Item.spelling, Token.spelling, List.length_append]
    exact Nat.add_le_add hhead hshort
  cases k with
  | fwController => exact htext _ h.controller
  | fwComms => exact htext _ h.comms
  | sessionId => exact ofNat_length_u16 _
  | timeKnown => exact le_rfl
  | topoDigest =>
    have hlen : report.topology.digest.toList.length = 8 := report.topology.digest.length_toList
    change (Item.ofBytes report.topology.digest.toList).spelling.length ≤ 9
    rw [Item.ofBytes, Item.spelling, Token.spelling, List.length_append, hlen]
    decide
  | clientId | generation => exact ofNat_length_u32 _
  | protocolMajor | protocolMinor | maxSessions | maxChannels | maxClients | maxInflight | maxBuses |
    maxSelectors | maxTopologyDepth => exact ofNat_length_u8 _
  | maxEventQueue | maxCmdDedup | maxDevices | maxComponents | maxSignals | maxSeriesElements | maxParams |
    maxConcerns | maxHistorySignals => exact ofNat_length_u16 _
  | capabilities | rev => exact ofNat_length_u32 _
  | logOldestSeq | logNewestSeq | stateSeq => exact ofNat_length_u64 _

theorem items_length {report : HelloReport} (h : report.Fits) :
    (bodyItem report.items).spelling.length ≤ maxHelloReport := by
  have hwidth : ∀ k : ReportKey, (Key.ofNat (BodyKey.number k)).spelling.length +
      ((ReportKey.codec k).spell (report.field k)).spelling.length ≤ k.keyWidth + k.valueWidth :=
    fun k => Nat.add_le_add k.key_length.le (value_length h k)
  have hfew : ReportKey.all.length < 256 := by decide
  exact (fullItems_length hfew hwidth).trans ReportKey.widths.le

theorem completeCaps_ok {s : table.Slots} {caps : Caps} : completeCaps s = .ok caps ↔
    s .maxSessions = some caps.sessions ∧ s .maxChannels = some caps.channels ∧ s .maxClients = some caps.clients ∧
      s .maxEventQueue = some caps.eventQueue ∧ s .maxInflight = some caps.inflight ∧
      s .maxCmdDedup = some caps.cmdDedup := by
  simp only [completeCaps, bind_ok, taken, slotRequired_ok]
  constructor
  · rintro ⟨sessions, h₁, channels, h₂, clients, h₃, eventQueue, h₄, inflight, h₅, cmdDedup, h₆, ⟨⟩⟩
    exact ⟨h₁, h₂, h₃, h₄, h₅, h₆⟩
  · rintro ⟨h₁, h₂, h₃, h₄, h₅, h₆⟩
    exact ⟨_, h₁, _, h₂, _, h₃, _, h₄, _, h₅, _, h₆, rfl⟩

theorem completeTopology_ok {s : table.Slots} {t : Topology} : completeTopology s = .ok t ↔
    s .rev = some t.rev ∧ s .topoDigest = some t.digest ∧ s .maxBuses = some t.buses ∧
      s .maxDevices = some t.devices ∧ s .maxComponents = some t.components ∧ s .maxSignals = some t.signals ∧
      s .maxSeriesElements = some t.seriesElements ∧ s .maxParams = some t.params ∧
      s .maxConcerns = some t.concerns ∧ s .maxSelectors = some t.selectors ∧
      s .maxHistorySignals = some t.historySignals ∧ s .maxTopologyDepth = some t.topologyDepth := by
  simp only [completeTopology, bind_ok, taken, slotRequired_ok]
  constructor
  · rintro ⟨rev, h₁, digest, h₂, buses, h₃, devices, h₄, components, h₅, signals, h₆, seriesElements, h₇, params, h₈,
      concerns, h₉, selectors, h₁₀, historySignals, h₁₁, topologyDepth, h₁₂, ⟨⟩⟩
    exact ⟨h₁, h₂, h₃, h₄, h₅, h₆, h₇, h₈, h₉, h₁₀, h₁₁, h₁₂⟩
  · rintro ⟨h₁, h₂, h₃, h₄, h₅, h₆, h₇, h₈, h₉, h₁₀, h₁₁, h₁₂⟩
    exact ⟨_, h₁, _, h₂, _, h₃, _, h₄, _, h₅, _, h₆, _, h₇, _, h₈, _, h₉, _, h₁₀, _, h₁₁, _, h₁₂, rfl⟩

theorem complete_ok {s : table.Slots} {report : HelloReport} :
    complete s = .ok report ↔ s = fun k => some (report.field k) := by
  simp only [complete, bind_ok, completeCaps_ok, completeTopology_ok, taken, slotRequired_ok]
  constructor
  · rintro ⟨major, h₁, minor, h₂, session, h₃, fwController, h₄, fwComms, h₅, capabilities, h₆, logOldestSeq, h₇,
      logNewestSeq, h₈, stateSeq, h₉, timeKnown, h₁₀, caps, ⟨c₁, c₂, c₃, c₄, c₅, c₆⟩, topology,
      ⟨t₁, t₂, t₃, t₄, t₅, t₆, t₇, t₈, t₉, t₁₀, t₁₁, t₁₂⟩, clientId, h₁₁, generation, h₁₂, ⟨⟩⟩
    funext k
    cases k <;> assumption
  · rintro rfl
    exact ⟨_, rfl, _, rfl, _, rfl, _, rfl, _, rfl, _, rfl, _, rfl, _, rfl, _, rfl, _, rfl, report.caps,
      ⟨rfl, rfl, rfl, rfl, rfl, rfl⟩, report.topology,
      ⟨rfl, rfl, rfl, rfl, rfl, rfl, rfl, rfl, rfl, rfl, rfl, rfl⟩, _, rfl, _, rfl, rfl⟩

theorem withinCeiling_ok {caps : Caps} : caps.withinCeiling = .ok () ↔ caps.channels ≤ Caps.channelCeiling := by
  unfold Caps.withinCeiling
  rw [← UInt8.not_lt]
  split_ifs with h <;> simp [h]

theorem judge_ok {envelope : SessionId} {s : table.Slots} {report : HelloReport} : judge envelope s = .ok report ↔
    (s = fun k => some (report.field k)) ∧ report.session = envelope ∧ report.caps.channels ≤ Caps.channelCeiling := by
  unfold judge
  rw [bind_ok]
  constructor
  · rintro ⟨found, hfound, h⟩
    split_ifs at h with hsession
    obtain ⟨⟨⟩, hceiling, ⟨⟩⟩ := bind_ok.mp h
    exact ⟨complete_ok.mp hfound, not_not.mp hsession, withinCeiling_ok.mp hceiling⟩
  · rintro ⟨hs, hsession, hceiling⟩
    refine ⟨report, complete_ok.mpr hs, ?_⟩
    rw [if_neg (not_not.mpr hsession)]
    exact bind_ok.mpr ⟨(), withinCeiling_ok.mpr hceiling, rfl⟩

theorem decode_exact (payload : Bytes) (envelope : SessionId) (report : HelloReport) :
    decode payload envelope = .ok report ↔
      (∃ w ps, (Item.map w ps).Legal maxDepth ∧ (Item.map w ps).spelling = payload ∧ Keyed ps ∧
        ∀ k : ReportKey, Holds ps k.number k.takes (report.field k)) ∧
      report.session = envelope ∧ report.caps.channels ≤ Caps.channelCeiling := by
  have hdecodes : table.Decodes fun k => (ReportKey.codec k).item := full_decodes ReportKey.codec _
  have hstands := stands_full ReportKey.codec (fun k => .duplicate (.report k)) report.field payload
  have hslots : decodeBody table.slots payload = .ok (fun k => some (report.field k)) ↔ _ :=
    (hdecodes payload fun k => some (report.field k)).trans hstands
  have htakes : ∀ k : ReportKey, (ReportKey.codec k).item = k.takes := ReportKey.codec_takes
  simp only [htakes] at hslots
  rw [decode, Table.decode, bind_ok]
  constructor
  · rintro ⟨s, hs, hjudge⟩
    obtain ⟨rfl, hsession, hceiling⟩ := judge_ok.mp hjudge
    exact ⟨hslots.mp hs, hsession, hceiling⟩
  · rintro ⟨hmap, hsession, hceiling⟩
    exact ⟨_, hslots.mpr hmap, judge_ok.mpr ⟨rfl, hsession, hceiling⟩⟩

section

variable (report : HelloReport)

def calls : List (ReportKey × List Call) := fullCalls ReportKey.codec ReportKey.all report.field

theorem encodeCap_tells (k : ReportKey) (n : UInt64) : Tells (Topology.encodeCap (k, n.toNat)) [keyCall k, .u64 n] :=
  .entry k (.u64 n)

def capsCalls (caps : Caps) : List Call :=
  [keyCall ReportKey.maxSessions, .u64 caps.sessions.toUInt64, keyCall ReportKey.maxChannels, .u64 caps.channels.toUInt64,
    keyCall ReportKey.maxClients, .u64 caps.clients.toUInt64, keyCall ReportKey.maxEventQueue,
    .u64 caps.eventQueue.toUInt64, keyCall ReportKey.maxInflight, .u64 caps.inflight.toUInt64,
    keyCall ReportKey.maxCmdDedup, .u64 caps.cmdDedup.toUInt64]

theorem caps_tells (caps : Caps) : Tells caps.encode (capsCalls caps) := by
  unfold Caps.encode capsCalls
  refine .entryCons ReportKey.maxSessions (.u64 caps.sessions.toUInt64) ?_
  refine .entryCons ReportKey.maxChannels (.u64 caps.channels.toUInt64) ?_
  refine .entryCons ReportKey.maxClients (.u64 caps.clients.toUInt64) ?_
  refine .entryCons ReportKey.maxEventQueue (.u64 caps.eventQueue.toUInt64) ?_
  refine .entryCons ReportKey.maxInflight (.u64 caps.inflight.toUInt64) ?_
  exact .entry ReportKey.maxCmdDedup (.u64 caps.cmdDedup.toUInt64)

def topologyCalls (t : Topology) : List Call :=
  keyCall ReportKey.rev :: .u64 t.rev.toUInt64 :: keyCall ReportKey.topoDigest :: .bytes t.digest.toList :: [
    keyCall ReportKey.maxBuses, .u64 t.buses.toUInt64,
    keyCall ReportKey.maxDevices, .u64 t.devices.toUInt64,
    keyCall ReportKey.maxComponents, .u64 t.components.toUInt64,
    keyCall ReportKey.maxSignals, .u64 t.signals.toUInt64,
    keyCall ReportKey.maxSeriesElements, .u64 t.seriesElements.toUInt64,
    keyCall ReportKey.maxParams, .u64 t.params.toUInt64,
    keyCall ReportKey.maxConcerns, .u64 t.concerns.toUInt64,
    keyCall ReportKey.maxSelectors, .u64 t.selectors.toUInt64,
    keyCall ReportKey.maxHistorySignals, .u64 t.historySignals.toUInt64,
    keyCall ReportKey.maxTopologyDepth, .u64 t.topologyDepth.toUInt64]

theorem topology_tells (t : Topology) : Tells t.encode (topologyCalls t) := by
  refine .entryCons ReportKey.rev (.u64 t.rev.toUInt64) ?_
  refine .entryCons ReportKey.topoDigest (.bytes t.digest.toList) ?_
  refine (encodeCap_tells .maxBuses t.buses.toUInt64).append ?_
  refine (encodeCap_tells .maxDevices t.devices.toUInt64).append ?_
  refine (encodeCap_tells .maxComponents t.components.toUInt64).append ?_
  refine (encodeCap_tells .maxSignals t.signals.toUInt64).append ?_
  refine (encodeCap_tells .maxSeriesElements t.seriesElements.toUInt64).append ?_
  refine (encodeCap_tells .maxParams t.params.toUInt64).append ?_
  refine (encodeCap_tells .maxConcerns t.concerns.toUInt64).append ?_
  refine (encodeCap_tells .maxSelectors t.selectors.toUInt64).append ?_
  refine (encodeCap_tells .maxHistorySignals t.historySignals.toUInt64).append ?_
  refine (encodeCap_tells .maxTopologyDepth t.topologyDepth.toUInt64).append ?_
  exact .none

theorem encodeInto_tells : Tells report.encodeInto (.map 30 :: entryCalls report.calls) := by
  have hcalls : entryCalls report.calls = [
      keyCall ReportKey.protocolMajor, .u64 report.version.major.toUInt64,
      keyCall ReportKey.protocolMinor, .u64 report.version.minor.toUInt64,
      keyCall ReportKey.sessionId, .u64 report.session.raw.toUInt64,
      keyCall ReportKey.fwController, .text report.fwController,
      keyCall ReportKey.fwComms, .text report.fwComms,
      keyCall ReportKey.capabilities, .u64 report.capabilities.toUInt64,
      keyCall ReportKey.logOldestSeq, .u64 report.logOldestSeq,
      keyCall ReportKey.logNewestSeq, .u64 report.logNewestSeq,
      keyCall ReportKey.stateSeq, .u64 report.stateSeq,
      keyCall ReportKey.timeKnown, .bool report.timeKnown] ++
      (capsCalls report.caps ++ (topologyCalls report.topology ++ [
      keyCall ReportKey.clientId, .u64 report.clientId.get.toUInt64,
      keyCall ReportKey.generation, .u64 report.generation.get.toUInt64])) := rfl
  rw [hcalls]
  refine .cons (c := .map 30) ?_
  refine .entryCons ReportKey.protocolMajor (.u64 report.version.major.toUInt64) ?_
  refine .entryCons ReportKey.protocolMinor (.u64 report.version.minor.toUInt64) ?_
  refine .entryCons ReportKey.sessionId (.u64 report.session.raw.toUInt64) ?_
  refine .entryCons ReportKey.fwController (.text report.fwController) ?_
  refine .entryCons ReportKey.fwComms (.text report.fwComms) ?_
  refine .entryCons ReportKey.capabilities (.u64 report.capabilities.toUInt64) ?_
  refine .entryCons ReportKey.logOldestSeq (.u64 report.logOldestSeq) ?_
  refine .entryCons ReportKey.logNewestSeq (.u64 report.logNewestSeq) ?_
  refine .entryCons ReportKey.stateSeq (.u64 report.stateSeq) ?_
  refine .entryCons ReportKey.timeKnown (.bool report.timeKnown) ?_
  refine (caps_tells report.caps).append ((topology_tells report.topology).append ?_)
  refine .entryCons ReportKey.clientId (.u64 report.clientId.get.toUInt64) ?_
  exact .entry ReportKey.generation (.u64 report.generation.get.toUInt64)

theorem encodeInto_fits {dst : ℕ} {out : Bytes} (h : encodeBody report.encodeInto dst = .ok out) : report.Fits := by
  obtain ⟨w, w', len, hw, -⟩ := (encodeBody_ok report.encodeInto_tells).mp h
  have hcalls : ∀ k, ∀ c ∈ (ReportKey.codec k).calls (report.field k), c ∈ Call.map 30 :: entryCalls report.calls := by
    intro k c hc
    refine List.mem_cons_of_mem _ (List.mem_flatMap.mpr ⟨_, List.mem_map.mpr ⟨k, ReportKey.complete k, rfl⟩, ?_⟩)
    exact List.mem_cons_of_mem _ hc
  constructor
  · exact writeAll_text hw (hcalls .fwController _ (List.mem_singleton_self _))
  · exact writeAll_text hw (hcalls .fwComms _ (List.mem_singleton_self _))

theorem encode_iff {dst : ℕ} {out : Bytes} : report.encode dst = .ok out ↔ report.caps.channels ≤ Caps.channelCeiling ∧
    report.Fits ∧ out = (bodyItem report.items).spelling ∧ (bodyItem report.items).spelling.length ≤ dst := by
  have hbody : report.Fits → (encodeBody report.encodeInto dst = .ok out ↔
      out = (bodyItem report.items).spelling ∧ (bodyItem report.items).spelling.length ≤ dst) := fun hfits =>
    encodeBody_item report.encodeInto_tells
      (bodyItem_writes (fullItems_spelled (maySend hfits) 7) (fullItems_rising ReportKey.inOrder) rfl)
  unfold encode
  rw [seq_ok, withinCeiling_ok]
  constructor
  · rintro ⟨hceiling, h⟩
    have hfits := report.encodeInto_fits h
    exact ⟨hceiling, hfits, (hbody hfits).mp h⟩
  · rintro ⟨hceiling, hfits, h⟩
    exact ⟨hceiling, (hbody hfits).mpr h⟩

theorem decode_encode {dst : ℕ} {out : Bytes} (h : report.encode dst = .ok out) :
    decode out report.session = .ok report ∧ out.length ≤ maxHelloReport := by
  obtain ⟨hceiling, hfits, rfl, -⟩ := report.encode_iff.mp h
  refine ⟨bind_ok.mpr ⟨_, fullItems_decode ReportKey.inOrder (maySend hfits), ?_⟩, items_length hfits⟩
  exact judge_ok.mpr ⟨rfl, rfl, hceiling⟩

end

end HelloReport

end Km43.Handshake
