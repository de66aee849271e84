import Km43.Cbor.Carried
import Km43.Cbor.Cells
import Km43.Wifi.Status

namespace Km43.Wifi

open Library Cbor CborReader CborWriter Link

namespace Radio

def owedReason : Radio → Option WifiFailure
  | failed reason => some reason
  | off | joining | joined _ => none

def owedIpv4 : Radio → Option Bytes
  | joined ipv4 => some ipv4.toList
  | off | joining | failed _ => none

theorem owedIpv4_may {radio : Radio} {octets : Bytes} (h : radio.owedIpv4 = some octets) : octets.length < 2 ^ 64 := by
  cases radio with
  | off | joining | failed reason => cases h
  | joined ipv4 =>
    obtain rfl := Option.some.inj h
    rw [ipv4.length_toList]
    decide

theorem of_ok {state : WifiState} {reason : Option WifiFailure} {ipv4 : Option Bytes} {radio : Radio} :
    of state reason ipv4 = .ok radio ↔ state = radio.state ∧ reason = radio.owedReason ∧ ipv4 = radio.owedIpv4 := by
  constructor
  · intro h
    unfold of at h
    split_ifs at h with hreason hipv4
    cases state with
    | off | joining =>
      cases h
      exact ⟨rfl, by simpa [owedReason] using hreason, by simpa [owedIpv4] using hipv4⟩
    | joined =>
      cases ipv4 with
      | none => cases h
      | some octets =>
        obtain ⟨ipv4, hfixed, h⟩ := bind_ok.mp h
        cases h
        exact ⟨rfl, by simpa [owedReason] using hreason, congrArg some (Codec.fixedOf_only 4 _ _ _ hfixed).symm⟩
    | failed =>
      cases reason with
      | none => cases h
      | some reason =>
        cases h
        exact ⟨rfl, rfl, by simpa [owedIpv4] using hipv4⟩
  · rintro ⟨rfl, rfl, rfl⟩
    cases radio with
    | off | joining | failed reason => rfl
    | joined ipv4 => exact bind_ok.mpr ⟨ipv4, Codec.fixedOf_toList _ ipv4, rfl⟩

end Radio

theorem StatusKeys.report_ok {s : StatusKeys} {found : Option RadioReport} : s.report = .ok found ↔
    s.version = found.map RadioReport.version ∧ s.state = found.map (fun report => report.radio.state) ∧
      s.reason = found.bind (fun report => report.radio.owedReason) ∧
      s.ipv4 = found.bind (fun report => report.radio.owedIpv4) := by
  unfold StatusKeys.report
  obtain ⟨sectionVersion, version, state, reason, ipv4⟩ := s
  cases version with
  | none =>
    cases state with
    | none =>
      cases reason with
      | some reason => cases found <;> simp
      | none =>
        cases ipv4 with
        | some octets => cases found <;> simp
        | none => cases found <;> simp
    | some state => cases found <;> simp
  | some version =>
    cases state with
    | none => cases found <;> simp
    | some state =>
      cases found with
      | none => simp [bind_ok]
      | some report =>
        simp only [bind_ok, Radio.of_ok, Except.ok.injEq, Option.some.injEq, Option.map_some, Option.bind_some]
        constructor
        · rintro ⟨radio, ⟨rfl, rfl, rfl⟩, rfl⟩
          exact ⟨rfl, rfl, rfl, rfl⟩
        · rintro ⟨rfl, rfl, rfl, rfl⟩
          exact ⟨_, ⟨rfl, rfl, rfl⟩, rfl⟩

inductive StatusKey
  | sectionVersion
  | version
  | state
  | reason
  | ipv4
  deriving DecidableEq

namespace StatusKey

def all : List StatusKey := [sectionVersion, version, state, reason, ipv4]

theorem keyList : KeyList all := ⟨by decide, fun k => by cases k <;> decide, by decide⟩

instance : Listed StatusKey := ⟨all, keyList⟩

def field : StatusKey → WifiField
  | sectionVersion => .section
  | version => .version
  | state => .state
  | reason => .reason
  | ipv4 => .ipv4

def Value : StatusKey → Type
  | sectionVersion => UInt32
  | version => UInt32
  | state => WifiState
  | reason => WifiFailure
  | ipv4 => Bytes

def codec {ε : Type} [FromCbor ε] (up : WifiError → ε) : ∀ k, Codec ε (Value k)
  | sectionVersion => .u32
  | version => .u32
  | state => (Codec.closed fun raw => up (.unallocated .state raw) : Codec ε WifiState)
  | reason => (Codec.closed fun raw => up (.unallocated .reason raw) : Codec ε WifiFailure)
  | ipv4 => .bytes

end StatusKey

inductive ReportKey
  | version
  | state
  | reason
  | ipv4
  deriving DecidableEq

namespace ReportKey

def all : List ReportKey := [version, state, reason, ipv4]

theorem keyList : KeyList all := ⟨by decide, fun k => by cases k <;> decide, by decide⟩

instance : Listed ReportKey := ⟨all, keyList⟩

def status : ReportKey → StatusKey
  | version => .version
  | state => .state
  | reason => .reason
  | ipv4 => .ipv4

end ReportKey

def reportSlots (report : RadioReport) : ∀ k : ReportKey, Option (StatusKey.Value k.status)
  | .version => some report.version
  | .state => some report.radio.state
  | .reason => report.radio.owedReason
  | .ipv4 => report.radio.owedIpv4

def statusSlots (status : WifiStatus) : ∀ k, Option (StatusKey.Value k)
  | .sectionVersion => some status.sectionVersion
  | .version => status.report.map RadioReport.version
  | .state => status.report.map fun report => report.radio.state
  | .reason => status.report.bind fun report => report.radio.owedReason
  | .ipv4 => status.report.bind fun report => report.radio.owedIpv4

def statusCodec : ∀ k, Codec WifiError (StatusKey.Value k) := StatusKey.codec id

def reportCodec (k : ReportKey) : Codec LinkError (StatusKey.Value k.status) := StatusKey.codec LinkError.ofWifi k.status

def statusTable : Table WifiError StatusKey := .ofCodecs statusCodec fun k => .duplicate k.field

def reportTable : Table LinkError ReportKey := .ofCodecs reportCodec fun k => .wifi (.duplicate k.status.field)

theorem readClosed_closed {α : Type} [Numbered α] (field : WifiField) {ε : Type} [FromCbor ε] (up : WifiError → ε)
    (h : ∀ why, up (FromCbor.cbor why) = FromCbor.cbor why) :
    mapErr up (readClosed field (Numbered.tryFrom : UInt8 → Option α)) =
      (Codec.closed fun raw => up (.unallocated field raw)).read := by
  unfold readClosed
  rw [mapErr_bind, mapErr_ask h]
  change _ = checkedRead (ask u8) (Numbered.known fun raw => up (.unallocated field raw))
  unfold checkedRead
  apply congrArg
  funext raw
  rw [mapErr_lift]
  unfold closed Numbered.known
  cases Numbered.tryFrom (α := α) raw <;> rfl

theorem readClosed_own {α : Type} [Numbered α] (field : WifiField) :
    readClosed field (Numbered.tryFrom : UInt8 → Option α) =
      (Codec.closed fun raw => id (WifiError.unallocated field raw)).read := by
  rw [← readClosed_closed field id fun _ => rfl]
  funext r
  unfold mapErr
  cases readClosed field (Numbered.tryFrom : UInt8 → Option α) r <;> rfl

def ofStatus (s : statusTable.Slots) : StatusKeys := ⟨s .sectionVersion, s .version, s .state, s .reason, s .ipv4⟩

def ofReport (s : reportTable.Slots) : StatusKeys := ⟨none, s .version, s .state, s .reason, s .ipv4⟩

theorem step_far {first key : ℤ} (h : ¬(key = 1 ∧ first = 2)) (hkey : ¬(first ≤ key ∧ key ≤ first + 3))
    (s : StatusKeys) : StatusKeys.step first key s = passOver s := by
  have hfar : ∀ n, checkedSub key first = some n → ¬(0 ≤ n ∧ n ≤ 3) := by
    intro n hn
    unfold checkedSub at hn
    split_ifs at hn
    obtain rfl := Option.some.inj hn
    omega
  unfold StatusKeys.step
  rw [if_neg h]
  split
  · exact absurd (by decide) (hfar 0 ‹_›)
  · exact absurd (by decide) (hfar 1 ‹_›)
  · exact absurd (by decide) (hfar 2 ‹_›)
  · exact absurd (by decide) (hfar 3 ‹_›)
  · rfl

theorem status_known (k : StatusKey) (s : statusTable.Slots) : StatusKeys.step 2 (BodyKey.number k) (ofStatus s) =
    slotField (statusTable.read k) (statusTable.twice k) (s k) fun slot => ofStatus (Function.update s k slot) := by
  cases k with
  | sectionVersion => rfl
  | version => rfl
  | state =>
    change slotField (readClosed .state (Numbered.tryFrom : UInt8 → Option WifiState)) _ _ _ = _
    rw [readClosed_own]
    rfl
  | reason =>
    change slotField (readClosed .reason (Numbered.tryFrom : UInt8 → Option WifiFailure)) _ _ _ = _
    rw [readClosed_own]
    rfl
  | ipv4 => rfl

theorem status_unknown (n : ℤ) (s : statusTable.Slots) (h : ¬statusTable.Known n) :
    StatusKeys.step 2 n (ofStatus s) = passOver (ofStatus s) := by
  have hne : ∀ k : StatusKey, n ≠ BodyKey.number k := fun k hk => h ⟨k, hk⟩
  have h₁ : n ≠ 1 := hne .sectionVersion
  have h₂ : n ≠ 2 := hne .version
  have h₃ : n ≠ 3 := hne .state
  have h₄ : n ≠ 4 := hne .reason
  have h₅ : n ≠ 5 := hne .ipv4
  apply step_far <;> omega

theorem status_records : statusTable.Records ofStatus (StatusKeys.step 2) := ⟨status_known, status_unknown⟩

theorem ofWifi_cbor (why : CborError) : LinkError.ofWifi (FromCbor.cbor why) = FromCbor.cbor why := rfl

theorem report_known (k : ReportKey) (s : reportTable.Slots) :
    mapErr LinkError.ofWifi (StatusKeys.step 1 (BodyKey.number k) (ofReport s)) =
      slotField (reportTable.read k) (reportTable.twice k) (s k) fun slot => ofReport (Function.update s k slot) := by
  cases k with
  | version =>
    change mapErr _ (slotField (ask u32) _ _ _) = _
    rw [mapErr_slotField, mapErr_ask ofWifi_cbor]
    rfl
  | state =>
    change mapErr _ (slotField (readClosed .state (Numbered.tryFrom : UInt8 → Option WifiState)) _ _ _) = _
    rw [mapErr_slotField, readClosed_closed _ _ ofWifi_cbor]
    rfl
  | reason =>
    change mapErr _ (slotField (readClosed .reason (Numbered.tryFrom : UInt8 → Option WifiFailure)) _ _ _) = _
    rw [mapErr_slotField, readClosed_closed _ _ ofWifi_cbor]
    rfl
  | ipv4 =>
    change mapErr _ (slotField (ask bytesValue) _ _ _) = _
    rw [mapErr_slotField, mapErr_ask ofWifi_cbor]
    rfl

theorem report_unknown (n : ℤ) (s : reportTable.Slots) (h : ¬reportTable.Known n) :
    mapErr LinkError.ofWifi (StatusKeys.step 1 n (ofReport s)) = passOver (ofReport s) := by
  have hne : ∀ k : ReportKey, n ≠ BodyKey.number k := fun k hk => h ⟨k, hk⟩
  have h₁ : n ≠ 1 := hne .version
  have h₂ : n ≠ 2 := hne .state
  have h₃ : n ≠ 3 := hne .reason
  have h₄ : n ≠ 4 := hne .ipv4
  rw [step_far (by omega) (by omega), mapErr_passOver ofWifi_cbor]

theorem report_records : reportTable.Records ofReport fun n s => mapErr LinkError.ofWifi (StatusKeys.step 1 n s) :=
  ⟨report_known, report_unknown⟩

namespace WifiStatus

def judge (s : statusTable.Slots) : Except WifiError WifiStatus := do
  let sectionVersion ← slotRequired (.missing .section) (ofStatus s).sectionVersion
  let report ← (ofStatus s).report
  .ok ⟨sectionVersion, report⟩

theorem decode_table (payload : Bytes) : decode payload = statusTable.decode judge payload := by
  have hbody : decodeBody (do let n ← ask map; pairLoop (StatusKeys.step 2) n .empty) payload =
      ofStatus <$> decodeBody statusTable.slots payload := status_records.body rfl payload
  unfold decode Table.decode
  change (decodeBody (do let n ← ask map; pairLoop (StatusKeys.step 2) n .empty) payload >>= _) = _
  rw [hbody]
  cases decodeBody statusTable.slots payload <;> rfl

theorem judge_ok {status : WifiStatus} (s : statusTable.Slots) : judge s = .ok status ↔ s = statusSlots status := by
  unfold judge
  simp only [bind_ok, slotRequired_ok, StatusKeys.report_ok]
  constructor
  · rintro ⟨sectionVersion, h₁, report, ⟨h₂, h₃, h₄, h₅⟩, ⟨⟩⟩
    funext k
    cases k <;> assumption
  · rintro rfl
    exact ⟨_, rfl, _, ⟨rfl, rfl, rfl, rfl⟩, rfl⟩

end WifiStatus

namespace RadioReport

def judge (s : reportTable.Slots) : Except LinkError RadioReport := do
  let report ← (ofReport s).report.mapError .ofWifi
  slotRequired (.wifi (.missing .version)) report

theorem decode_slots (e : LinkEnvelope) : decode e = bodySlots reportTable e >>= judge := by
  have hslots := records_slots report_records (fun keys => keys.report.mapError .ofWifi >>= fun report =>
    slotRequired (.wifi (.missing .version)) report) e
  unfold decode StatusKeys.read
  rw [mapErr_pairLoop ofWifi_cbor]
  exact hslots

theorem judge_ok (s : reportTable.Slots) (report : RadioReport) :
    judge s = .ok report ↔ s = reportSlots report ∧ True := by
  unfold judge
  simp only [bind_ok, slotRequired_ok, mapError_ok, StatusKeys.report_ok, and_true]
  constructor
  · rintro ⟨_, ⟨h₁, h₂, h₃, h₄⟩, rfl⟩
    funext k
    cases k <;> assumption
  · rintro rfl
    exact ⟨_, ⟨rfl, rfl, rfl, rfl⟩, rfl⟩

end RadioReport

theorem saturatingAdd_near {a b : ℤ} (hlow : 0 ≤ a + b) (hhigh : a + b ≤ 24) : saturatingAdd a b = a + b := by
  unfold saturatingAdd i64Min i64Max
  omega

def Radio.calls (radio : Radio) (first reason ipv4 : Int64) : List Call :=
  match radio with
  | off | joining => [.key first, .u64 radio.state.byte.toUInt64]
  | failed why => [.key first, .u64 radio.state.byte.toUInt64, .key reason, .u64 why.byte.toUInt64]
  | joined address => [.key first, .u64 radio.state.byte.toUInt64, .key ipv4, .bytes address.toList]

theorem Radio.encodeInto_tells (radio : Radio) (first reason ipv4 : Int64) (hlow : 0 ≤ first.toInt)
    (hhigh : first.toInt ≤ 22) (hreason : reason.toInt = first.toInt + 1) (hipv4 : ipv4.toInt = first.toInt + 2) :
    Tells (radio.encodeInto first.toInt) (radio.calls first reason ipv4) := by
  have hone : saturatingAdd first.toInt 1 = reason.toInt := by rw [saturatingAdd_near (by omega) (by omega), hreason]
  have htwo : saturatingAdd first.toInt 2 = ipv4.toInt := by rw [saturatingAdd_near (by omega) (by omega), hipv4]
  have hstate (state : WifiState) {m : Encoder WifiError Unit} {rest : List Call} (h : Tells m rest) :
      Tells (do
        tell (CborWriter.key first.toInt)
        tell (CborWriter.u64 state.byte.toNat)
        m) (.key first :: .u64 state.byte.toUInt64 :: rest) :=
    .cons (c := .key first) (.cons (c := .u64 state.byte.toUInt64) h)
  cases radio with
  | off => exact hstate .off .none
  | joining => exact hstate .joining .none
  | failed why =>
    have howed : Tells (encodeOwed first.toInt (failed why)) [.key reason, .u64 why.byte.toUInt64] := by
      unfold encodeOwed
      rw [hone]
      exact .cons (c := .key reason) (.call (.u64 why.byte.toUInt64))
    exact hstate .failed howed
  | joined address =>
    have howed : Tells (encodeOwed first.toInt (joined address)) [.key ipv4, .bytes address.toList] := by
      unfold encodeOwed
      rw [htwo]
      exact .cons (c := .key ipv4) (.call (.bytes address.toList))
    exact hstate .joined howed

def wifiStatusMaxBytes : ℕ := 21

namespace WifiStatus

def items (status : WifiStatus) : List (StatusKey × Item) := cellItems statusCodec (statusSlots status)

def calls (status : WifiStatus) : List (StatusKey × List Call) := cellCalls statusCodec (statusSlots status)

theorem maySend (status : WifiStatus) : MaySend statusCodec (statusSlots status) := by
  intro k a ha
  cases k with
  | sectionVersion | version => trivial
  | state => exact Codec.closed_may (α := WifiState) _ a
  | reason => exact Codec.closed_may (α := WifiFailure) _ a
  | ipv4 =>
    obtain ⟨report, -, howed⟩ := Option.bind_eq_some_iff.mp ha
    exact Radio.owedIpv4_may howed

def reportCalls (report : RadioReport) : List Call :=
  .key 2 :: .u64 report.version.toUInt64 :: report.radio.calls 3 4 5

theorem encodeReport_tells (report : RadioReport) : Tells (encodeReport report) (reportCalls report) := by
  have hradio := report.radio.encodeInto_tells 3 4 5 (by decide) (by decide) (by decide) (by decide)
  exact .cons (c := .key 2) <| .cons (c := .u64 report.version.toUInt64) hradio

theorem calls_eq (status : WifiStatus) : entryCalls status.calls =
    .key 1 :: .u64 status.sectionVersion.toUInt64 :: status.report.toList.flatMap reportCalls := by
  obtain ⟨sectionVersion, report⟩ := status
  cases report with
  | none => rfl
  | some report =>
    obtain ⟨version, radio⟩ := report
    cases radio <;> rfl

theorem count_eq (status : WifiStatus) : (UInt64.ofNat (1 + status.reportKeys)).toNat = 1 + status.reportKeys ∧
    status.calls.length = 1 + status.reportKeys := by
  obtain ⟨sectionVersion, report⟩ := status
  cases report with
  | none => exact ⟨rfl, rfl⟩
  | some report =>
    obtain ⟨version, radio⟩ := report
    cases radio <;> exact ⟨rfl, rfl⟩

theorem encodeInto_tells (status : WifiStatus) :
    Tells status.encodeInto (.map (UInt64.ofNat (1 + status.reportKeys)) :: entryCalls status.calls) := by
  have hreport := Tells.whenSome encodeReport_tells status.report
  have hbody : Tells (do
      tell (CborWriter.key 1)
      tell (CborWriter.u64 status.sectionVersion.toNat)
      whenSome status.report encodeReport) (entryCalls status.calls) := by
    rw [calls_eq]
    exact .cons (c := .key 1) <| .cons (c := .u64 status.sectionVersion.toUInt64) hreport
  have hmap : (Call.map (UInt64.ofNat (1 + status.reportKeys))).write = CborWriter.map (1 + status.reportKeys) := by
    rw [Call.write, status.count_eq.1]
  unfold encodeInto
  rw [← hmap]
  exact .cons hbody

theorem encode_iff (status : WifiStatus) {dst : ℕ} {out : Bytes} : status.encode dst = .ok out ↔
    out = (bodyItem status.items).spelling ∧ (bodyItem status.items).spelling.length ≤ dst := by
  have hcount : status.items.length = (UInt64.ofNat (1 + status.reportKeys)).toNat := by
    rw [status.count_eq.1, ← status.count_eq.2]
    exact cells_count _
  exact encodeBody_item status.encodeInto_tells
    (bodyItem_writes (cellItems_spelled status.maySend 7) (cells_rising Listed.inOrder _) hcount)

theorem encode_short (status : WifiStatus) : (bodyItem status.items).spelling.length ≤ wifiStatusMaxBytes := by
  have hfew : status.items.length < 24 := by
    have hle : status.items.length ≤ (Listed.all (κ := StatusKey)).length := cells_length_le _
    exact hle.trans_lt Listed.few
  rw [bodyItem_length hfew Listed.small]
  obtain ⟨sectionVersion, report⟩ := status
  have hsection : (Item.ofNat sectionVersion.toUInt64.toNat).spelling.length ≤ 5 := ofNat_length_u32 sectionVersion
  cases report with
  | none =>
    change 1 + (1 + (Item.ofNat sectionVersion.toUInt64.toNat).spelling.length + 0) ≤ 21
    omega
  | some report =>
    obtain ⟨version, radio⟩ := report
    have hversion : (Item.ofNat version.toUInt64.toNat).spelling.length ≤ 5 := ofNat_length_u32 version
    cases radio with
    | off | joining =>
      change 1 + (1 + (Item.ofNat sectionVersion.toUInt64.toNat).spelling.length +
        (1 + (Item.ofNat version.toUInt64.toNat).spelling.length + (1 + 1 + 0))) ≤ 21
      omega
    | failed why =>
      have hwhy : (Item.ofNat why.byte.toUInt64.toNat).spelling.length = 1 := by cases why <;> decide
      change 1 + (1 + (Item.ofNat sectionVersion.toUInt64.toNat).spelling.length +
        (1 + (Item.ofNat version.toUInt64.toNat).spelling.length + (1 + 1 +
          (1 + (Item.ofNat why.byte.toUInt64.toNat).spelling.length + 0)))) ≤ 21
      omega
    | joined address =>
      have hlen : address.toList.length = 4 := address.length_toList
      have haddress : (Item.ofBytes address.toList).spelling.length = 5 := by
        rw [Item.ofBytes, Item.spelling, Token.spelling, List.length_append, hlen]
        rfl
      change 1 + (1 + (Item.ofNat sectionVersion.toUInt64.toNat).spelling.length +
        (1 + (Item.ofNat version.toUInt64.toNat).spelling.length + (1 + 1 +
          (1 + (Item.ofBytes address.toList).spelling.length + 0)))) ≤ 21
      omega

theorem decode_encode {status : WifiStatus} {dst : ℕ} {out : Bytes} (h : status.encode dst = .ok out) :
    decode out = .ok status := by
  obtain ⟨rfl, -⟩ := status.encode_iff.mp h
  rw [decode_table]
  exact bind_ok.mpr ⟨statusSlots status, cellItems_decode status.maySend, (judge_ok _).mpr rfl⟩

end WifiStatus

def stateOf (i : Item) : Option WifiState := (u8Of i).bind Numbered.tryFrom

def reasonOf (i : Item) : Option WifiFailure := (u8Of i).bind Numbered.tryFrom

/-- A map says this of a report, its version under one key and what follows it under the three after that. -/
structure Reports (first : ℤ) (pairs : List (Key × Item)) (found : Option RadioReport) : Prop where
  version : Shows pairs first u32Of (found.map RadioReport.version)
  state : Shows pairs (first + 1) stateOf (found.map fun report => report.radio.state)
  reason : Shows pairs (first + 2) reasonOf (found.bind fun report => report.radio.owedReason)
  ipv4 : Shows pairs (first + 3) Item.bytes? (found.bind fun report => report.radio.owedIpv4)

theorem shows_congr {α : Type} {ps qs : List (Key × Item)} {m n : ℤ} (h : valueAt ps m = valueAt qs n)
    (f : Item → Option α) (found : Option α) : Shows ps m f found ↔ Shows qs n f found := by
  cases found with
  | none => rw [Shows, Shows, h]
  | some value => rw [Shows, Shows, Holds, Holds, h]

theorem reports_shift {first : ℤ} {ps qs : List (Key × Item)}
    (h : ∀ n, first ≤ n → n ≤ first + 3 → valueAt ps (n + 1) = valueAt qs n) (found : Option RadioReport) :
    Reports (first + 1) ps found ↔ Reports first qs found := by
  have hversion := shows_congr (h first (by omega) (by omega)) u32Of (found.map RadioReport.version)
  have hstate := shows_congr (h (first + 1) (by omega) (by omega)) stateOf (found.map fun report => report.radio.state)
  have hreason := shows_congr (h (first + 2) (by omega) (by omega)) reasonOf
    (found.bind fun report => report.radio.owedReason)
  have hipv4 := shows_congr (h (first + 3) (by omega) (by omega)) Item.bytes?
    (found.bind fun report => report.radio.owedIpv4)
  rw [add_right_comm] at hstate hreason hipv4
  constructor
  · rintro ⟨h₁, h₂, h₃, h₄⟩
    exact ⟨hversion.mp h₁, hstate.mp h₂, hreason.mp h₃, hipv4.mp h₄⟩
  · rintro ⟨h₁, h₂, h₃, h₄⟩
    exact ⟨hversion.mpr h₁, hstate.mpr h₂, hreason.mpr h₃, hipv4.mpr h₄⟩

namespace WifiStatus

theorem slots_iff {ps : List (Key × Item)} {status : WifiStatus} :
    (∀ k, Table.SlotOf (t := statusTable) (fun k => (statusCodec k).item) ps (statusSlots status) k) ↔
      Holds ps 1 u32Of status.sectionVersion ∧ Reports 2 ps status.report := by
  have hstate : (statusCodec .state).item = stateOf := funext (numbered_item _)
  have hreason : (statusCodec .reason).item = reasonOf := funext (numbered_item _)
  have hslot : ∀ k, Table.SlotOf (t := statusTable) (fun k => (statusCodec k).item) ps (statusSlots status) k ↔
      Shows ps (BodyKey.number k) (statusCodec k).item (statusSlots status k) := fun _ => Table.slotOf_shows
  constructor
  · intro h
    have hshows := fun k => (hslot k).mp (h k)
    refine ⟨hshows .sectionVersion, hshows .version, ?_, ?_, hshows .ipv4⟩
    · rw [← hstate]
      exact hshows .state
    · rw [← hreason]
      exact hshows .reason
  · rintro ⟨hsection, hversion, hshowsState, hshowsReason, hipv4⟩ k
    rw [← hstate] at hshowsState
    rw [← hreason] at hshowsReason
    apply (hslot k).mpr
    cases k with
    | sectionVersion => exact hsection
    | version => exact hversion
    | state => exact hshowsState
    | reason => exact hshowsReason
    | ipv4 => exact hipv4

theorem decode_exact (payload : Bytes) (status : WifiStatus) : decode payload = .ok status ↔
    ∃ w ps, (Item.map w ps).Legal maxDepth ∧ (Item.map w ps).spelling = payload ∧ Keyed ps ∧
      Holds ps 1 u32Of status.sectionVersion ∧ Reports 2 ps status.report := by
  have hdecodes : statusTable.Decodes fun k => (statusCodec k).item := codecs_decode statusCodec _
  rw [decode_table, hdecodes.value judge_ok]
  exact Table.stands_iff fun w ps _ => slots_iff

end WifiStatus

namespace RadioReport

theorem slots_iff {ps : List (Key × Item)} {report : RadioReport} :
    (∀ k, Table.SlotOf (t := reportTable) (fun k => (reportCodec k).item) ps (reportSlots report) k) ↔
      Reports 1 ps (some report) := by
  have hstate : (reportCodec .state).item = stateOf := funext (numbered_item _)
  have hreason : (reportCodec .reason).item = reasonOf := funext (numbered_item _)
  have hslot : ∀ k, Table.SlotOf (t := reportTable) (fun k => (reportCodec k).item) ps (reportSlots report) k ↔
      Shows ps (BodyKey.number k) (reportCodec k).item (reportSlots report k) := fun _ => Table.slotOf_shows
  constructor
  · intro h
    have hshows := fun k => (hslot k).mp (h k)
    refine ⟨hshows .version, ?_, ?_, hshows .ipv4⟩
    · rw [← hstate]
      exact hshows .state
    · rw [← hreason]
      exact hshows .reason
  · rintro ⟨hversion, hshowsState, hshowsReason, hipv4⟩ k
    rw [← hstate] at hshowsState
    rw [← hreason] at hshowsReason
    apply (hslot k).mpr
    cases k with
    | version => exact hversion
    | state => exact hshowsState
    | reason => exact hshowsReason
    | ipv4 => exact hipv4

theorem received_exact (bytes : Bytes) (head : FrameHead) (report : RadioReport) :
    Receives decode bytes head report ↔ ∃ f : Frame, f.item.Legal maxDepth ∧ f.item.spelling = bytes ∧
      f.Scalars head ∧ Keyed f.pairs ∧ Reports 1 f.pairs (some report) := by
  have harms : ∀ k, reportTable.Arm 6 (fun k => (reportCodec k).item) k := fun k => .typed ((reportCodec k).reads 6)
  rw [receives_iff harms decode_slots]
  constructor
  · rintro ⟨f, hf, hspell, hscalars, hkeyed, s, hslots, hjudge⟩
    obtain ⟨rfl, -⟩ := (judge_ok s report).mp hjudge
    exact ⟨f, hf, hspell, hscalars, hkeyed, slots_iff.mp hslots⟩
  · rintro ⟨f, hf, hspell, hscalars, hkeyed, hreports⟩
    exact ⟨f, hf, hspell, hscalars, hkeyed, _, slots_iff.mpr hreports, (judge_ok _ report).mpr ⟨rfl, trivial⟩⟩

def keys (report : RadioReport) : UInt64 := UInt64.ofNat (1 + report.radio.keys)

theorem keys_toNat (report : RadioReport) : report.keys.toNat = 1 + report.radio.keys := by
  obtain ⟨version, radio⟩ := report
  cases radio <;> rfl

def calls (report : RadioReport) : List (ReportKey × List Call) := cellCalls reportCodec (reportSlots report)

theorem calls_eq (report : RadioReport) :
    entryCalls report.calls = .key 1 :: .u64 report.version.toUInt64 :: report.radio.calls 2 3 4 := by
  obtain ⟨version, radio⟩ := report
  cases radio <;> rfl

theorem count_eq (report : RadioReport) : report.calls.length = report.keys.toNat := by
  obtain ⟨version, radio⟩ := report
  cases radio <;> rfl

theorem maySend (report : RadioReport) : MaySend reportCodec (reportSlots report) := by
  intro k a ha
  cases k with
  | version => trivial
  | state => exact Codec.closed_may (α := WifiState) _ a
  | reason => exact Codec.closed_may (α := WifiFailure) _ a
  | ipv4 => exact Radio.owedIpv4_may ha

theorem encodeInto_tells (report : RadioReport) (header : LinkHeader) : Tells (report.encodeInto header)
    (scalarCalls header.kind.byte header.session header.reqId report.keys ++ entryCalls report.calls) := by
  have hhead : Tells (mapErr (fun _ => LinkError.cbor .destinationTooSmall) (header.write (1 + report.radio.keys)))
      (scalarCalls header.kind.byte header.session header.reqId report.keys) := by
    intro w w'
    rw [mapErr_ok, LinkHeader.write, ← report.keys_toNat, ← writeScalars_calls]
  have hradio := report.radio.encodeInto_tells 2 3 4 (by decide) (by decide) (by decide) (by decide)
  unfold encodeInto
  rw [calls_eq]
  exact hhead.append <| .cons (c := .key 1) <| .cons (c := .u64 report.version.toUInt64) hradio.refused

theorem write_iff (report : RadioReport) (header : LinkHeader) {dst : ℕ} {out : Bytes} :
    report.write header dst = .ok out ↔
      out = (written header.head (cellItems reportCodec (reportSlots report))).item.spelling ∧
        (written header.head (cellItems reportCodec (reportSlots report))).item.spelling.length ≤ dst := by
  have hcount : (cellItems reportCodec (reportSlots report)).length = report.keys.toNat :=
    (cells_count _).trans report.count_eq
  unfold write
  rw [encodeBody_tells (report.encodeInto_tells header) (linkBody_tells header report.keys _)]
  exact linkBody_ok (cellItems_spelled report.maySend 6) (cells_rising Listed.inOrder _) hcount

theorem laws : LinkLaws (fun _ => True) (fun _ => True) (fun _ => True) Eq write decode reportTable.Known [1, 2] := by
  refine codecLaws decode_slots ?_ count_eq (fun v _ => v.maySend) judge_ok (fun _ _ => trivial)
    (fun _ _ _ _ => trivial) [.version, .state] ?_
  · intro v header dst out
    rw [true_and]
    exact encodeBody_tells (v.encodeInto_tells header) (linkBody_tells header v.keys _)
  · intro v k hk
    cases k with
    | version | state => rfl
    | reason | ipv4 => simp at hk

end RadioReport

theorem written_shift (sectionVersion : UInt32) (report : RadioReport) {n : ℤ} (hlow : 1 ≤ n) (hhigh : n ≤ 4) :
    valueAt (keyedPairs (WifiStatus.items ⟨sectionVersion, some report⟩)) (n + 1) =
      valueAt (keyedPairs (cellItems reportCodec (reportSlots report))) n := by
  obtain ⟨version, radio⟩ := report
  obtain rfl | rfl | rfl | rfl : n = 1 ∨ n = 2 ∨ n = 3 ∨ n = 4 := by omega
  all_goals cases radio <;> rfl

theorem WifiStatusChanged.encode_iff (changed : WifiStatusChanged) {dst : ℕ} {out : Bytes} :
    changed.encode dst = .ok out ↔ changed.report.radio ≠ .joining ∧
      WifiStatus.encode ⟨changed.sectionVersion, some changed.report⟩ dst = .ok out := by
  unfold encode
  split_ifs with hjoining
  · simp [hjoining]
  · simp [hjoining]

/-- One reader under two numberings: a status and a link report each come back as they were written, each decoder takes
exactly the maps that say what it decodes, and what one says at the keys after the section's the other says a key before. -/
theorem status_two_numberings :
    (∀ (status : WifiStatus) dst out, status.encode dst = .ok out →
      out.length ≤ wifiStatusMaxBytes ∧ WifiStatus.decode out = .ok status) ∧
    (∀ (status : WifiStatus) dst, wifiStatusMaxBytes ≤ dst → ∃ out, status.encode dst = .ok out) ∧
    (∀ (report : RadioReport) header dst out, report.write header dst = .ok out →
      Receives RadioReport.decode out header.head report) ∧
    (∀ (report : RadioReport) header, ∃ size, ∀ dst, size ≤ dst → ∃ out, report.write header dst = .ok out) ∧
    (∀ payload status, WifiStatus.decode payload = .ok status ↔
      ∃ w ps, (Item.map w ps).Legal maxDepth ∧ (Item.map w ps).spelling = payload ∧ Keyed ps ∧
        Holds ps 1 u32Of status.sectionVersion ∧ Reports 2 ps status.report) ∧
    (∀ bytes head report, Receives RadioReport.decode bytes head report ↔
      ∃ f : Frame, f.item.Legal maxDepth ∧ f.item.spelling = bytes ∧ f.Scalars head ∧ Keyed f.pairs ∧
        Reports 1 f.pairs (some report)) ∧
    (∀ ps qs : List (Key × Item), (∀ n, 1 ≤ n → n ≤ 4 → valueAt ps (n + 1) = valueAt qs n) →
      ∀ found, Reports 2 ps found ↔ Reports 1 qs found) ∧
    (∀ sectionVersion (report : RadioReport), ∃ ps qs : List (Key × Item),
      (∀ dst out, WifiStatus.encode ⟨sectionVersion, some report⟩ dst = .ok out → ∃ w, out = (Item.map w ps).spelling) ∧
      (∀ header dst out, report.write header dst = .ok out →
        ∃ f : Frame, out = f.item.spelling ∧ f.pairs = qs) ∧
      ∀ n, 1 ≤ n → n ≤ 4 → valueAt ps (n + 1) = valueAt qs n) ∧
    ∀ changed : WifiStatusChanged,
      (changed.report.radio = .joining → ∀ dst, changed.encode dst = .error .joiningIsNotRecorded) ∧
        (changed.report.radio ≠ .joining → ∀ dst, wifiStatusMaxBytes ≤ dst → ∃ out, changed.encode dst = .ok out) := by
  have hfits : ∀ (status : WifiStatus) dst, wifiStatusMaxBytes ≤ dst → ∃ out, status.encode dst = .ok out := by
    intro status dst hdst
    exact ⟨_, status.encode_iff.mpr ⟨rfl, status.encode_short.trans hdst⟩⟩
  refine ⟨?_, hfits, ?_, ?_, WifiStatus.decode_exact, RadioReport.received_exact, ?_, ?_, ?_⟩
  · intro status dst out h
    refine ⟨?_, WifiStatus.decode_encode h⟩
    obtain ⟨rfl, -⟩ := status.encode_iff.mp h
    exact status.encode_short
  · intro report header dst out h
    obtain ⟨_, rfl, hreceives⟩ := RadioReport.laws.trip report header dst out trivial h
    exact hreceives
  · intro report header
    exact RadioReport.laws.fits report header trivial
  · intro ps qs h found
    exact reports_shift h found
  · intro sectionVersion report
    refine ⟨_, _, ?_, ?_, fun n hlow hhigh => written_shift sectionVersion report hlow hhigh⟩
    · intro dst out h
      exact ⟨_, ((WifiStatus.encode_iff _).mp h).1⟩
    · intro header dst out h
      exact ⟨_, ((RadioReport.write_iff report header).mp h).1, rfl⟩
  · intro changed
    constructor
    · intro hjoining dst
      exact if_pos hjoining
    · intro hother dst hdst
      obtain ⟨out, hout⟩ := hfits ⟨changed.sectionVersion, some changed.report⟩ dst hdst
      exact ⟨out, changed.encode_iff.mpr ⟨hother, hout⟩⟩

end Km43.Wifi
