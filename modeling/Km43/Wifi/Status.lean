import Km43.Link.FrameLaws
import Km43.Wifi.Scan

namespace Km43.Wifi

open Library Cbor CborReader CborWriter Link

inductive WifiState
  | off
  | joining
  | joined
  | failed
  deriving DecidableEq

namespace WifiState

def byte : WifiState → UInt8
  | off => 1
  | joining => 2
  | joined => 3
  | failed => 4

def all : List WifiState := [off, joining, joined, failed]

theorem found (a : WifiState) : (all.find? fun b => b.byte == a.byte) = some a := by cases a <;> rfl

instance : Numbered WifiState := ⟨all, byte, found⟩

end WifiState

inductive WifiFailure
  | authFailed
  | notFound
  | noIp
  | lost
  | other
  deriving DecidableEq

namespace WifiFailure

def byte : WifiFailure → UInt8
  | authFailed => 1
  | notFound => 2
  | noIp => 3
  | lost => 4
  | other => 5

def all : List WifiFailure := [authFailed, notFound, noIp, lost, other]

theorem found (a : WifiFailure) : (all.find? fun b => b.byte == a.byte) = some a := by cases a <;> rfl

instance : Numbered WifiFailure := ⟨all, byte, found⟩

end WifiFailure

inductive Radio
  | off
  | joining
  | joined (ipv4 : Vector UInt8 4)
  | failed (reason : WifiFailure)
  deriving DecidableEq

def i64Min : ℤ := -2 ^ 63

def saturatingAdd (a b : ℤ) : ℤ := max i64Min (min i64Max (a + b))

def checkedSub (a b : ℤ) : Option ℤ := if i64Min ≤ a - b ∧ a - b ≤ i64Max then some (a - b) else none

namespace Radio

def state : Radio → WifiState
  | off => .off
  | joining => .joining
  | joined _ => .joined
  | failed _ => .failed

def keys : Radio → ℕ
  | off | joining => 1
  | joined _ | failed _ => 2

def encodeOwed (first : ℤ) : Radio → Encoder WifiError Unit
  | off | joining => pure ()
  | failed reason => do
    tell (CborWriter.key (saturatingAdd first 1))
    tell (CborWriter.u64 reason.byte.toNat)
  | joined ipv4 => do
    tell (CborWriter.key (saturatingAdd first 2))
    tell (CborWriter.bytes ipv4.toList)

def encodeInto (radio : Radio) (first : ℤ) : Encoder WifiError Unit := do
  tell (CborWriter.key first)
  tell (CborWriter.u64 radio.state.byte.toNat)
  radio.encodeOwed first

def of (state : WifiState) (reason : Option WifiFailure) (ipv4 : Option Bytes) : Except WifiError Radio :=
  if reason.isSome ≠ decide (state = .failed) then .error .reasonDisagrees
  else if ipv4.isSome ≠ decide (state = .joined) then .error .addressDisagrees
  else
    match state, reason, ipv4 with
    | .off, _, _ => .ok .off
    | .joining, _, _ => .ok .joining
    | .joined, _, some octets => do
      let ipv4 ← Codec.fixedOf 4 .ipv4Length octets
      .ok (.joined ipv4)
    | .failed, some reason, _ => .ok (.failed reason)
    | .joined, _, none => .error .addressDisagrees
    | .failed, none, _ => .error .reasonDisagrees

end Radio

structure RadioReport where
  version : UInt32
  radio : Radio
  deriving DecidableEq

structure StatusKeys where
  sectionVersion : Option UInt32
  version : Option UInt32
  state : Option WifiState
  reason : Option WifiFailure
  ipv4 : Option Bytes

namespace StatusKeys

def empty : StatusKeys := ⟨none, none, none, none, none⟩

/-- One key of a status map whose version is at `first`, with the section's at key 1 where `first` is 2. -/
def step (first key : ℤ) (s : StatusKeys) : Read WifiError StatusKeys :=
  if key = 1 ∧ first = 2 then
    slotField (ask u32) (.duplicate .section) s.sectionVersion fun slot => { s with sectionVersion := slot }
  else
    match checkedSub key first with
    | some 0 => slotField (ask u32) (.duplicate .version) s.version fun slot => { s with version := slot }
    | some 1 => slotField (readClosed .state Numbered.tryFrom) (.duplicate .state) s.state
        fun slot => { s with state := slot }
    | some 2 => slotField (readClosed .reason Numbered.tryFrom) (.duplicate .reason) s.reason
        fun slot => { s with reason := slot }
    | some 3 => slotField (ask bytesValue) (.duplicate .ipv4) s.ipv4 fun slot => { s with ipv4 := slot }
    | _ => passOver s

def read (pairs : ℕ) (first : ℤ) : Read WifiError StatusKeys := pairLoop (step first) pairs empty

def report (s : StatusKeys) : Except WifiError (Option RadioReport) :=
  match s.version, s.state with
  | none, none =>
    if s.reason.isSome then .error .reasonDisagrees
    else if s.ipv4.isSome then .error .addressDisagrees
    else .ok none
  | some version, some state => do
    let radio ← Radio.of state s.reason s.ipv4
    .ok (some ⟨version, radio⟩)
  | _, _ => .error .reportIncomplete

end StatusKeys

structure WifiStatus where
  sectionVersion : UInt32
  report : Option RadioReport
  deriving DecidableEq

namespace WifiStatus

def encodeReport (report : RadioReport) : Encoder WifiError Unit := do
  tell (CborWriter.key 2)
  tell (CborWriter.u64 report.version.toNat)
  report.radio.encodeInto 3

def reportKeys (status : WifiStatus) : ℕ :=
  match status.report with
  | none => 0
  | some report => 1 + report.radio.keys

def encodeInto (status : WifiStatus) : Encoder WifiError Unit := do
  tell (CborWriter.map (1 + status.reportKeys))
  tell (CborWriter.key 1)
  tell (CborWriter.u64 status.sectionVersion.toNat)
  whenSome status.report encodeReport

def encode (status : WifiStatus) (dst : ℕ) : Except WifiError Bytes := encodeBody status.encodeInto dst

def readKeys : Read WifiError StatusKeys := do
  let pairs ← ask map
  StatusKeys.read pairs 2

def decode (payload : Bytes) : Except WifiError WifiStatus := do
  let keys ← decodeBody readKeys payload
  let sectionVersion ← slotRequired (.missing .section) keys.sectionVersion
  let report ← keys.report
  .ok ⟨sectionVersion, report⟩

end WifiStatus

structure WifiStatusChanged where
  sectionVersion : UInt32
  report : RadioReport
  deriving DecidableEq

namespace WifiStatusChanged

def encode (changed : WifiStatusChanged) (dst : ℕ) : Except WifiError Bytes :=
  if changed.report.radio = .joining then .error .joiningIsNotRecorded
  else WifiStatus.encode ⟨changed.sectionVersion, some changed.report⟩ dst

def decode (payload : Bytes) : Except WifiError WifiStatusChanged := do
  let status ← WifiStatus.decode payload
  let report ← slotRequired (.missing .version) status.report
  .ok ⟨status.sectionVersion, report⟩

end WifiStatusChanged

namespace RadioReport

def encodeInto (report : RadioReport) (header : LinkHeader) : Encoder LinkError Unit := do
  mapErr (fun _ => .cbor .destinationTooSmall) (header.write (1 + report.radio.keys))
  tell (CborWriter.key 1)
  tell (CborWriter.u64 report.version.toNat)
  mapErr LinkError.ofWifi (report.radio.encodeInto 2)

def write (report : RadioReport) (header : LinkHeader) (dst : ℕ) : Except LinkError Bytes :=
  encodeBody (report.encodeInto header) dst

def decode (envelope : LinkEnvelope) : Except LinkError RadioReport := do
  let (keys, body) ← mapErr LinkError.ofWifi (StatusKeys.read envelope.keys 1) envelope.body
  body.finish.mapError .cbor
  let report ← keys.report.mapError .ofWifi
  slotRequired (.wifi (.missing .version)) report

end RadioReport

end Km43.Wifi
