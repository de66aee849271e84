import Km43.Sealed.Decode

namespace Km43.Link

open Library Cbor CborReader Sealed

inductive LinkMessageType
  | linkUp
  | linkUpAck
  | heartbeat
  | heartbeatAck
  | clientConnected
  | clientConnectedAck
  | clientDisconnected
  | clientDisconnectedAck
  | closeConnection
  | closeConnectionAck
  | netConfig
  | netConfigAck
  | timeOffer
  | timeOfferAck
  | commsRelease
  | commsReleaseAck
  | enterDownload
  | enterDownloadAck
  | pairingWindow
  | pairingWindowAck
  | wifiScan
  | wifiScanAck
  | wifiScanResult
  | wifiScanResultAck
  | wifiState
  | wifiStateAck
  deriving DecidableEq

inductive LinkDirection
  | either
  | commsToController
  | controllerToComms
  deriving DecidableEq

namespace LinkMessageType

def byte : LinkMessageType → UInt8
  | linkUp => 0x60
  | linkUpAck => 0xE0
  | heartbeat => 0x61
  | heartbeatAck => 0xE1
  | clientConnected => 0x62
  | clientConnectedAck => 0xE2
  | clientDisconnected => 0x63
  | clientDisconnectedAck => 0xE3
  | closeConnection => 0x64
  | closeConnectionAck => 0xE4
  | netConfig => 0x65
  | netConfigAck => 0xE5
  | timeOffer => 0x66
  | timeOfferAck => 0xE6
  | commsRelease => 0x67
  | commsReleaseAck => 0xE7
  | enterDownload => 0x68
  | enterDownloadAck => 0xE8
  | pairingWindow => 0x69
  | pairingWindowAck => 0xE9
  | wifiScan => 0x6A
  | wifiScanAck => 0xEA
  | wifiScanResult => 0x6B
  | wifiScanResultAck => 0xEB
  | wifiState => 0x6C
  | wifiStateAck => 0xEC

def ofByte (byte : UInt8) : Option LinkMessageType :=
  if byte = 0x60 then some .linkUp
  else if byte = 0xE0 then some .linkUpAck
  else if byte = 0x61 then some .heartbeat
  else if byte = 0xE1 then some .heartbeatAck
  else if byte = 0x62 then some .clientConnected
  else if byte = 0xE2 then some .clientConnectedAck
  else if byte = 0x63 then some .clientDisconnected
  else if byte = 0xE3 then some .clientDisconnectedAck
  else if byte = 0x64 then some .closeConnection
  else if byte = 0xE4 then some .closeConnectionAck
  else if byte = 0x65 then some .netConfig
  else if byte = 0xE5 then some .netConfigAck
  else if byte = 0x66 then some .timeOffer
  else if byte = 0xE6 then some .timeOfferAck
  else if byte = 0x67 then some .commsRelease
  else if byte = 0xE7 then some .commsReleaseAck
  else if byte = 0x68 then some .enterDownload
  else if byte = 0xE8 then some .enterDownloadAck
  else if byte = 0x69 then some .pairingWindow
  else if byte = 0xE9 then some .pairingWindowAck
  else if byte = 0x6A then some .wifiScan
  else if byte = 0xEA then some .wifiScanAck
  else if byte = 0x6B then some .wifiScanResult
  else if byte = 0xEB then some .wifiScanResultAck
  else if byte = 0x6C then some .wifiState
  else if byte = 0xEC then some .wifiStateAck
  else none

def direction : LinkMessageType → LinkDirection
  | linkUp | linkUpAck | heartbeat | heartbeatAck => .either
  | clientConnected | clientConnectedAck | clientDisconnected | clientDisconnectedAck | timeOffer | timeOfferAck
  | wifiScanResult | wifiScanResultAck | wifiState | wifiStateAck => .commsToController
  | closeConnection | closeConnectionAck | netConfig | netConfigAck | commsRelease | commsReleaseAck | enterDownload
  | enterDownloadAck | pairingWindow | pairingWindowAck | wifiScan | wifiScanAck => .controllerToComms

theorem ofByte_byte (kind : LinkMessageType) : ofByte kind.byte = some kind := by
  cases kind <;> decide

end LinkMessageType

inductive Side
  | controller
  | comms
  deriving DecidableEq

namespace Side

def other : Side → Side
  | controller => .comms
  | comms => .controller

def starting : LinkDirection → Option Side
  | .either => none
  | .commsToController => some .comms
  | .controllerToComms => some .controller

end Side

inductive LinkErrorCode
  | wrongSide
  | nonZeroSession
  deriving DecidableEq

inductive Intake
  | act (kind : LinkMessageType)
  | refuse (code : LinkErrorCode)
  deriving DecidableEq

def isAck (kind : LinkMessageType) : Bool := decide (kind.byte &&& 0x80 ≠ 0)

-- the direction names who starts the exchange, so the answer to it is received there
def permitted (kind : LinkMessageType) (side : Side) : Bool :=
  match Side.starting kind.direction with
  | none => true
  | some started => if isAck kind then decide (side = started) else decide (side = started.other)

def arriving (opcode : UInt8) (side : Side) (session : SessionId) : Intake :=
  match LinkMessageType.ofByte opcode with
  | none => .refuse .wrongSide
  | some kind =>
    if !permitted kind side then .refuse .wrongSide
    else if session ≠ .none then .refuse .nonZeroSession
    else .act kind

def writeScalars (opcode : UInt8) (session : SessionId) (reqId : UInt32) (keys : ℕ) : CborWriter.Write Unit := do
  CborWriter.array elements
  CborWriter.u64 opcode.toNat
  CborWriter.u64 session.raw.toNat
  CborWriter.u64 reqId.toNat
  CborWriter.map keys

theorem header_write (header : Header) (keys : ℕ) :
    header.write keys = writeScalars header.kind.byte header.session header.reqId keys := rfl

structure LinkHeader where
  kind : LinkMessageType
  session : SessionId
  reqId : UInt32
  deriving DecidableEq

def LinkHeader.write (header : LinkHeader) (keys : ℕ) : CborWriter.Write Unit :=
  writeScalars header.kind.byte header.session header.reqId keys

structure LinkEnvelope where
  opcode : UInt8
  session : SessionId
  reqId : UInt32
  keys : ℕ
  body : CborReader

def scalars : Read EnvelopeError (UInt8 × SessionId × UInt32 × ℕ) := do
  let opcode ← ask u8
  let session ← ask u16
  let reqId ← ask u32
  let keys ← ask map
  pure (opcode, .ofRaw session, reqId, keys)

def LinkEnvelope.decode (bytes : Bytes) : Except EnvelopeError LinkEnvelope := do
  let (_, cbor) ← Envelope.fourElements (CborReader.new bytes)
  let ((opcode, session, reqId, keys), body) ← scalars cbor
  .ok ⟨opcode, session, reqId, keys, body⟩

theorem byte_ofByte {byte : UInt8} {kind : MessageType} (h : MessageType.ofByte byte = some kind) :
    kind.byte = byte := by
  have hall : ∀ n < 256, (MessageType.ofByte (UInt8.ofNat n)).all fun k => k.byte == UInt8.ofNat n := by
    decide +kernel
  have hbyte := hall byte.toNat byte.toNat_lt
  rw [UInt8.ofNat_toNat, h] at hbyte
  exact beq_iff_eq.mp hbyte

theorem LinkMessageType.byte_ofByte {byte : UInt8} {kind : LinkMessageType} (h : ofByte byte = some kind) :
    kind.byte = byte := by
  have hall : ∀ n < 256, (ofByte (UInt8.ofNat n)).all fun k => k.byte == UInt8.ofNat n := by
    decide +kernel
  have hbyte := hall byte.toNat byte.toNat_lt
  rw [UInt8.ofNat_toNat, h] at hbyte
  exact beq_iff_eq.mp hbyte

theorem isLinkLocal_link (kind : LinkMessageType) : isLinkLocal kind.byte = true := by
  cases kind <;> decide

theorem clientType_ok {opcode : UInt8} {kind : MessageType} :
    clientType opcode = .ok kind ↔ MessageType.ofByte opcode = some kind := by
  constructor
  · intro h
    unfold clientType at h
    split_ifs at h
    cases hk : MessageType.ofByte opcode with
    | some known =>
      rw [hk] at h
      rw [Except.ok.inj h]
    | none =>
      rw [hk] at h
      cases h
  · intro h
    rw [← byte_ofByte h]
    exact clientType_byte kind

theorem scalars_ok {r : CborReader} {opcode : UInt8} {session : SessionId} {reqId : UInt32} {keys : ℕ}
    {body : CborReader} :
    scalars r = .ok ((opcode, session, reqId, keys), body) ↔
      ∃ raw r₁ r₂ r₃, (ask u8 : Read EnvelopeError UInt8) r = .ok (opcode, r₁) ∧
        (ask u16 : Read EnvelopeError UInt16) r₁ = .ok (raw, r₂) ∧ SessionId.ofRaw raw = session ∧
        (ask u32 : Read EnvelopeError UInt32) r₂ = .ok (reqId, r₃) ∧
        (ask map : Read EnvelopeError ℕ) r₃ = .ok (keys, body) := by
  unfold scalars
  simp only [bind_run_ok]
  constructor
  · rintro ⟨opcode', r₁, h₁, raw, r₂, h₂, reqId', r₃, h₃, keys', r₄, h₄, h⟩
    cases h
    exact ⟨raw, r₁, r₂, r₃, h₁, h₂, rfl, h₃, h₄⟩
  · rintro ⟨raw, r₁, r₂, r₃, h₁, h₂, rfl, h₃, h₄⟩
    exact ⟨_, r₁, h₁, raw, r₂, h₂, _, r₃, h₃, _, body, h₄, rfl⟩

theorem read_ok {r : CborReader} {header : Header} {keys : ℕ} {body : CborReader} :
    Envelope.read r = .ok ((header, keys), body) ↔
      scalars r = .ok ((header.kind.byte, header.session, header.reqId, keys), body) := by
  unfold Envelope.read
  rw [scalars_ok]
  simp only [bind_run_ok]
  constructor
  · rintro ⟨opcode, r₁, h₁, kind, r₂, hlift, raw, r₃, h₂, reqId, r₄, h₃, keys', r₅, h₄, h⟩
    cases h
    obtain ⟨hkind, rfl⟩ := lift_ok.mp hlift
    rw [byte_ofByte (clientType_ok.mp hkind)]
    exact ⟨raw, _, r₃, r₄, h₁, h₂, rfl, h₃, h₄⟩
  · rintro ⟨raw, r₁, r₂, r₃, h₁, h₂, hsession, h₃, h₄⟩
    refine ⟨_, r₁, h₁, header.kind, r₁, lift_ok.mpr ⟨clientType_byte _, rfl⟩, raw, r₂, h₂, _, r₃, h₃, _, body,
      h₄, ?_⟩
    rw [hsession]
    rfl

theorem decode_ok {bytes : Bytes} {e : Envelope} :
    Envelope.decode bytes = .ok e ↔
      LinkEnvelope.decode bytes = .ok ⟨e.header.kind.byte, e.header.session, e.header.reqId, e.keys, e.body⟩ := by
  unfold Envelope.decode LinkEnvelope.decode
  simp only [bind_ok]
  constructor
  · rintro ⟨⟨⟨⟩, r⟩, hfour, ⟨⟨header, keys⟩, body⟩, hread, h⟩
    cases h
    exact ⟨_, hfour, _, read_ok.mp hread, rfl⟩
  · rintro ⟨⟨⟨⟩, r⟩, hfour, ⟨⟨opcode, session, reqId, keys⟩, body⟩, hread, h⟩
    cases h
    exact ⟨_, hfour, _, read_ok.mpr hread, rfl⟩

theorem fourElements_apply {r r' : CborReader} {n : ℕ} (h : CborReader.array r = .ok (n, r')) :
    Envelope.fourElements r = if n = elements then .ok ((), r') else .error .wrongLength := by
  unfold Envelope.fourElements
  rw [bind_apply, show (ask array : Read EnvelopeError ℕ) r = .ok (n, r') by rw [ask, h]]
  by_cases hn : n = elements
  · simp only [hn, ne_eq, not_true_eq_false, if_false, if_true]
    rfl
  · simp only [hn, ne_eq, not_false_eq_true, if_true, if_false]
    rfl

theorem wrong_length {bytes : Bytes} {n : ℕ} {r : CborReader} (h : CborReader.array (.new bytes) = .ok (n, r))
    (hn : n ≠ elements) :
    Envelope.decode bytes = .error .wrongLength ∧ LinkEnvelope.decode bytes = .error .wrongLength := by
  unfold Envelope.decode LinkEnvelope.decode
  rw [fourElements_apply h, if_neg hn]
  exact ⟨rfl, rfl⟩

theorem link_local {bytes : Bytes} {opcode : UInt8} {r r' : CborReader}
    (h : CborReader.array (.new bytes) = .ok (elements, r)) (hbyte : CborReader.u8 r = .ok (opcode, r'))
    (hlocal : isLinkLocal opcode = true) : Envelope.decode bytes = .error (.linkLocalType opcode) := by
  have hread : Envelope.read r = .error (.linkLocalType opcode) := by
    unfold Envelope.read
    rw [bind_apply, show (ask u8 : Read EnvelopeError UInt8) r = .ok (opcode, r') by rw [ask, hbyte]]
    simp only
    rw [bind_apply, liftExcept_apply, clientType, if_pos hlocal]
    rfl
  unfold Envelope.decode
  rw [fourElements_apply h, if_pos rfl]
  show (Envelope.read r >>= _) = _
  rw [hread]
  rfl

def scalarCalls (opcode : UInt8) (session : SessionId) (reqId : UInt32) (keys : UInt64) : List Call :=
  [.array 4, .u64 opcode.toUInt64, .u64 session.raw.toUInt64, .u64 reqId.toUInt64, .map keys]

theorem writeScalars_calls (opcode : UInt8) (session : SessionId) (reqId : UInt32) (keys : UInt64) :
    writeScalars opcode session reqId keys.toNat = writeAll (scalarCalls opcode session reqId keys) := by
  simp only [scalarCalls, writeAll, bind_pure_unit]
  rfl

theorem scalars_takes (opcode : UInt8) (session : SessionId) (reqId : UInt32) (keys : UInt64) :
    Takes (do Envelope.fourElements; scalars) (scalarCalls opcode session reqId keys)
      (opcode, session, reqId, keys.toNat) := by
  have hfour : Takes Envelope.fourElements [.array 4] () := (Takes.array 4).bind (.pure ())
  have hpure : Takes (pure (opcode, .ofRaw session.raw, reqId, keys.toNat) :
      Read EnvelopeError (UInt8 × SessionId × UInt32 × ℕ)) [] (opcode, session, reqId, keys.toNat) := by
    rw [SessionId.ofRaw_raw]
    exact .pure _
  exact hfour.bind ((Takes.u8 _).bind ((Takes.u16 _).bind ((Takes.u32 _).bind ((Takes.map keys).bind hpure))))

theorem write_decode {opcode : UInt8} {session : SessionId} {reqId : UInt32} {keys capacity : UInt64}
    {body : List Call} {w w' : CborWriter} {len : ℕ}
    (hw : (do writeScalars opcode session reqId keys.toNat; writeAll body) (.new capacity.toNat) = .ok ((), w))
    (hf : CborWriter.finish w = .ok (len, w')) :
    ∃ r r', LinkEnvelope.decode (w.out.take len) = .ok ⟨opcode, session, reqId, keys.toNat, r⟩ ∧
      readAll body r = .ok (body.map Call.reading, r') ∧ r'.finish = .ok () := by
  obtain ⟨hstack, rfl⟩ := finish_inv hf
  rw [List.take_length]
  rw [writeScalars_calls] at hw
  obtain ⟨⟨⟩, w₁, h₁, h₂⟩ := bind_run_ok.mp hw
  have hleads : Leads w w.out := ⟨List.prefix_refl _, by simp [hstack, owed]⟩
  have hshallow : (CborWriter.new capacity.toNat).stack.length ≤ maxDepth := Nat.zero_le _
  have hgrows := writeAll_grows h₁ hshallow
  have hgrows' := writeAll_grows h₂ (hgrows.shallow hshallow)
  obtain ⟨r, hread, hfollows⟩ := scalars_takes opcode session reqId keys w.out _ w₁ (.new w.out)
    ⟨.new _ _, hshallow, capacity.toNat_lt⟩ h₁ (hgrows'.leads hleads)
  obtain ⟨r', hbody, hm⟩ := writeAll_mirrors h₂ hfollows.toMirrors hfollows.shallow hfollows.capacity hleads.out
    hleads.pays
  refine ⟨r, r', ?_, hbody, hm.finish hstack rfl⟩
  obtain ⟨⟨⟩, r₁, hfour, hscalars⟩ := bind_run_ok.mp hread
  unfold LinkEnvelope.decode
  exact bind_ok.mpr ⟨_, hfour, bind_ok.mpr ⟨_, hscalars, rfl⟩⟩

/-- The two envelopes are one format over two spaces of types. -/
theorem one_format :
    (∀ bytes e, Envelope.decode bytes = .ok e →
      LinkEnvelope.decode bytes = .ok ⟨e.header.kind.byte, e.header.session, e.header.reqId, e.keys, e.body⟩) ∧
    (∀ bytes l kind, LinkEnvelope.decode bytes = .ok l → MessageType.ofByte l.opcode = some kind →
      Envelope.decode bytes = .ok ⟨⟨kind, l.session, l.reqId⟩, l.keys, l.body⟩) ∧
    (∀ bytes e l side kind, Envelope.decode bytes = .ok e → LinkEnvelope.decode bytes = .ok l →
      arriving l.opcode side l.session ≠ .act kind) ∧
    (∀ (header : Header) (keys capacity : UInt64) (body : List Call) (w w' : CborWriter) (len : ℕ),
      (do header.write keys.toNat; writeAll body) (.new capacity.toNat) = .ok ((), w) →
      CborWriter.finish w = .ok (len, w') →
      ∃ r r', Envelope.decode (w.out.take len) = .ok ⟨header, keys.toNat, r⟩ ∧
        readAll body r = .ok (body.map Call.reading, r') ∧ r'.finish = .ok ()) ∧
    (∀ (header : LinkHeader) (keys capacity : UInt64) (body : List Call) (w w' : CborWriter) (len : ℕ),
      (do header.write keys.toNat; writeAll body) (.new capacity.toNat) = .ok ((), w) →
      CborWriter.finish w = .ok (len, w') →
      ∃ r r', LinkEnvelope.decode (w.out.take len) =
          .ok ⟨header.kind.byte, header.session, header.reqId, keys.toNat, r⟩ ∧
        readAll body r = .ok (body.map Call.reading, r') ∧ r'.finish = .ok ()) ∧
    (∀ bytes n r, CborReader.array (.new bytes) = .ok (n, r) → n ≠ elements →
      Envelope.decode bytes = .error .wrongLength ∧ LinkEnvelope.decode bytes = .error .wrongLength) ∧
    ∀ bytes opcode r r', CborReader.array (.new bytes) = .ok (elements, r) → CborReader.u8 r = .ok (opcode, r') →
      isLinkLocal opcode = true → Envelope.decode bytes = .error (.linkLocalType opcode) := by
  refine ⟨fun bytes e h => decode_ok.mp h, ?_, ?_, ?_, ?_, fun bytes n r h hn => wrong_length h hn,
    fun bytes opcode r r' h hbyte hlocal => link_local h hbyte hlocal⟩
  · intro bytes l kind h hkind
    apply decode_ok.mpr
    rw [h, byte_ofByte hkind]
  · intro bytes e l side kind he hl hact
    rw [decode_ok.mp he, Except.ok.injEq] at hl
    subst hl
    unfold arriving at hact
    cases hlink : LinkMessageType.ofByte e.header.kind.byte with
    | none =>
      rw [hlink] at hact
      cases hact
    | some link =>
      have hclient := clientType_byte e.header.kind
      rw [clientType, ← LinkMessageType.byte_ofByte hlink, if_pos (isLinkLocal_link link)] at hclient
      cases hclient
  · intro header keys capacity body w w' len hw hf
    obtain ⟨r, r', hdecode, hbody, hfinish⟩ := write_decode hw hf
    exact ⟨r, r', decode_ok.mpr hdecode, hbody, hfinish⟩
  · intro header keys capacity body w w' len hw hf
    exact write_decode hw hf

end Km43.Link
