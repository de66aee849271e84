import Km43.Sealed.Deliver
import Km43.Sealed.Room

namespace Km43.Sealed

open Library Cbor

def maxOperation : ℕ := 960

def signs : MessageType → Bool
  | .setConfig | .command | .firmware | .time | .invite | .approve | .remove => true
  | .discover | .discoverResponse | .hello | .helloResponse | .inventory | .inventoryResponse | .readings
  | .readingsResponse | .concerns | .concernsResponse | .history | .historyResponse | .wifiScan | .wifiScanResponse
  | .wifiStatus | .wifiStatusResponse | .vouch | .vouchResponse | .subscribe | .subscribeResponse | .eventResponse
  | .readLog | .readLogResponse | .getConfig | .getConfigResponse | .setConfigResponse | .commandResponse
  | .firmwareResponse | .timeResponse | .pair | .pairResponse | .enrol | .enrolResponse | .goodbye | .goodbyeResponse
  | .clients | .clientsResponse | .inviteResponse | .approveResponse | .removeResponse | .errorResponse => false

inductive SignedError
  | notSigned (kind : MessageType)
  | operationTooLong (length : ℕ)
  | sealed (why : SealError)
  deriving DecidableEq

def withinCap (operation : Bytes) : Except SignedError Unit :=
  if operation.length > maxOperation then .error (.operationTooLong operation.length) else .ok ()

theorem withinCap_ok {operation : Bytes} : withinCap operation = .ok () ↔ operation.length ≤ maxOperation := by
  unfold withinCap
  split_ifs with h
  · simp [Nat.not_le.mpr h]
  · simp [Nat.not_lt.mp h]

structure Signed where
  kind : MessageType
  operation : Bytes
  signed : signs kind = true
  within : withinCap operation = .ok ()

def Signed.new (kind : MessageType) (operation : Bytes) : Except SignedError Signed :=
  if signed : signs kind = true then
    match within : withinCap operation with
    | .error why => .error why
    | .ok () => .ok ⟨kind, operation, signed, within⟩
  else .error (.notSigned kind)

def Signed.seal (s : Signed) (tx : RequestSealer) (aead : Aead) (session : SessionId) (dst : Bytes) :
    Except SignedError (UInt32 × ℕ) × Sealing (UInt32 × ℕ) × RequestSealer :=
  let (sealing, tx) := tx.seal aead s.kind session s.operation dst
  (sealing.result.mapError .sealed, sealing, tx)

def Signed.call (s : Signed) (session : SessionId) (dst : Bytes) : SealCall := .request s.kind session s.operation dst

structure SignedWrite where
  header : Header
  operation : Bytes
  signed : signs header.kind = true
  within : withinCap operation = .ok ()

namespace SignedWrite

def read (opened : Opened) : Except SignedError SignedWrite :=
  if signed : signs opened.header.kind = true then
    match within : withinCap opened.inner with
    | .error why => .error why
    | .ok () => .ok ⟨opened.header, opened.inner, signed, within⟩
  else .error (.notSigned opened.header.kind)

def given (w : SignedWrite) : Header × Bytes := (w.header, w.operation)

theorem read_ok {opened : Opened} {w : SignedWrite} :
    read opened = .ok w ↔ w.header = opened.header ∧ w.operation = opened.inner := by
  constructor
  · intro h
    unfold read at h
    split_ifs at h
    split at h
    · cases h
    · cases h
      exact ⟨rfl, rfl⟩
  · rintro ⟨hheader, hinner⟩
    obtain ⟨header, operation, signed, within⟩ := w
    obtain ⟨header', inner⟩ := opened
    subst hheader hinner
    unfold read
    rw [dif_pos signed]
    dsimp only
    split
    · rename_i why hwhy
      rw [within] at hwhy
      cases hwhy
    · rfl

end SignedWrite

inductive Dropped
  | envelope (why : EnvelopeError)
  | signed (why : SignedError)

def handed : Except Discard Opened → Except Dropped SignedWrite
  | .error (.envelope why) => .error (.envelope why)
  | .error (.sealed why) => .error (.signed (.sealed why))
  | .ok opened => (SignedWrite.read opened).mapError .signed

def Opener.handle (aead : Aead) : Machine Opener (Bytes × Bytes) (Except Dropped SignedWrite) :=
  (deliver aead).answering handed

def Message.isWrite (m : Message) : Bool := signs m.header.kind && decide (m.inner.length ≤ maxOperation)

def Message.said (m : Message) : Header × Bytes := (m.header, m.inner)

theorem handed_write {m : Message} (h : m.isWrite = true) :
    ∃ w, handed (.ok ⟨m.header, m.inner⟩) = .ok w ∧ w.given = m.said := by
  obtain ⟨hsigned, hwithin⟩ := Bool.and_eq_true_iff.mp h
  have hread : SignedWrite.read ⟨m.header, m.inner⟩ =
      .ok ⟨m.header, m.inner, hsigned, withinCap_ok.mpr (of_decide_eq_true hwithin)⟩ :=
    SignedWrite.read_ok.mpr ⟨rfl, rfl⟩
  exact ⟨_, mapError_ok.mpr hread, rfl⟩

theorem handed_other {m : Message} (h : m.isWrite = false) :
    handed (.ok ⟨m.header, m.inner⟩) = .error (.signed (.notSigned m.header.kind)) ∨
      handed (.ok ⟨m.header, m.inner⟩) = .error (.signed (.operationTooLong m.inner.length)) := by
  unfold handed SignedWrite.read
  dsimp only
  by_cases hsigned : signs m.header.kind = true
  · rw [dif_pos hsigned]
    have hlong : m.inner.length > maxOperation := by
      rw [Message.isWrite, hsigned, Bool.true_and] at h
      exact Nat.not_le.mp (of_decide_eq_false h)
    split
    · rename_i why hwhy
      rw [withinCap, if_pos hlong] at hwhy
      cases hwhy
      exact .inr rfl
    · rename_i hok
      rw [withinCap, if_pos hlong] at hok
      cases hok
  · rw [dif_neg hsigned]
    exact .inl rfl

namespace Opener

structure Opens (aead : Aead) (key arrival : Bytes) (frame : SealedFrame) (body tag inner : Bytes) : Prop where
  decodes : ∃ envelope, Envelope.decode arrival = .ok envelope ∧ SealedFrame.decode envelope = .ok frame
  split : frame.ciphertext = body ++ tag
  tagged : tag.length = tagBytes
  decrypts : aead.decrypt key (nonceBytes frame.nonce.toNat) (ad frame.header) body tag = some inner

/-- Of these arrivals, none opens but by a body and a tag that one of the messages was sealed into, under its own nonce
and associated data. -/
def Unforged (aead : Aead) (key : Bytes) (messages : List Message) (arrivals : List (Bytes × Bytes)) : Prop :=
  ∀ arrival ∈ arrivals, ∀ frame body tag inner, Opens aead key arrival.1 frame body tag inner →
    ∃ m ∈ messages, nonceBytes frame.nonce.toNat = nonceBytes m.nonce.toNat ∧ ad frame.header = ad m.header ∧
      aead.encrypt key (nonceBytes m.nonce.toNat) (ad m.header) m.inner = some (body, tag)

theorem Unforged.opened {aead : Aead} {key : Bytes} {messages : List Message} {arrivals : List (Bytes × Bytes)}
    (h : Unforged aead key messages arrivals) (hsound : aead.Sound key) {arrival : Bytes × Bytes}
    (harrival : arrival ∈ arrivals) {frame : SealedFrame} {body tag inner : Bytes}
    (hopens : Opens aead key arrival.1 frame body tag inner) :
    ∃ m ∈ messages, frame.nonce = m.nonce ∧ frame.header = m.header ∧ inner = m.inner := by
  obtain ⟨m, hm, hnonce, hadditional, hencrypt⟩ := h arrival harrival frame body tag inner hopens
  have hsame := nonceBytes_inj frame.nonce.toNat_lt m.nonce.toNat_lt hnonce
  have hdecrypt := hsound _ _ _ _ _ hencrypt
  rw [← hnonce, ← hadditional, hopens.decrypts] at hdecrypt
  exact ⟨m, hm, UInt64.toNat_inj.mp hsame, ad_inj hadditional, Option.some.inj hdecrypt⟩

/-- What the client sealed is no forgery, however often it arrives, nor is what does not decode. -/
theorem unforged_genuine {aead : Aead} {key : Bytes} {side : Direction} {messages : List Message}
    {arrivals : List (Bytes × Bytes)} (hgenuine : ∀ m ∈ messages, m.Genuine aead key side)
    (hfrom : ∀ arrival ∈ arrivals, (∃ m ∈ messages, arrival.1 = m.frame) ∨
      ∃ why, Envelope.decode arrival.1 = .error why) : Unforged aead key messages arrivals := by
  intro arrival harrival frame body tag inner hopens
  obtain ⟨envelope, henvelope, hframe⟩ := hopens.decodes
  rcases hfrom arrival harrival with ⟨m, hm, hsame⟩ | ⟨why, hwhy⟩
  · have hg := hgenuine m hm
    obtain ⟨capacity, hc, hwrote⟩ := hg.wrote
    obtain ⟨envelope', body', tag', henvelope', hframe', hencrypt⟩ := hwrote.decodes hc hg.check hg.nonce
    rw [← hsame, henvelope] at henvelope'
    obtain rfl := Except.ok.inj henvelope'
    obtain rfl := Except.ok.inj (hframe.symm.trans hframe')
    have htag : tag.length = tag'.length := hopens.tagged.trans (aead.encrypt_length hencrypt).2.symm
    obtain ⟨rfl, rfl⟩ := List.append_inj' hopens.split htag.symm
    exact ⟨m, hm, rfl, rfl, hencrypt⟩
  · rw [hwhy] at henvelope
    cases henvelope

/-- What one arrival does: nothing but a refusal, or a nonce that the window admits and a body that the AEAD opens. -/
theorem deliver_cases (aead : Aead) (rx : Opener) (arrival : Bytes × Bytes) :
    (∃ why, rx.deliver aead arrival = (rx, .error why)) ∨
      ∃ frame body tag inner, Opens aead rx.key arrival.1 frame body tag inner ∧
        rx.window.admits frame.nonce.toNat = .ok () ∧
        rx.deliver aead arrival = ({ rx with window := rx.window.accept frame.nonce.toNat }, .ok ⟨frame.header, inner⟩) := by
  unfold deliver
  cases henvelope : Envelope.decode arrival.1 with
  | error why => exact .inl ⟨_, rfl⟩
  | ok envelope =>
    dsimp only
    cases hframe : SealedFrame.decode envelope with
    | error why => exact .inl ⟨_, rfl⟩
    | ok frame =>
      dsimp only
      unfold SealedFrame.open
      dsimp only
      by_cases hlast : frame.nonce = lastNonce
      · rw [if_pos hlast]
        exact .inl ⟨_, rfl⟩
      · rw [if_neg hlast]
        cases hadmits : rx.window.admits frame.nonce.toNat with
        | error why => exact .inl ⟨_, rfl⟩
        | ok =>
          dsimp only
          split_ifs
          · exact .inl ⟨_, rfl⟩
          · exact .inl ⟨_, rfl⟩
          · unfold openInPlace
            split_ifs with htag
            · exact .inl ⟨_, rfl⟩
            · cases hdecrypt : aead.decrypt rx.key (nonceBytes frame.nonce.toNat) (ad frame.header)
                (frame.ciphertext.take (frame.ciphertext.length - tagBytes))
                (frame.ciphertext.drop (frame.ciphertext.length - tagBytes)) with
              | none => exact .inl ⟨_, rfl⟩
              | some inner =>
                refine .inr ⟨frame, _, _, inner, ⟨⟨envelope, henvelope, hframe⟩, ?_, not_not.mp htag, hdecrypt⟩, hadmits,
                  rfl⟩
                exact (List.take_append_drop _ _).symm

/-- The messages that arrivals opened, in their order: each one that was sealed, and none twice. -/
theorem deliver_records {aead : Aead} {key : Bytes} (hsound : aead.Sound key) {messages : List Message} (side : Direction)
    {arrivals : List (Bytes × Bytes)} (hunforged : Unforged aead key messages arrivals) : ∃ past : List Message, past ⊆ messages ∧
      (past.map fun m => m.nonce.toNat).Nodup ∧
      ((deliver aead).outputs (.new key side) arrivals).filterMap Except.toOption =
        past.map (fun m => (⟨m.header, m.inner⟩ : Opened)) ∧
      ((deliver aead).final (.new key side) arrivals).key = key ∧
      ((deliver aead).final (.new key side) arrivals).window.span = span side ∧
      ((deliver aead).final (.new key side) arrivals).window.Holds (past.map fun m => m.nonce.toNat) := by
  induction arrivals using List.reverseRecOn with
  | nil => cases side <;> exact ⟨[], by simp, .nil, rfl, rfl, rfl, rfl⟩
  | append_singleton arrivals arrival ih =>
    obtain ⟨past, hsub, hnodup, hopened, hkey, hspan, hholds⟩ := ih fun earlier hearlier =>
      hunforged earlier (List.mem_append_left _ hearlier)
    rw [Machine.outputs_append, Machine.final_append, Machine.final_cons, Machine.final_nil, List.filterMap_append,
      hopened, Machine.outputs_cons, Machine.outputs_nil]
    generalize (deliver aead).final (.new key side) arrivals = rx at *
    have hlimit : rx.window.span ≤ 64 := hspan.trans_le (by cases side <;> decide)
    rcases rx.deliver_cases aead arrival with ⟨why, hstep⟩ | ⟨frame, body, tag, inner, hopens, hadmits, hstep⟩
    · rw [hstep]
      exact ⟨past, hsub, hnodup, List.append_nil _, hkey, hspan, hholds⟩
    · rw [hkey] at hopens
      obtain ⟨m, hm, hnonce, hheader, rfl⟩ := hunforged.opened hsound
        (List.mem_append_right _ (List.mem_singleton_self arrival)) hopens
      rw [hnonce] at hadmits hstep
      rw [hheader] at hstep
      have hnew : m.nonce.toNat ∉ past.map fun m => m.nonce.toNat := by
        intro hmem
        rcases (hholds.admits_iff hlimit).mp hadmits with habove | ⟨-, -, -, -, -, hnot⟩
        · exact lt_irrefl _ (habove _ hmem)
        · exact hnot hmem
      rw [hstep]
      refine ⟨past ++ [m], ?_, ?_, ?_, hkey, ?_, ?_⟩
      · intro n hn
        rcases List.mem_append.mp hn with hn | hn
        · exact hsub hn
        · rw [List.mem_singleton.mp hn]
          exact hm
      · rw [List.map_append]
        exact List.nodup_append_comm.mp (List.nodup_cons.mpr ⟨hnew, hnodup⟩)
      · rw [List.map_append]
        rfl
      · simpa using hspan
      · rw [List.map_append]
        exact hholds.accept hlimit hadmits

end Opener

theorem handed_some {out : Except Discard Opened} : (handed out).toOption =
    out.toOption.bind fun opened => (SignedWrite.read opened).toOption := by
  rcases out with (why | why) | opened
  · rfl
  · rfl
  · change ((SignedWrite.read opened).mapError Dropped.signed).toOption = (SignedWrite.read opened).toOption
    cases SignedWrite.read opened <;> rfl

theorem read_given (m : Message) : ((SignedWrite.read ⟨m.header, m.inner⟩).toOption.map SignedWrite.given) =
    if m.isWrite then some m.said else none := by
  cases hwrite : m.isWrite with
  | true =>
    obtain ⟨w, hw, hgiven⟩ := handed_write hwrite
    rw [mapError_ok.mp hw]
    exact congrArg some hgiven
  | false =>
    cases hread : SignedWrite.read ⟨m.header, m.inner⟩ with
    | error why => rfl
    | ok w =>
      have hhanded : handed (.ok ⟨m.header, m.inner⟩) = .ok w := mapError_ok.mpr hread
      rcases handed_other hwrite with h | h
      · rw [h] at hhanded
        cases hhanded
      · rw [h] at hhanded
        cases hhanded

/-- Whatever arrives and is no forgery, a handler is given nothing but writes that the client sealed, and each of them at
most once. -/
theorem handled_sealed {aead : Aead} {key : Bytes} (hsound : aead.Sound key) {messages : List Message}
    {arrivals : List (Bytes × Bytes)} (hunforged : Opener.Unforged aead key messages arrivals) :
    ((((Opener.handle aead).outputs (.new key .request) arrivals).filterMap Except.toOption).map
      SignedWrite.given).Subperm ((messages.filter Message.isWrite).map Message.said) := by
  obtain ⟨past, hsub, hnodup, hopened, -⟩ := Opener.deliver_records hsound .request hunforged
  have hgiven : (((Opener.handle aead).outputs (.new key .request) arrivals).filterMap Except.toOption).map
      SignedWrite.given = (past.filter Message.isWrite).map Message.said := by
    rw [Opener.handle, Machine.answering_outputs, List.filterMap_map]
    have hboth : Except.toOption ∘ handed = fun out => out.toOption.bind fun opened =>
        (SignedWrite.read opened).toOption := funext fun _ => handed_some
    rw [hboth, ← List.filterMap_filterMap, hopened, List.filterMap_map, List.map_filterMap]
    have hone : (fun m : Message => ((fun opened => (SignedWrite.read opened).toOption) ∘
        fun m : Message => (⟨m.header, m.inner⟩ : Opened)) m |>.map SignedWrite.given) =
          fun m => if m.isWrite then some m.said else none := funext read_given
    rw [hone]
    clear hopened hnodup hsub
    induction past with
    | nil => rfl
    | cons m past ih =>
      rw [List.filterMap_cons, List.filter_cons]
      cases m.isWrite with
      | true => exact congrArg (m.said :: ·) ih
      | false => exact ih
  rw [hgiven]
  have honce : (past.filter Message.isWrite).Subperm (messages.filter Message.isWrite) := by
    apply List.subperm_of_subset (hnodup.of_map.filter _)
    intro m hm
    obtain ⟨hpast, hwrite⟩ := List.mem_filter.mp hm
    exact List.mem_filter.mpr ⟨hsub hpast, hwrite⟩
  obtain ⟨kept, hperm, hsublist⟩ := honce
  exact ⟨kept.map Message.said, hperm.map _, hsublist.map _⟩

theorem request_length (header : Header) {sealed : Bytes} (h : sealed.length ≤ 0xFFFF) :
    (envelopeItem header none sealed).spelling.length ≤ 16 + sealed.length := by
  have hkind := ofNat_length_u8 header.kind.byte
  have hsession := ofNat_length_u16 header.session.raw
  have hreqId := ofNat_length_u32 header.reqId
  have hhead := (headBytes_le .bytes).2.2.1 h
  have hbytes : (Item.ofBytes sealed).spelling.length ≤ 3 + sealed.length := by
    rw [Item.ofBytes, Item.spelling, Token.spelling, List.length_append]
    omega
  have hmap : (sealedPairs none sealed).length < 24 := by simp [sealedPairs]
  have hkeys := ofPairs_length hmap
  have hfirst := pair_length (k := 1) (by decide) (Item.ofBytes sealed)
  rw [sealedPairs, Option.map_none, Option.toList_none, List.append_nil, spellPairs_cons, List.length_append,
    hfirst] at hkeys
  rw [envelopeItem, ofItems_length (by simp)]
  simp only [Item.spellAll, List.length_append, sealedPairs, Option.map_none, Option.toList_none, List.append_nil]
  rw [hkeys]
  have hwidths : header.kind.byte.toUInt64.toNat = header.kind.byte.toNat ∧
      header.session.raw.toUInt64.toNat = header.session.raw.toNat ∧ header.reqId.toUInt64.toNat = header.reqId.toNat :=
    ⟨rfl, rfl, rfl⟩
  rw [hwidths.1, hwidths.2.1, hwidths.2.2]
  simp only [Item.spellPairs, List.length_nil]
  omega

theorem Signed.seals (s : Signed) {aead : Aead} (haead : aead.Encrypts) {tx : RequestSealer} {next : UInt32}
    (hnext : nextReqId tx.next = some next) (session : SessionId) {dst : Bytes} (hdst : maxPayload ≤ dst.length) :
    ∃ len, len ≤ dst.length ∧ (s.seal tx aead session dst).1 = .ok (tx.next, len) := by
  have hkind : Direction.of s.kind = some .request := by
    have hsigned := s.signed
    cases hs : s.kind <;> rw [hs] at hsigned <;> first | rfl | cases hsigned
  have hwithin := withinCap_ok.mp s.within
  have hsmall : (List.replicate (s.operation.length + tagBytes) (0 : UInt8)).length ≤ 0xFFFF := by
    rw [List.length_replicate]
    unfold maxOperation at hwithin
    unfold tagBytes
    omega
  have hlength := request_length ⟨s.kind, session, tx.next⟩ hsmall
  rw [List.length_replicate] at hlength
  have hroom : (envelopeItem ⟨s.kind, session, tx.next⟩ none
      (List.replicate (s.operation.length + tagBytes) 0)).spelling.length ≤ dst.length := by
    unfold maxOperation at hwithin
    unfold maxPayload at hdst
    unfold tagBytes at hlength ⊢
    omega
  obtain ⟨len, hlen, hwrite⟩ := @write_ok aead haead tx.key ⟨s.kind, session, tx.next⟩ none tx.next.toNat
    _ _ hroom
  rw [Option.map_none] at hwrite
  refine ⟨len, hlen, ?_⟩
  unfold Signed.seal RequestSealer.seal
  rw [if_neg (not_not.mpr hkind), hnext]
  dsimp only
  rw [hwrite]
  rfl

def Signed.numbered (session : SessionId) : ℕ → List Signed → List (Header × Bytes)
  | _, [] => []
  | n, s :: rest => (⟨s.kind, session, UInt32.ofNat n⟩, s.operation) :: numbered session (n + 1) rest

namespace Session

theorem sent_write {aead : Aead} {st : Session} {s : Signed} {session : SessionId} {dst : Bytes} {m : Message}
    (hm : m ∈ (s.call session dst).sent .request (call aead st (s.call session dst)).2) :
    m.isWrite = true ∧ m.said = (⟨s.kind, session, st.client.next⟩, s.operation) := by
  have hsent := @RequestSealer.seal_sent st.client aead s.kind session s.operation dst
  rw [Signed.call, call] at hm
  rcases hseal : st.client.seal aead s.kind session s.operation dst with ⟨⟨why | ⟨reqId, len⟩, out, used⟩, client⟩
  · simp only [hseal] at hm
    cases hm
  · simp only [hseal] at hm hsent
    obtain ⟨rfl, -⟩ := hsent rfl
    obtain rfl := List.mem_singleton.mp hm
    refine ⟨?_, rfl⟩
    rw [Message.isWrite, s.signed, Bool.true_and]
    exact decide_eq_true (withinCap_ok.mp s.within)

theorem sent_writes {aead : Aead} (haead : aead.Encrypts) {session : SessionId} {dst : Bytes}
    (hdst : maxPayload ≤ dst.length) (writes : List Signed) (st : Session)
    (hfew : st.client.next.toNat + writes.length < 2 ^ 32) :
    (sent aead .request st (writes.map fun s => s.call session dst)).map Message.said =
      Signed.numbered session st.client.next.toNat writes := by
  induction writes generalizing st with
  | nil => rfl
  | cons s rest ih =>
    rw [List.length_cons] at hfew
    have hroom : nextReqId st.client.next = some (st.client.next + 1) := by
      apply if_neg
      intro hlast
      have hnat := congrArg UInt32.toNat hlast
      rw [show (0xFFFFFFFF : UInt32).toNat = 2 ^ 32 - 1 from rfl] at hnat
      omega
    obtain ⟨len, -, hseal⟩ := s.seals haead hroom session hdst
    have hresult : (st.client.seal aead s.kind session s.operation dst).1.result = .ok (st.client.next, len) :=
      mapError_ok.mp hseal
    obtain ⟨-, -, hnext, -⟩ := RequestSealer.seal_sent st.client aead s.kind session s.operation dst hresult
    have hstate : (call aead st (s.call session dst)).1.client.next.toNat = st.client.next.toNat + 1 := hnext
    have hone : ((s.call session dst).sent .request (call aead st (s.call session dst)).2).map Message.said =
        [(⟨s.kind, session, st.client.next⟩, s.operation)] := by
      rw [Signed.call, call]
      rcases h : st.client.seal aead s.kind session s.operation dst with ⟨⟨result, out, used⟩, client⟩
      rw [h] at hresult
      dsimp only at hresult ⊢
      rw [hresult]
      rfl
    have hrest := ih (call aead st (s.call session dst)).1 (by rw [hstate]; omega)
    rw [List.map_cons, sent, List.map_append, hone, hrest, hstate, Signed.numbered, UInt32.ofNat_toNat]
    rfl

theorem all_writes (aead : Aead) (session : SessionId) (dst : Bytes) (writes : List Signed) (st : Session) :
    ∀ m ∈ sent aead .request st (writes.map fun s => s.call session dst), m.isWrite = true := by
  induction writes generalizing st with
  | nil => simp [sent]
  | cons s rest ih =>
    intro m hm
    rcases List.mem_append.mp hm with hm | hm
    · exact (sent_write hm).1
    · exact ih _ m hm

theorem handle_outcome {aead : Aead} {requests answers : Bytes} {calls : List SealCall}
    (hcalls : ∀ c ∈ calls, c.dst.length < 2 ^ 64) (hsound : aead.Sound requests) {deliveries : List Delivery}
    (hreaches : Reaches .request (sent aead .request (.new requests answers) calls) deliveries) {k : ℕ} {d : Delivery}
    (hd : deliveries[k]? = some d) :
    ((∀ e ∈ deliveries.take k, e.message ≠ d.message) →
      ((Opener.handle aead).outputs (.new requests .request) (deliveries.map Delivery.arrival))[k]? =
        some (handed (.ok ⟨d.message.header, d.message.inner⟩))) ∧
    ((∃ e ∈ deliveries.take k, e.message = d.message) →
      ((Opener.handle aead).outputs (.new requests .request) (deliveries.map Delivery.arrival))[k]? =
        some (.error (.signed (.sealed (.replayed d.message.nonce.toNat))))) := by
  obtain ⟨hall, hrising⟩ := sent_genuine aead .request (s := .new requests answers) hcalls
  have houtcome := Opener.deliver_sound hsound (fun m hm => (hall m hm).1) hreaches hd
  have hmem := hreaches.sealed d (List.mem_of_getElem? hd)
  rw [Opener.handle, Machine.answering_outputs, List.getElem?_map]
  constructor
  · intro hnew
    have hnonce : ∀ e ∈ deliveries.take k, e.message.nonce ≠ d.message.nonce := fun e he hsame =>
      hnew e he (sent_inj hrising (hreaches.sealed e (List.mem_of_mem_take he)) hmem hsame)
    rw [houtcome.1 hnonce, Option.map_some]
  · rintro ⟨e, he, hsame⟩
    rw [houtcome.2 ⟨e, he, by rw [hsame]⟩, Option.map_some]
    rfl

/-- Whatever arrives, handlers are given only writes that the client sealed, each at most once, as long as none of it is
forged; a message that arrives comes to its handler the first time, where it is a write, and is dropped every other time. -/
theorem writes_once (aead : Aead) (requests answers : Bytes) (calls : List SealCall)
    (hcalls : ∀ c ∈ calls, c.dst.length < 2 ^ 64) (hsound : aead.Sound requests) :
    (∀ arrivals, Opener.Unforged aead requests (sent aead .request (.new requests answers) calls) arrivals →
      ((((Opener.handle aead).outputs (.new requests .request) arrivals).filterMap Except.toOption).map
        SignedWrite.given).Subperm
        (((sent aead .request (.new requests answers) calls).filter Message.isWrite).map Message.said)) ∧
    ∀ deliveries, Reaches .request (sent aead .request (.new requests answers) calls) deliveries →
      ∀ (k : ℕ) d, deliveries[k]? = some d →
        ((∀ e ∈ deliveries.take k, e.message ≠ d.message) → d.message.isWrite = true → ∃ w,
          ((Opener.handle aead).outputs (.new requests .request) (deliveries.map Delivery.arrival))[k]? = some (.ok w) ∧
            w.given = d.message.said) ∧
        ((∀ e ∈ deliveries.take k, e.message ≠ d.message) → d.message.isWrite = false →
          ((Opener.handle aead).outputs (.new requests .request) (deliveries.map Delivery.arrival))[k]? =
              some (.error (.signed (.notSigned d.message.header.kind))) ∨
            ((Opener.handle aead).outputs (.new requests .request) (deliveries.map Delivery.arrival))[k]? =
              some (.error (.signed (.operationTooLong d.message.inner.length)))) ∧
        ((∃ e ∈ deliveries.take k, e.message = d.message) →
          ((Opener.handle aead).outputs (.new requests .request) (deliveries.map Delivery.arrival))[k]? =
            some (.error (.signed (.sealed (.replayed d.message.nonce.toNat))))) := by
  refine ⟨fun arrivals => handled_sealed hsound, fun deliveries hreaches k d hd => ?_⟩
  obtain ⟨hfirst, hagain⟩ := handle_outcome hcalls hsound hreaches hd
  refine ⟨fun hnew hwrite => ?_, fun hnew hother => ?_, hagain⟩
  · obtain ⟨w, hw, hgiven⟩ := handed_write hwrite
    exact ⟨w, (hfirst hnew).trans (congrArg some hw), hgiven⟩
  · exact (handed_other hother).imp (fun h => (hfirst hnew).trans (congrArg some h))
      fun h => (hfirst hnew).trans (congrArg some h)

def setting : SealCall := .request .time (.assigned 3 (by decide)) [0xA1, 1, 2] (List.replicate 64 0)

theorem setting_sent : (sent .transparent .request (.new [] []) [setting]).map (fun m => (m.header, m.nonce, m.inner)) =
    [(⟨.time, .assigned 3 (by decide), 1⟩, 1, [0xA1, 1, 2])] := by
  decide

/-- Its frame arrives twice, bytes that are none in between: the handler gets it once. -/
theorem writes_once_setting : ∃ m, sent .transparent .request (.new [] []) [setting] = [m] ∧
    ((((Opener.handle .transparent).outputs (.new [] .request)
      [(m.frame, List.replicate 8 0), ([], []), (m.frame, List.replicate 8 0)]).filterMap Except.toOption).map
        SignedWrite.given).Subperm [m.said] ∧
    ((Opener.handle .transparent).outputs (.new [] .request)
      ([⟨m, List.replicate 8 0⟩, ⟨m, List.replicate 8 0⟩].map Delivery.arrival))[1]? =
        some (.error (.signed (.sealed (.replayed 1)))) := by
  obtain ⟨m, hm, hsaid⟩ := List.map_eq_singleton_iff.mp setting_sent
  obtain ⟨hheader, hrest⟩ := Prod.mk.inj hsaid
  obtain ⟨hnonce, hinner⟩ := Prod.mk.inj hrest
  have hmem : m ∈ sent .transparent .request (.new [] []) [setting] := hm ▸ List.mem_singleton_self m
  have hcalls : ∀ c ∈ [setting], c.dst.length < 2 ^ 64 := by decide
  obtain ⟨hgenuine, -⟩ := sent_genuine .transparent .request (s := .new [] []) hcalls
  have hunforged : Opener.Unforged .transparent [] (sent .transparent .request (.new [] []) [setting])
      [(m.frame, List.replicate 8 0), ([], []), (m.frame, List.replicate 8 0)] := by
    apply Opener.unforged_genuine fun m hm => (hgenuine m hm).1
    simp only [List.forall_mem_cons]
    exact ⟨.inl ⟨m, hmem, rfl⟩, .inr ⟨_, rfl⟩, .inl ⟨m, hmem, rfl⟩, by simp⟩
  have hreaches : Reaches .request (sent .transparent .request (.new [] []) [setting])
      [⟨m, List.replicate 8 0⟩, ⟨m, List.replicate 8 0⟩] := by
    refine ⟨?_, ?_, ?_⟩
    · intro d hd
      obtain rfl : d = ⟨m, List.replicate 8 0⟩ := by simpa using hd
      exact hmem
    · intro d hd
      obtain rfl : d = ⟨m, List.replicate 8 0⟩ := by simpa using hd
      rw [hinner, List.length_replicate]
      decide
    · intro k d hd e he
      obtain rfl : d = ⟨m, List.replicate 8 0⟩ := by simpa using List.mem_of_getElem? hd
      obtain rfl : e = ⟨m, List.replicate 8 0⟩ := by simpa using List.mem_of_mem_take he
      exact Nat.lt_add_of_pos_right (by decide)
  obtain ⟨hgiven, honce⟩ := writes_once .transparent [] [] [setting] hcalls (Aead.transparent_sound [])
  have hgiven' := hgiven _ hunforged
  have hwrite : m.isWrite = true := by
    rw [Message.isWrite, hheader, hinner]
    rfl
  rw [hm, List.filter_cons_of_pos hwrite, List.filter_nil, List.map_singleton] at hgiven'
  have hagain := (honce _ hreaches 1 _ rfl).2.2 ⟨_, List.mem_cons_self, rfl⟩
  rw [hnonce] at hagain
  exact ⟨m, hm, hgiven', hagain⟩

/-- Writes that are sealed one after another into payloads all go out, numbered from 1, and come to their handlers as
they are when the frames arrive in order. -/
theorem writes_arrive (aead : Aead) (haead : aead.Encrypts) (requests answers : Bytes) (hsound : aead.Sound requests)
    (session : SessionId) (dst buffer : Bytes) (hdst : maxPayload ≤ dst.length) (hshort : dst.length < 2 ^ 64)
    (hbuffer : maxOperation ≤ buffer.length) (writes : List Signed) (hfew : writes.length + 1 < 2 ^ 32) :
    ((Opener.handle aead).outputs (.new requests .request)
      ((sent aead .request (.new requests answers) (writes.map fun s => s.call session dst)).map fun m =>
        (m.frame, buffer))).map (fun out => out.toOption.map SignedWrite.given) =
      (Signed.numbered session 1 writes).map some := by
  have hcalls : ∀ c ∈ writes.map fun s => s.call session dst, c.dst.length < 2 ^ 64 := by
    intro c hc
    obtain ⟨s, -, rfl⟩ := List.mem_map.mp hc
    exact hshort
  obtain ⟨-, hrising⟩ := sent_genuine aead .request (s := .new requests answers) hcalls
  have hroom : (Session.new requests answers).client.next.toNat + writes.length < 2 ^ 32 := by
    change 1 + writes.length < 2 ^ 32
    omega
  have hsaid : (sent aead .request (.new requests answers) (writes.map fun s => s.call session dst)).map Message.said =
      Signed.numbered session 1 writes := sent_writes haead hdst writes (.new requests answers) hroom
  have hwrites := all_writes aead session dst writes (.new requests answers)
  have hboth : ∀ deliveries, Reaches .request _ deliveries → ∀ (k : ℕ) d, deliveries[k]? = some d → _ :=
    fun deliveries hreaches k d hd => (@handle_outcome _ _ answers _ hcalls hsound _ hreaches _ _ hd).1
  generalize sent aead .request (.new requests answers) (writes.map fun s => s.call session dst) = messages at *
  have hbefore : ∀ (k : ℕ) m, messages[k]? = some m → ∀ e ∈ messages.take k, e.nonce < m.nonce := by
    intro k m hm e he
    have hsplit := hrising
    rw [← List.take_append_drop k messages] at hsplit
    have hlater : m ∈ messages.drop k := by
      apply List.mem_of_getElem? (i := 0)
      rw [List.getElem?_drop]
      exact hm
    exact (List.pairwise_append.mp hsplit).2.2 e he m hlater
  have hreaches : Reaches .request messages (messages.map fun m => ⟨m, buffer⟩) := by
    refine ⟨?_, ?_, ?_⟩
    · intro d hd
      obtain ⟨m, hm, rfl⟩ := List.mem_map.mp hd
      exact hm
    · intro d hd
      obtain ⟨m, hm, rfl⟩ := List.mem_map.mp hd
      obtain ⟨-, hwithin⟩ := Bool.and_eq_true_iff.mp (hwrites m hm)
      exact (of_decide_eq_true hwithin).trans hbuffer
    · intro k d hd e he
      rw [List.getElem?_map] at hd
      obtain ⟨m, hm, rfl⟩ := Option.map_eq_some_iff.mp hd
      rw [← List.map_take] at he
      obtain ⟨n, hn, rfl⟩ := List.mem_map.mp he
      have hlt := UInt64.lt_iff_toNat_lt.mp (hbefore k m hm n hn)
      exact hlt.trans_le (Nat.le_add_right _ _)
  have harrivals : (messages.map fun m => (m.frame, buffer)) =
      (messages.map fun m => (⟨m, buffer⟩ : Delivery)).map Delivery.arrival := by
    rw [List.map_map]
    rfl
  rw [harrivals, ← hsaid]
  apply List.ext_getElem?
  intro k
  rw [List.getElem?_map, List.getElem?_map, List.getElem?_map]
  cases hm : messages[k]? with
  | none =>
    have hlength : messages.length ≤ k := List.getElem?_eq_none_iff.mp hm
    have hnone : ((Opener.handle aead).outputs (.new requests .request)
        ((messages.map fun m => (⟨m, buffer⟩ : Delivery)).map Delivery.arrival))[k]? = none := by
      apply List.getElem?_eq_none
      rw [Machine.outputs_length, List.length_map, List.length_map]
      exact hlength
    rw [hnone]
    rfl
  | some m =>
    have hd : (messages.map fun m => (⟨m, buffer⟩ : Delivery))[k]? = some ⟨m, buffer⟩ := by
      rw [List.getElem?_map, hm]
      rfl
    have hnew : ∀ e ∈ (messages.map fun m => (⟨m, buffer⟩ : Delivery)).take k, e.message ≠ m := by
      intro e he hsame
      rw [← List.map_take] at he
      obtain ⟨n, hn, rfl⟩ := List.mem_map.mp he
      obtain rfl : n = m := hsame
      exact UInt64.lt_irrefl _ (hbefore k n hm n hn)
    obtain ⟨w, hw, hgiven⟩ := handed_write (hwrites m (List.mem_of_getElem? hm))
    rw [hboth _ hreaches k _ hd hnew, hw]
    exact congrArg (fun said => some (some said)) hgiven

def clock : Signed := ⟨.time, [0xA1, 1, 2], rfl, rfl⟩

theorem writes_arrive_clock : ((Opener.handle .transparent).outputs (.new [] .request)
    ((sent .transparent .request (.new [] []) ([clock, clock].map fun s => s.call (.assigned 3 (by decide))
      (List.replicate 1024 0))).map fun m => (m.frame, List.replicate 960 0))).map
        (fun out => out.toOption.map SignedWrite.given) =
      (Signed.numbered (.assigned 3 (by decide)) 1 [clock, clock]).map some := by
  apply writes_arrive .transparent (fun _ _ _ _ => rfl) [] [] (Aead.transparent_sound [])
  · exact (List.length_replicate (a := (0 : UInt8))).ge
  · rw [List.length_replicate]
    decide
  · exact (List.length_replicate (a := (0 : UInt8))).ge
  · decide

end Session

end Km43.Sealed
