import Km43.Cbor.Room
import Km43.Sealed.Decode
import Km43.Sealed.Nonces

namespace Km43.Sealed

open Library Cbor

/-- What a seal that succeeds wrote: an envelope with the ciphertext and its tag in place. -/
structure Wrote (aead : Aead) (key : Bytes) (header : Header) (carried : Option UInt64) (nonce : ℕ)
    (inner : Bytes) (capacity : ℕ) (frame : Bytes) : Prop where
  sealed : ∃ body tag w w' len, aead.encrypt key (nonceBytes nonce) (ad header) inner = some (body, tag) ∧
    writeAll (calls header carried (body ++ tag)) (.new capacity) = .ok ((), w) ∧
    CborWriter.finish w = .ok (len, w') ∧ w.out = frame

theorem layout_eq (header : Header) (carried : Option UInt64) (sealedLen : ℕ) :
    layout header (carried.map UInt64.toNat) sealedLen = (do
      writeAll [.array 4, .u64 header.kind.byte.toUInt64, .u64 header.session.raw.toUInt64,
        .u64 header.reqId.toUInt64, .map (if carried.isSome then 2 else 1), .key 1]
      let start ← CborWriter.bytesToFill sealedLen
      writeAll (carried.toList.flatMap fun nonce => [.key 2, .u64 nonce])
      let len ← CborWriter.finish
      pure (start, len)) := by
  cases carried with
  | none =>
    simp only [layout, Header.write, carry, writeAll, bind_assoc, pure_bind]
    rfl
  | some nonce =>
    simp only [layout, Header.write, carry, writeAll, bind_assoc, pure_bind, Option.map, Call.write,
      Option.toList, List.flatMap_cons, List.flatMap_nil, List.append_nil]
    rfl

theorem sealInPlace_ok {aead : Aead} {key ad body out tag : Bytes} {nonce room : ℕ}
    (h : sealInPlace aead key nonce ad body room = .ok (out, tag)) :
    aead.encrypt key (nonceBytes nonce) ad body = some (out, tag) := by
  unfold sealInPlace at h
  cases he : aead.encrypt key (nonceBytes nonce) ad body with
  | none =>
    rw [he] at h
    cases h
  | some p =>
    obtain ⟨out', tag'⟩ := p
    simp only [he] at h
    split_ifs at h
    cases h
    rfl

theorem write_wrote {aead : Aead} {key : Bytes} {header : Header} {carried : Option UInt64} {nonce len : ℕ}
    {inner dst : Bytes} (h : (write aead key header nonce (carried.map UInt64.toNat) inner dst).result = .ok len) :
    Wrote aead key header carried nonce inner dst.length
      ((write aead key header nonce (carried.map UInt64.toNat) inner dst).dst.take len) := by
  unfold write at h ⊢
  dsimp only at h ⊢
  cases hlayout : layout header (carried.map UInt64.toNat) (inner.length + tagBytes) (.new dst.length) with
  | error why =>
    rw [hlayout] at h
    cases h
  | ok p =>
    obtain ⟨⟨start, len'⟩, cbor⟩ := p
    simp only [hlayout] at h ⊢
    rw [layout_eq] at hlayout
    obtain ⟨⟨⟩, w₁, h₁, hlayout⟩ := bind_run_ok.mp hlayout
    obtain ⟨start', w₂, h₂, hlayout⟩ := bind_run_ok.mp hlayout
    obtain ⟨⟨⟩, w₃, h₃, hlayout⟩ := bind_run_ok.mp hlayout
    obtain ⟨len'', w₄, h₄, hlayout⟩ := bind_run_ok.mp hlayout
    cases hlayout
    cases hslice : slice (cbor.out ++ dst.drop cbor.out.length) start (start + (inner.length + tagBytes)) with
    | none =>
      simp only [hslice] at h
      cases h
    | some region =>
      simp only [hslice] at h ⊢
      split_ifs at h ⊢
      · cases h
      · cases hseal : sealInPlace aead key nonce (ad header) inner (region.length - inner.length) with
        | error why =>
          simp only [hseal] at h
          cases h
        | ok p =>
          obtain ⟨body, tag⟩ := p
          simp only [hseal, Except.ok.injEq] at h ⊢
          subst h
          have hencrypt := sealInPlace_ok hseal
          obtain ⟨hbody, htag⟩ := aead.encrypt_length hencrypt
          have hlen : (body ++ tag).length = inner.length + tagBytes := by
            rw [List.length_append, hbody, htag]
          rw [← hlen] at h₂
          obtain ⟨w', hw', hnest, hfits, hpaste⟩ := fill_late h₂ h₃
          obtain ⟨hstack, rfl⟩ := finish_inv h₄
          have hout := finish_out h₄
          have hstack' : w'.stack = [] := by
            rw [CborWriter.stack, hnest]
            exact hstack
          have hlast : w'.out.length = w₃.out.length := paste_length hpaste
          refine ⟨body, tag, w', _, _, hencrypt, ?_, finish_ok hstack', ?_⟩
          · have hcalls : calls header carried (body ++ tag) =
                [.array 4, .u64 header.kind.byte.toUInt64, .u64 header.session.raw.toUInt64,
                  .u64 header.reqId.toUInt64, .map (if carried.isSome then 2 else 1), .key 1] ++
                (.fill (body ++ tag) :: carried.toList.flatMap fun nonce => [.key 2, .u64 nonce]) := rfl
            rw [hcalls, writeAll_append]
            exact bind_run_ok.mpr ⟨(), w₁, h₁, hw'⟩
          · rw [hout, paste_append hpaste, Option.getD_some, ← hlast, List.take_left]

theorem Wrote.decodes {aead : Aead} {key inner frame : Bytes} {header : Header} {direction : Direction}
    {nonce : UInt64} {capacity : ℕ}
    (h : Wrote aead key header (carries direction nonce) nonce.toNat inner capacity frame)
    (hc : capacity < 2 ^ 64) (hcheck : Direction.check header = .ok direction)
    (hnonce : direction = .request → nonce = header.reqId.toUInt64) :
    ∃ envelope body tag, Envelope.decode frame = .ok envelope ∧
      SealedFrame.decode envelope = .ok ⟨header, nonce, body ++ tag⟩ ∧
      aead.encrypt key (nonceBytes nonce.toNat) (ad header) inner = some (body, tag) := by
  obtain ⟨body, tag, w, w', len, hencrypt, hw, hf, rfl⟩ := h.sealed
  obtain ⟨r, r', hread, hslots, hfinish⟩ := Takes.run_both
    (Envelope.read_takes header (if (carries direction nonce).isSome then 2 else 1))
    (SealedFrame.slots_takes direction nonce (body ++ tag)) hc hw hf
  obtain ⟨⟨⟩, r₁, h₁, h₂⟩ := bind_run_ok.mp hread
  have hkeys : (if (carries direction nonce).isSome then 2 else 1 : UInt64).toNat =
      if (carries direction nonce).isSome then 2 else 1 := by
    cases direction <;> rfl
  rw [hkeys] at h₂
  refine ⟨⟨header, if (carries direction nonce).isSome then 2 else 1, r⟩, body, tag, ?_, ?_, hencrypt⟩
  · exact bind_ok.mpr ⟨((), r₁), h₁, bind_ok.mpr ⟨(_, r), h₂, rfl⟩⟩
  · refine bind_ok.mpr ⟨direction, hcheck, bind_ok.mpr ⟨(_, r'), hslots,
      bind_ok.mpr ⟨(), mapError_ok.mpr hfinish, bind_ok.mpr ⟨nonce, ?_, rfl⟩⟩⟩⟩
    cases direction with
    | request => exact congrArg Except.ok (hnonce rfl).symm
    | controller => rfl

/-- Under this key, what was sealed opens with the nonce and the associated data that it was sealed
with, and with no others. -/
def Aead.Exact (aead : Aead) (key : Bytes) : Prop :=
  ∀ nonce ad body out tag, aead.encrypt key nonce ad body = some (out, tag) → ∀ nonce' ad',
    aead.decrypt key nonce' ad' out tag = if nonce' = nonce ∧ ad' = ad then some body else none

theorem ad_inj {a b : Header} (h : ad a = ad b) : a = b := by
  obtain ⟨hkind, hrest⟩ := List.cons.inj h
  have hlen : (BigEndian.digits 2 a.session.raw.toNat).length =
      (BigEndian.digits 2 b.session.raw.toNat).length := by simp
  obtain ⟨hsession, hreqId⟩ := List.append_inj hrest hlen
  have hdigits : ∀ {k m n : ℕ}, m < 256 ^ k → n < 256 ^ k → BigEndian.digits k m = BigEndian.digits k n →
      m = n := by
    intro k m n hm hn he
    have hv := congrArg BigEndian.value he
    rwa [BigEndian.value_digits, BigEndian.value_digits, Nat.mod_eq_of_lt hm, Nat.mod_eq_of_lt hn] at hv
  have hraw := hdigits (a.session.raw.toNat_lt.trans_eq (by norm_num))
    (b.session.raw.toNat_lt.trans_eq (by norm_num)) hsession
  have hid := hdigits (a.reqId.toNat_lt.trans_eq (by norm_num)) (b.reqId.toNat_lt.trans_eq (by norm_num)) hreqId
  obtain ⟨kind, session, reqId⟩ := a
  obtain ⟨kind', session', reqId'⟩ := b
  have hkind : kind = kind' := MessageType.byte_inj hkind
  have hsession : session = session' := SessionId.raw_inj.mp (UInt16.toNat_inj.mp hraw)
  have hid : reqId = reqId' := UInt32.toNat_inj.mp hid
  rw [hkind, hsession, hid]

structure Message where
  header : Header
  nonce : UInt64
  inner : Bytes
  frame : Bytes

def SealCall.sent : Direction → SealCall → SealOutcome → List Message
  | .request, .request kind session inner _, .request ⟨.ok (reqId, len), dst, _⟩ =>
    [⟨⟨kind, session, reqId⟩, reqId.toUInt64, inner, dst.take len⟩]
  | .controller, .controller header inner _, .controller ⟨.ok len, dst, some (_, nonce)⟩ =>
    [⟨header, UInt64.ofNat nonce, inner, dst.take len⟩]
  | _, _, _ => []

def Session.sent (aead : Aead) (side : Direction) : Session → List SealCall → List Message
  | _, [] => []
  | s, c :: calls => c.sent side (Session.call aead s c).2 ++ sent aead side (Session.call aead s c).1 calls

def SealCall.dst : SealCall → Bytes
  | request _ _ _ dst => dst
  | controller _ _ dst => dst

structure Message.Genuine (aead : Aead) (key : Bytes) (side : Direction) (m : Message) : Prop where
  check : Direction.check m.header = .ok side
  nonce : side = .request → m.nonce = m.header.reqId.toUInt64
  last : m.nonce ≠ lastNonce
  wrote : ∃ capacity, capacity < 2 ^ 64 ∧
    Wrote aead key m.header (carries side m.nonce) m.nonce.toNat m.inner capacity m.frame

theorem RequestSealer.seal_sent (s : RequestSealer) (aead : Aead) (kind : MessageType) (session : SessionId)
    (inner dst : Bytes) {reqId : UInt32} {len : ℕ}
    (h : (s.seal aead kind session inner dst).1.result = .ok (reqId, len)) :
    reqId = s.next ∧ Direction.of kind = some .request ∧ (s.seal aead kind session inner dst).2.next.toNat =
      s.next.toNat + 1 ∧ Wrote aead s.key ⟨kind, session, reqId⟩ none reqId.toNat inner dst.length
        ((s.seal aead kind session inner dst).1.dst.take len) := by
  unfold RequestSealer.seal at h ⊢
  split_ifs at h ⊢ with hkind
  · cases h
  · cases hn : nextReqId s.next with
    | none =>
      rw [hn] at h
      cases h
    | some next =>
      simp only [hn] at h ⊢
      cases hw : (write aead s.key ⟨kind, session, s.next⟩ s.next.toNat none inner dst).result with
      | error why =>
        rw [hw] at h
        cases h
      | ok n =>
        rw [hw] at h
        cases h
        have hnext : next.toNat = s.next.toNat + 1 := by
          unfold nextReqId at hn
          split_ifs at hn with hmax
          cases hn
          have hne : s.next.toNat ≠ (0xFFFFFFFF : UInt32).toNat := mt UInt32.toNat_inj.mp hmax
          have hle := s.next.toNat_lt
          rw [show (0xFFFFFFFF : UInt32).toNat = 2 ^ 32 - 1 from rfl] at hne
          rw [UInt32.toNat_add, UInt32.toNat_one]
          exact Nat.mod_eq_of_lt (by omega)
        exact ⟨rfl, not_not.mp hkind, hnext, write_wrote hw⟩

theorem ControllerSealer.seal_sent (s : ControllerSealer) (aead : Aead) (header : Header) (inner dst : Bytes)
    {len nonce : ℕ} {key : Bytes} (h : (s.seal aead header inner dst).1.result = .ok len)
    (hhanded : (s.seal aead header inner dst).1.handed = some (key, nonce)) :
    nonce = s.next.toNat ∧ s.next ≠ lastNonce ∧ Direction.check header = .ok .controller ∧
      (s.seal aead header inner dst).2.next.toNat = s.next.toNat + 1 ∧
      Wrote aead s.key header (some s.next) s.next.toNat inner dst.length
        ((s.seal aead header inner dst).1.dst.take len) := by
  unfold ControllerSealer.seal at h hhanded ⊢
  cases hcheck : Direction.check header with
  | error why =>
    rw [hcheck] at h
    cases h
  | ok direction =>
    simp only [hcheck] at h hhanded ⊢
    split_ifs at h hhanded ⊢ with hkind hlast
    · cases h
    · cases h
    · have hnext : (s.next + 1).toNat = s.next.toNat + 1 := by
        have hne : s.next.toNat ≠ lastNonce.toNat := mt UInt64.toNat_inj.mp hlast
        have hle := s.next.toNat_lt
        rw [show lastNonce.toNat = 2 ^ 64 - 1 from rfl] at hne
        rw [UInt64.toNat_add, UInt64.toNat_one]
        exact Nat.mod_eq_of_lt (by omega)
      have hnonce : nonce = s.next.toNat := by
        rcases write_handed aead s.key header s.next.toNat (some s.next.toNat) inner dst with hw | hw
        · rw [hw] at hhanded
          cases hhanded
        · rw [hw] at hhanded
          cases hhanded
          rfl
      exact ⟨hnonce, hlast, congrArg Except.ok (not_not.mp hkind), hnext, write_wrote h⟩

theorem Session.call_sent (aead : Aead) (s : Session) (c : SealCall) (side : Direction)
    (hc : c.dst.length < 2 ^ 64) :
    c.sent side (call aead s c).2 = [] ∨
      ∃ m, c.sent side (call aead s c).2 = [m] ∧ m.nonce.toNat = s.next side ∧
        (call aead s c).1.next side = s.next side + 1 ∧ m.Genuine aead (s.key side) side := by
  cases c with
  | request kind session inner dst =>
    cases side with
    | controller => exact .inl rfl
    | request =>
      have hsent := @RequestSealer.seal_sent s.client aead kind session inner dst
      simp only [call, key, next]
      rcases hseal : s.client.seal aead kind session inner dst with ⟨⟨why | ⟨reqId, len⟩, out, used⟩, client⟩
      · exact .inl rfl
      · right
        simp only [hseal] at hsent ⊢
        obtain ⟨rfl, hkind, hnext, hwrote⟩ := hsent rfl
        refine ⟨_, rfl, by simp, hnext, ?_, fun _ => rfl, ?_, dst.length, hc, ?_⟩
        · have hevent : ¬(kind = .eventResponse ∧ s.client.next ≠ 0) := by
            rintro ⟨rfl, -⟩
            cases hkind
          simp only [Direction.check, hkind, if_neg hevent]
        · intro hlast
          have hle := s.client.next.toNat_lt
          have hnat := congrArg UInt64.toNat hlast
          rw [UInt32.toNat_toUInt64, show lastNonce.toNat = 2 ^ 64 - 1 from rfl] at hnat
          omega
        · rw [UInt32.toNat_toUInt64]
          exact hwrote
  | controller header inner dst =>
    cases side with
    | request => exact .inl rfl
    | controller =>
      have hsent := @ControllerSealer.seal_sent s.controller aead header inner dst
      simp only [call, key, next]
      rcases hseal : s.controller.seal aead header inner dst with ⟨⟨why | len, out, used⟩, controller⟩
      · exact .inl rfl
      · rcases used with _ | ⟨used, nonce⟩
        · exact .inl rfl
        · right
          simp only [hseal] at hsent ⊢
          obtain ⟨rfl, hlast, hcheck, hnext, hwrote⟩ := hsent rfl rfl
          have hnonce : UInt64.ofNat s.controller.next.toNat = s.controller.next := UInt64.ofNat_toNat
          rw [SealCall.sent, hnonce]
          refine ⟨_, rfl, rfl, hnext, hcheck, ?_, hlast, dst.length, hc, hwrote⟩
          intro h
          cases h

end Km43.Sealed
