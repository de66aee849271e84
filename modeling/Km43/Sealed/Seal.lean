import Km43.Identity.Crypto
import Km43.Sealed.Envelope

namespace Km43.Sealed

open Library Cbor
open Identity (NoiseError)

def tagBytes : ℕ := 16

inductive SealedKey
  | sealed
  | nonce
  deriving DecidableEq

def SealedKey.number : SealedKey → ℤ
  | sealed => 1
  | nonce => 2

inductive SealError
  | unknownKey (number : ℤ)
  | duplicate (key : SealedKey)
  | missing (key : SealedKey)
  | notSealed (kind : MessageType)
  | eventCarriesReqId (reqId : UInt32)
  | replayed (nonce : ℕ)
  | tooOld (nonce : ℕ)
  | reserved
  | open (why : NoiseError)
  | exhausted
  | destinationTooSmall
  | tooLargeToWrite
  | cbor (why : CborError)
  deriving DecidableEq

inductive Direction
  | request
  | controller
  deriving DecidableEq

def Direction.of : MessageType → Option Direction
  | .subscribe | .readLog | .getConfig | .setConfig | .command | .firmware | .time | .goodbye
  | .inventory | .readings | .concerns | .history | .wifiScan | .wifiStatus | .vouch | .clients
  | .invite | .approve | .remove => some .request
  | .enrolResponse | .subscribeResponse | .eventResponse | .readLogResponse | .getConfigResponse
  | .setConfigResponse | .commandResponse | .firmwareResponse | .timeResponse | .goodbyeResponse
  | .inventoryResponse | .readingsResponse | .concernsResponse | .historyResponse
  | .wifiScanResponse | .wifiStatusResponse | .vouchResponse | .clientsResponse | .inviteResponse
  | .approveResponse | .removeResponse | .errorResponse => some .controller
  | .discover | .discoverResponse | .hello | .helloResponse | .pair | .pairResponse | .enrol => none

def Direction.check (header : Header) : Except SealError Direction :=
  match Direction.of header.kind with
  | none => .error (.notSealed header.kind)
  | some direction =>
    if header.kind = .eventResponse ∧ header.reqId ≠ 0 then .error (.eventCarriesReqId header.reqId)
    else .ok direction

def ad (header : Header) : Bytes :=
  header.kind.byte :: BigEndian.digits 2 header.session.raw.toNat ++
    BigEndian.digits 4 header.reqId.toNat

def nonceBytes (nonce : ℕ) : Bytes := List.replicate 4 0 ++ (BigEndian.digits 8 nonce).reverse

/-- The AEAD as the sealed channel calls it, under a key, a nonce and associated data. A body is
encrypted and decrypted in place, so neither changes its length. -/
structure Aead where
  encrypt : Bytes → Bytes → Bytes → Bytes → Option (Bytes × Bytes)
  decrypt : Bytes → Bytes → Bytes → Bytes → Bytes → Option Bytes
  encrypt_length : ∀ {key nonce ad body out tag},
    encrypt key nonce ad body = some (out, tag) → out.length = body.length ∧ tag.length = tagBytes
  decrypt_length : ∀ {key nonce ad body tag out},
    decrypt key nonce ad body tag = some out → out.length = body.length

def sealInPlace (aead : Aead) (key : Bytes) (nonce : ℕ) (ad body : Bytes) (tagRoom : ℕ) :
    Except NoiseError (Bytes × Bytes) :=
  match aead.encrypt key (nonceBytes nonce) ad body with
  | none => .error .destinationTooSmall
  | some (out, tag) => if tagRoom < tagBytes then .error .destinationTooSmall else .ok (out, tag)

def openInPlace (aead : Aead) (key : Bytes) (nonce : ℕ) (ad body tag : Bytes) :
    Except NoiseError Bytes :=
  if tag.length ≠ tagBytes then .error .truncated
  else
    match aead.decrypt key (nonceBytes nonce) ad body tag with
    | none => .error .decrypt
    | some out => .ok out

def carry : Option ℕ → CborWriter.Write Unit
  | none => pure ()
  | some nonce => do
    CborWriter.key SealedKey.nonce.number
    CborWriter.u64 nonce

/-- The whole envelope with `sealedLen` bytes to fill: where they start, and its length. -/
def layout (header : Header) (carried : Option ℕ) (sealedLen : ℕ) : CborWriter.Write (ℕ × ℕ) := do
  header.write (if carried.isSome then 2 else 1)
  CborWriter.key SealedKey.sealed.number
  let start ← CborWriter.bytesToFill sealedLen
  carry carried
  let len ← CborWriter.finish
  pure (start, len)

/-- What a seal call gives back, the destination after it, and the key and the nonce it handed the
AEAD. -/
structure Sealing (α : Type) where
  result : Except SealError α
  dst : Bytes
  handed : Option (Bytes × ℕ)

def Sealing.refused {α : Type} (why : SealError) (dst : Bytes) : Sealing α := ⟨.error why, dst, none⟩

def write (aead : Aead) (key : Bytes) (header : Header) (nonce : ℕ) (carried : Option ℕ)
    (inner dst : Bytes) : Sealing ℕ :=
  let sealedLen := inner.length + tagBytes
  match layout header carried sealedLen (.new dst.length) with
  -- what a refused layout leaves in `dst` is never sent
  | .error _ => .refused .tooLargeToWrite dst
  | .ok ((start, len), cbor) =>
    let dst := cbor.out ++ dst.drop cbor.out.length
    match slice dst start (start + sealedLen) with
    | none => .refused .tooLargeToWrite dst
    | some region =>
      if region.length < inner.length then .refused .tooLargeToWrite dst
      else
        match sealInPlace aead key nonce (ad header) inner (region.length - inner.length) with
        | .error why => ⟨.error (.open why), dst, some (key, nonce)⟩
        | .ok (body, tag) => ⟨.ok len, (paste dst start (body ++ tag)).getD dst, some (key, nonce)⟩

structure RequestSealer where
  key : Bytes
  next : UInt32

def nextReqId (reqId : UInt32) : Option UInt32 := if reqId = 0xFFFFFFFF then none else some (reqId + 1)

def RequestSealer.seal (s : RequestSealer) (aead : Aead) (kind : MessageType) (session : SessionId)
    (inner dst : Bytes) : Sealing (UInt32 × ℕ) × RequestSealer :=
  if Direction.of kind ≠ some .request then (.refused (.notSealed kind) dst, s)
  else
    match nextReqId s.next with
    | none => (.refused .exhausted dst, s)
    | some next =>
      let sealing := write aead s.key ⟨kind, session, s.next⟩ s.next.toNat none inner dst
      (⟨sealing.result.map fun len => (s.next, len), sealing.dst, sealing.handed⟩,
        { s with next := next })

structure ControllerSealer where
  key : Bytes
  next : UInt64

def lastNonce : UInt64 := 0xFFFFFFFFFFFFFFFF

def ControllerSealer.seal (s : ControllerSealer) (aead : Aead) (header : Header) (inner dst : Bytes) :
    Sealing ℕ × ControllerSealer :=
  match Direction.check header with
  | .error why => (.refused why dst, s)
  | .ok direction =>
    if direction ≠ .controller then (.refused (.notSealed header.kind) dst, s)
    else if s.next = lastNonce then (.refused .exhausted dst, s)
    else
      (write aead s.key header s.next.toNat (some s.next.toNat) inner dst,
        { s with next := s.next + 1 })

theorem nonceBytes_inj {m n : ℕ} (hm : m < 2 ^ 64) (hn : n < 2 ^ 64)
    (h : nonceBytes m = nonceBytes n) : m = n := by
  have hd := List.reverse_injective (List.append_cancel_left h)
  have hv := congrArg BigEndian.value hd
  have hp : (256 : ℕ) ^ 8 = 2 ^ 64 := by norm_num
  rw [BigEndian.value_digits, BigEndian.value_digits, hp, Nat.mod_eq_of_lt hm,
    Nat.mod_eq_of_lt hn] at hv
  exact hv

theorem write_handed (aead : Aead) (key : Bytes) (header : Header) (nonce : ℕ) (carried : Option ℕ)
    (inner dst : Bytes) : (write aead key header nonce carried inner dst).handed = none ∨
      (write aead key header nonce carried inner dst).handed = some (key, nonce) := by
  unfold write
  dsimp only
  split
  · exact .inl rfl
  · split
    · exact .inl rfl
    · split_ifs
      · exact .inl rfl
      · split <;> exact .inr rfl

end Km43.Sealed
