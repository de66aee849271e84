import Km43.Identity.Crypto
import Km43.Sealed.Window

namespace Km43.Noise

open Library Identity Sealed

def keyBytes : ℕ := 32

def sealedKeyBytes : ℕ := keyBytes + tagBytes

def nonceReserved : UInt64 := 0xFFFFFFFFFFFFFFFF

def pairingName : Bytes := ascii "Noise_XXpsk0_25519_ChaChaPoly_SHA256"

def sessionName : Bytes := ascii "Noise_IK_25519_ChaChaPoly_SHA256"

def after (n : ℕ) (msg : Bytes) : Except NoiseError Bytes :=
  if msg.length < n then .error .truncated else .ok (msg.drop n)

def tail (dst n : ℕ) : Except NoiseError ℕ := if dst < n then .error .destinationTooSmall else .ok (dst - n)

def firstKey (msg : Bytes) : Except NoiseError PublicKey :=
  if msg.length < keyBytes then .error .truncated else .ok (fill 32 (msg.take keyBytes))

def hmac (c : Primitives) (key : Key32) (parts : List Bytes) : Key32 := c.hmac (fill 64 key.toList) parts.flatten

def hkdf2 (c : Primitives) (chaining : Key32) (material : Bytes) : Key32 × Key32 :=
  let temp := hmac c chaining [material]
  let first := hmac c temp [[1]]
  let second := hmac c temp [first.toList, [2]]
  (first, second)

def hkdf3 (c : Primitives) (chaining : Key32) (material : Bytes) : Key32 × Key32 × Key32 :=
  let temp := hmac c chaining [material]
  let first := hmac c temp [[1]]
  let second := hmac c temp [first.toList, [2]]
  let third := hmac c temp [second.toList, [3]]
  (first, second, third)

structure CipherState where
  key : Option Key32
  nonce : UInt64

namespace CipherState

def empty : CipherState := ⟨none, 0⟩

def keyed (key : Key32) : CipherState := ⟨some key, 0⟩

def takeNonce (s : CipherState) : Except NoiseError (UInt64 × CipherState) :=
  if s.nonce = nonceReserved then .error .nonceExhausted else .ok (s.nonce, { s with nonce := s.nonce + 1 })

def encrypt (aead : Aead) (s : CipherState) (ad plaintext : Bytes) (dst : ℕ) :
    Except NoiseError (Bytes × CipherState) :=
  match s.key with
  | none => if dst < plaintext.length then .error .destinationTooSmall else .ok (plaintext, s)
  | some key => do
    let (nonce, s) ← s.takeNonce
    if dst < plaintext.length + tagBytes then .error .destinationTooSmall
    else
      let (body, tag) ← sealInPlace aead key.toList nonce.toNat ad plaintext tagBytes
      .ok (body ++ tag, s)

-- the nonce moves only once the tag has verified
def decrypt (aead : Aead) (s : CipherState) (ad ciphertext : Bytes) (dst : ℕ) :
    Except NoiseError (Bytes × CipherState) :=
  match s.key with
  | none => if dst < ciphertext.length then .error .destinationTooSmall else .ok (ciphertext, s)
  | some key =>
    if ciphertext.length < tagBytes then .error .truncated
    else
      let bodyLen := ciphertext.length - tagBytes
      if dst < bodyLen then .error .destinationTooSmall
      else if s.nonce = nonceReserved then .error .nonceExhausted
      else
        match openInPlace aead key.toList s.nonce.toNat ad (ciphertext.take bodyLen) (ciphertext.drop bodyLen) with
        | .error _ => .error .decrypt
        | .ok plain => .ok (plain, { s with nonce := s.nonce + 1 })

end CipherState

structure SymmetricState where
  cipher : CipherState
  chaining : Key32
  hash : Key32

structure SessionKeys where
  initiatorToResponder : Key32
  responderToInitiator : Key32
  hash : Key32

namespace SymmetricState

def mixHash (c : Primitives) (s : SymmetricState) (data : Bytes) : SymmetricState :=
  { s with hash := c.sha256 (s.hash.toList ++ data) }

def start (c : Primitives) (name prologue : Bytes) : SymmetricState :=
  let hash := if name.length ≤ keyBytes then fill 32 name else c.sha256 name
  mixHash c ⟨.empty, hash, hash⟩ prologue

def mixKey (c : Primitives) (s : SymmetricState) (material : Key32) : SymmetricState :=
  let (chaining, key) := hkdf2 c s.chaining material.toList
  { s with chaining := chaining, cipher := .keyed key }

def mixKeyAndHash (c : Primitives) (s : SymmetricState) (material : Key32) : SymmetricState :=
  let (chaining, extra, key) := hkdf3 c s.chaining material.toList
  { mixHash c { s with chaining := chaining } extra.toList with cipher := .keyed key }

def encryptAndHash (c : Primitives) (aead : Aead) (s : SymmetricState) (plaintext : Bytes) (dst : ℕ) :
    Except NoiseError (Bytes × SymmetricState) := do
  let (out, cipher) ← s.cipher.encrypt aead s.hash.toList plaintext dst
  .ok (out, mixHash c { s with cipher := cipher } out)

def decryptAndHash (c : Primitives) (aead : Aead) (s : SymmetricState) (ciphertext : Bytes) (dst : ℕ) :
    Except NoiseError (Bytes × SymmetricState) := do
  let (plain, cipher) ← s.cipher.decrypt aead s.hash.toList ciphertext dst
  .ok (plain, mixHash c { s with cipher := cipher } ciphertext)

/-- `e`: the public key in the transcript, and in the key too where there is a pre-shared one. -/
def mixEphemeral (c : Primitives) (s : SymmetricState) (key : PublicKey) (psk : Bool) : SymmetricState :=
  if psk then mixKey c (mixHash c s key.toList) key else mixHash c s key.toList

def sendEphemeral (c : Primitives) (s : SymmetricState) (key : StaticKey) (psk : Bool) (dst : ℕ) :
    Except NoiseError (Bytes × SymmetricState) :=
  if dst < keyBytes then .error .destinationTooSmall
  else .ok ((key.pub c).toList, mixEphemeral c s (key.pub c) psk)

def readEphemeral (c : Primitives) (s : SymmetricState) (msg : Bytes) (psk : Bool) :
    Except NoiseError (PublicKey × SymmetricState) := do
  let key ← firstKey msg
  .ok (key, mixEphemeral c s key psk)

def readStatic (c : Primitives) (aead : Aead) (s : SymmetricState) (msg : Bytes) :
    Except NoiseError (PublicKey × SymmetricState) :=
  if msg.length < sealedKeyBytes then .error .truncated
  else do
    let (out, s) ← decryptAndHash c aead s (msg.take sealedKeyBytes) keyBytes
    if out.length ≠ keyBytes then .error .truncated else .ok (fill 32 out, s)

def split (c : Primitives) (s : SymmetricState) : SessionKeys :=
  let (first, second) := hkdf2 c s.chaining []
  ⟨first, second, s.hash⟩

end SymmetricState

structure ClientChannel where
  tx : RequestSealer
  rx : Opener

structure ControllerChannel where
  tx : ControllerSealer
  rx : Opener

namespace SessionKeys

def forInitiator (keys : SessionKeys) : ClientChannel :=
  ⟨⟨keys.initiatorToResponder.toList, 1⟩, .new keys.responderToInitiator.toList .controller⟩

def forResponder (keys : SessionKeys) : ControllerChannel :=
  ⟨⟨keys.responderToInitiator.toList, 0⟩, .new keys.initiatorToResponder.toList .request⟩

end SessionKeys

open SymmetricState

variable (c : Primitives) (aead : Aead)

structure PairInitiator where
  state : SymmetricState
  ephemeral : StaticKey

structure PairReplied where
  state : SymmetricState
  theirEphemeral : PublicKey
  controller : PublicKey

structure PairRequested where
  state : SymmetricState
  theirEphemeral : PublicKey

structure PairAwaiting where
  state : SymmetricState
  ephemeral : StaticKey

structure PairFinished where
  client : PublicKey
  keys : SessionKeys

def PairInitiator.start (prologue : Bytes) (psk entropy : Key32) (payload : Bytes) (dst : ℕ) :
    Except NoiseError (PairInitiator × Bytes) := do
  let state := mixKeyAndHash c (.start c pairingName prologue) psk
  let ephemeral : StaticKey := ⟨entropy⟩
  let (head, state) ← sendEphemeral c state ephemeral true dst
  let room ← tail dst head.length
  let (body, state) ← encryptAndHash c aead state payload room
  .ok (⟨state, ephemeral⟩, head ++ body)

def PairInitiator.readReply (i : PairInitiator) (msg : Bytes) (dst : ℕ) : Except NoiseError (PairReplied × Bytes) := do
  let (theirs, state) ← readEphemeral c i.state msg true
  let shared ← i.ephemeral.agree c theirs
  let state := mixKey c state shared
  let rest ← after keyBytes msg
  let (controller, state) ← readStatic c aead state rest
  let shared ← i.ephemeral.agree c controller
  let state := mixKey c state shared
  let payload ← after sealedKeyBytes rest
  let (plain, state) ← decryptAndHash c aead state payload dst
  .ok (⟨state, theirs, controller⟩, plain)

def PairReplied.finish (r : PairReplied) (key : StaticKey) (payload : Bytes) (dst : ℕ) :
    Except NoiseError (SessionKeys × Bytes) := do
  let (head, state) ← encryptAndHash c aead r.state (key.pub c).toList dst
  let shared ← key.agree c r.theirEphemeral
  let state := mixKey c state shared
  let room ← tail dst head.length
  let (body, state) ← encryptAndHash c aead state payload room
  .ok (split c state, head ++ body)

def PairResponder.readRequest (prologue : Bytes) (psk : Key32) (msg : Bytes) (dst : ℕ) :
    Except NoiseError (PairRequested × Bytes) := do
  let state := mixKeyAndHash c (.start c pairingName prologue) psk
  let (theirs, state) ← readEphemeral c state msg true
  let payload ← after keyBytes msg
  let (plain, state) ← decryptAndHash c aead state payload dst
  .ok (⟨state, theirs⟩, plain)

def PairRequested.reply (r : PairRequested) (controller : StaticKey) (entropy : Key32) (payload : Bytes) (dst : ℕ) :
    Except NoiseError (PairAwaiting × Bytes) := do
  let ephemeral : StaticKey := ⟨entropy⟩
  let (head, state) ← sendEphemeral c r.state ephemeral true dst
  let shared ← ephemeral.agree c r.theirEphemeral
  let state := mixKey c state shared
  let room ← tail dst head.length
  let (key, state) ← encryptAndHash c aead state (controller.pub c).toList room
  let shared ← controller.agree c r.theirEphemeral
  let state := mixKey c state shared
  let room ← tail dst (head ++ key).length
  let (body, state) ← encryptAndHash c aead state payload room
  .ok (⟨state, ephemeral⟩, head ++ key ++ body)

def PairAwaiting.readFinish (a : PairAwaiting) (msg : Bytes) (dst : ℕ) : Except NoiseError (PairFinished × Bytes) := do
  let (client, state) ← readStatic c aead a.state msg
  let shared ← a.ephemeral.agree c client
  let state := mixKey c state shared
  let payload ← after sealedKeyBytes msg
  let (plain, state) ← decryptAndHash c aead state payload dst
  .ok (⟨client, split c state⟩, plain)

structure HelloInitiator where
  state : SymmetricState
  ephemeral : StaticKey

structure HelloClaimed where
  state : SymmetricState
  theirEphemeral : PublicKey
  client : PublicKey

structure HelloProved where
  state : SymmetricState
  theirEphemeral : PublicKey
  client : PublicKey

def HelloInitiator.start (prologue : Bytes) (controller : PublicKey) (client : StaticKey) (entropy : Key32)
    (payload : Bytes) (dst : ℕ) : Except NoiseError (HelloInitiator × Bytes) := do
  let state := mixHash c (.start c sessionName prologue) controller.toList
  let ephemeral : StaticKey := ⟨entropy⟩
  let (head, state) ← sendEphemeral c state ephemeral false dst
  let shared ← ephemeral.agree c controller
  let state := mixKey c state shared
  let room ← tail dst head.length
  let (key, state) ← encryptAndHash c aead state (client.pub c).toList room
  let shared ← client.agree c controller
  let state := mixKey c state shared
  let room ← tail dst (head ++ key).length
  let (body, state) ← encryptAndHash c aead state payload room
  .ok (⟨state, ephemeral⟩, head ++ key ++ body)

def HelloInitiator.readReply (i : HelloInitiator) (client : StaticKey) (msg : Bytes) (dst : ℕ) :
    Except NoiseError (SessionKeys × Bytes) := do
  let (theirs, state) ← readEphemeral c i.state msg false
  let shared ← i.ephemeral.agree c theirs
  let state := mixKey c state shared
  let shared ← client.agree c theirs
  let state := mixKey c state shared
  let payload ← after keyBytes msg
  let (plain, state) ← decryptAndHash c aead state payload dst
  .ok (split c state, plain)

def HelloResponder.readClaim (prologue : Bytes) (controller : StaticKey) (msg : Bytes) :
    Except NoiseError HelloClaimed := do
  let state := mixHash c (.start c sessionName prologue) (controller.pub c).toList
  let (theirs, state) ← readEphemeral c state msg false
  let shared ← controller.agree c theirs
  let state := mixKey c state shared
  let rest ← after keyBytes msg
  let (client, state) ← readStatic c aead state rest
  .ok ⟨state, theirs, client⟩

def HelloClaimed.prove (h : HelloClaimed) (controller : StaticKey) (msg : Bytes) (dst : ℕ) :
    Except NoiseError (HelloProved × Bytes) := do
  let shared ← controller.agree c h.client
  let state := mixKey c h.state shared
  let payload ← after (keyBytes + sealedKeyBytes) msg
  let (plain, state) ← decryptAndHash c aead state payload dst
  .ok (⟨state, h.theirEphemeral, h.client⟩, plain)

def HelloProved.reply (p : HelloProved) (entropy : Key32) (payload : Bytes) (dst : ℕ) :
    Except NoiseError (SessionKeys × Bytes) := do
  let ephemeral : StaticKey := ⟨entropy⟩
  let (head, state) ← sendEphemeral c p.state ephemeral false dst
  let shared ← ephemeral.agree c p.theirEphemeral
  let state := mixKey c state shared
  let shared ← ephemeral.agree c p.client
  let state := mixKey c state shared
  let room ← tail dst head.length
  let (body, state) ← encryptAndHash c aead state payload room
  .ok (split c state, head ++ body)

structure Leg where
  payload : Bytes
  dst : ℕ
  into : ℕ

structure Leg.Fits (leg : Leg) (overhead : ℕ) : Prop where
  sent : leg.payload.length + overhead ≤ leg.dst
  read : leg.payload.length ≤ leg.into

structure Paired where
  client : SessionKeys
  controller : SessionKeys
  clientLearns : PublicKey
  controllerLearns : PublicKey
  read : List Bytes

def pairing (prologue : Bytes) (psk clientEntropy controllerEntropy : Key32) (client controller : StaticKey)
    (first second third : Leg) : Except NoiseError Paired := do
  let (initiator, msg₁) ← PairInitiator.start c aead prologue psk clientEntropy first.payload first.dst
  let (requested, read₁) ← PairResponder.readRequest c aead prologue psk msg₁ first.into
  let (awaiting, msg₂) ← requested.reply c aead controller controllerEntropy second.payload second.dst
  let (replied, read₂) ← initiator.readReply c aead msg₂ second.into
  let (keys, msg₃) ← replied.finish c aead client third.payload third.dst
  let (finished, read₃) ← awaiting.readFinish c aead msg₃ third.into
  .ok ⟨keys, finished.keys, replied.controller, finished.client, [read₁, read₂, read₃]⟩

/-- What both sides of a session's opening hold at its end; the client brought the controller's key. -/
structure Opened where
  client : SessionKeys
  controller : SessionKeys
  claimed : PublicKey
  controllerLearns : PublicKey
  read : List Bytes

def opening (prologue : Bytes) (clientEntropy controllerEntropy : Key32) (client controller : StaticKey)
    (first second : Leg) : Except NoiseError Opened := do
  let (initiator, msg₁) ← HelloInitiator.start c aead prologue (controller.pub c) client clientEntropy first.payload
    first.dst
  let claimed ← HelloResponder.readClaim c aead prologue controller msg₁
  let (proved, read₁) ← claimed.prove c aead controller msg₁ first.into
  let (controllerKeys, msg₂) ← proved.reply c aead controllerEntropy second.payload second.dst
  let (clientKeys, read₂) ← initiator.readReply c aead client msg₂ second.into
  .ok ⟨clientKeys, controllerKeys, claimed.client, proved.client, [read₁, read₂]⟩

end Km43.Noise
