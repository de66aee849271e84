import Km43.Library.Fallible
import Km43.Noise.Patterns
import Km43.Sealed.Nonces

namespace Km43.Noise

open Library Identity Sealed SymmetricState

/-- Two keys whose agreement is one secret from either side, and no constant. -/
structure Agrees (c : Primitives) (a b : StaticKey) : Prop where
  same : c.diffieHellman a.secret (b.pub c) = c.diffieHellman b.secret (a.pub c)
  contributory : c.diffieHellman a.secret (b.pub c) ≠ .replicate 32 0

def Opens (aead : Aead) (plaintext : Bytes) : Prop := ∀ key nonce ad, ∃ body tag,
  aead.encrypt key nonce ad plaintext = some (body, tag) ∧ aead.decrypt key nonce ad body tag = some plaintext

variable {c : Primitives} {aead : Aead}

def shared (c : Primitives) (a b : StaticKey) : Key32 := c.diffieHellman a.secret (b.pub c)

theorem Agrees.left {a b : StaticKey} (h : Agrees c a b) : a.agree c (b.pub c) = .ok (shared c a b) := by
  unfold StaticKey.agree
  rw [if_pos h.contributory]
  rfl

theorem Agrees.right {a b : StaticKey} (h : Agrees c a b) : b.agree c (a.pub c) = .ok (shared c a b) := by
  unfold StaticKey.agree
  rw [← h.same, if_pos h.contributory]
  rfl

theorem after_append {n : ℕ} {a b : Bytes} (h : a.length = n) : after n (a ++ b) = .ok b := by
  subst h
  unfold after
  rw [if_neg (by simp), List.drop_left']
  rfl

theorem firstKey_append (key : PublicKey) (rest : Bytes) : firstKey (key.toList ++ rest) = .ok key := by
  have hlen : key.toList.length = keyBytes := key.length_toList
  unfold firstKey
  rw [if_neg (by simp [hlen]), List.take_left' hlen]
  exact congrArg Except.ok (Vector.toList_inj.mp (fill_toList hlen))

theorem tail_ok {dst n : ℕ} (h : n ≤ dst) : tail dst n = .ok (dst - n) := if_neg (Nat.not_lt.mpr h)

namespace CipherState

theorem encrypt_decrypt {plaintext : Bytes} (hopens : Opens aead plaintext) (key : Key32) {nonce : UInt64}
    (hnonce : nonce ≠ nonceReserved) (ad : Bytes) : ∃ out, out.length = plaintext.length + tagBytes ∧
      (∀ dst, plaintext.length + tagBytes ≤ dst →
        encrypt aead ⟨some key, nonce⟩ ad plaintext dst = .ok (out, ⟨some key, nonce + 1⟩)) ∧
      ∀ dst, plaintext.length ≤ dst →
        decrypt aead ⟨some key, nonce⟩ ad out dst = .ok (plaintext, ⟨some key, nonce + 1⟩) := by
  obtain ⟨body, tag, hseal, hopen⟩ := hopens key.toList (nonceBytes nonce.toNat) ad
  obtain ⟨hbody, htag⟩ := aead.encrypt_length hseal
  have hlen : (body ++ tag).length = plaintext.length + tagBytes := by rw [List.length_append, hbody, htag]
  have hcut : (body ++ tag).length - tagBytes = body.length := by omega
  refine ⟨body ++ tag, hlen, ?_, ?_⟩
  · intro dst hdst
    have hsealed : sealInPlace aead key.toList nonce.toNat ad plaintext tagBytes = .ok (body, tag) := by
      unfold sealInPlace
      rw [hseal]
      exact if_neg (lt_irrefl _)
    have htake : takeNonce ⟨some key, nonce⟩ = .ok (nonce, ⟨some key, nonce + 1⟩) := if_neg hnonce
    unfold encrypt
    refine bind_ok.mpr ⟨_, htake, ?_⟩
    dsimp only
    rw [if_neg (Nat.not_lt.mpr hdst)]
    exact bind_ok.mpr ⟨_, hsealed, rfl⟩
  · intro dst hdst
    have hopened : openInPlace aead key.toList nonce.toNat ad body tag = .ok plaintext := by
      unfold openInPlace
      rw [if_neg (not_not.mpr htag), hopen]
    unfold decrypt
    dsimp only
    rw [hcut, List.take_left, List.drop_left, if_neg (by omega), if_neg (by omega), if_neg hnonce, hopened]

end CipherState

namespace SymmetricState

def At (s : SymmetricState) (nonce : UInt64) : Prop := ∃ key, s.cipher = ⟨some key, nonce⟩

theorem mixKey_at (s : SymmetricState) (material : Key32) : (mixKey c s material).At 0 := ⟨_, rfl⟩

theorem mixEphemeral_at (s : SymmetricState) (key : PublicKey) : (mixEphemeral c s key true).At 0 := ⟨_, rfl⟩

/-- What one side sends of a plaintext, the other side reads, and both reach one state. -/
structure Carries (c : Primitives) (aead : Aead) (s s' : SymmetricState) (plaintext out : Bytes) : Prop where
  length : out.length = plaintext.length + tagBytes
  sends : ∀ dst, plaintext.length + tagBytes ≤ dst → encryptAndHash c aead s plaintext dst = .ok (out, s')
  reads : ∀ dst, plaintext.length ≤ dst → decryptAndHash c aead s out dst = .ok (plaintext, s')

theorem At.carries (c : Primitives) {s : SymmetricState} {nonce : UInt64} (h : s.At nonce) (hnonce : nonce ≠ nonceReserved)
    {plaintext : Bytes} (hopens : Opens aead plaintext) :
    ∃ out s', Carries c aead s s' plaintext out ∧ s'.At (nonce + 1) := by
  obtain ⟨key, hkey⟩ := h
  obtain ⟨out, hlen, hsends, hreads⟩ := CipherState.encrypt_decrypt hopens key hnonce s.hash.toList
  rw [← hkey] at hsends hreads
  refine ⟨out, mixHash c { s with cipher := ⟨some key, nonce + 1⟩ } out, ⟨hlen, ?_, ?_⟩, ⟨key, rfl⟩⟩
  · intro dst hdst
    exact bind_ok.mpr ⟨_, hsends dst hdst, rfl⟩
  · intro dst hdst
    exact bind_ok.mpr ⟨_, hreads dst hdst, rfl⟩

theorem sendEphemeral_ok {s : SymmetricState} {key : StaticKey} {psk : Bool} {dst : ℕ} (h : keyBytes ≤ dst) :
    sendEphemeral c s key psk dst = .ok ((key.pub c).toList, mixEphemeral c s (key.pub c) psk) :=
  if_neg (Nat.not_lt.mpr h)

theorem readEphemeral_ok (s : SymmetricState) (key : PublicKey) (rest : Bytes) (psk : Bool) :
    readEphemeral c s (key.toList ++ rest) psk = .ok (key, mixEphemeral c s key psk) :=
  bind_ok.mpr ⟨key, firstKey_append key rest, rfl⟩

theorem Carries.static {s s' : SymmetricState} {key : PublicKey} {out : Bytes} (h : Carries c aead s s' key.toList out)
    (rest : Bytes) : readStatic c aead s (out ++ rest) = .ok (key, s') := by
  have hkey : key.toList.length = keyBytes := key.length_toList
  have hlen : out.length = sealedKeyBytes := by rw [h.length, hkey]; rfl
  unfold readStatic
  rw [if_neg (by simp [hlen]), List.take_left' hlen]
  refine bind_ok.mpr ⟨_, h.reads keyBytes hkey.le, ?_⟩
  dsimp only
  rw [if_neg (not_not.mpr hkey)]
  exact congrArg (fun k => Except.ok (k, s')) (Vector.toList_inj.mp (fill_toList hkey))

end SymmetricState

section

variable {prologue : Bytes} {psk clientEntropy controllerEntropy : Key32} {client controller : StaticKey}
  {first second third : Leg}

theorem pair_first {e : Key32} (hopens : Opens aead first.payload) (hroom : first.Fits (keyBytes + tagBytes)) :
    ∃ msg s, PairInitiator.start c aead prologue psk e first.payload first.dst = .ok (⟨s, ⟨e⟩⟩, msg) ∧
      PairResponder.readRequest c aead prologue psk msg first.into = .ok (⟨s, StaticKey.pub c ⟨e⟩⟩, first.payload) := by
  obtain ⟨body, s, hbody, -⟩ := (mixEphemeral_at (c := c) (mixKeyAndHash c (.start c pairingName prologue) psk)
    (StaticKey.pub c ⟨e⟩)).carries c (by decide) hopens
  have hkey : (StaticKey.pub c ⟨e⟩).toList.length = keyBytes := Vector.length_toList
  have hsent := hroom.sent
  refine ⟨(StaticKey.pub c ⟨e⟩).toList ++ body, s, ?_, ?_⟩
  · refine bind_ok.mpr ⟨_, sendEphemeral_ok ?_, bind_ok.mpr ⟨_, tail_ok ?_, bind_ok.mpr ⟨_, hbody.sends _ ?_, rfl⟩⟩⟩
    all_goals omega
  · refine bind_ok.mpr ⟨_, readEphemeral_ok _ _ _ _, bind_ok.mpr ⟨_, after_append hkey, ?_⟩⟩
    exact bind_ok.mpr ⟨_, hbody.reads _ hroom.read, rfl⟩

theorem pair_second {s : SymmetricState} {e r : Key32} (hee : Agrees c ⟨e⟩ ⟨r⟩) (hes : Agrees c ⟨e⟩ controller)
    (hcontroller : Opens aead (controller.pub c).toList) (hopens : Opens aead second.payload)
    (hroom : second.Fits (keyBytes + sealedKeyBytes + tagBytes)) :
    ∃ msg s', s'.At 1 ∧
      PairRequested.reply c aead ⟨s, StaticKey.pub c ⟨e⟩⟩ controller r second.payload second.dst = .ok (⟨s', ⟨r⟩⟩, msg) ∧
      PairInitiator.readReply c aead ⟨s, ⟨e⟩⟩ msg second.into =
        .ok (⟨s', StaticKey.pub c ⟨r⟩, controller.pub c⟩, second.payload) := by
  obtain ⟨key, s₁, hkey, -⟩ := (mixKey_at (c := c) (mixEphemeral c s (StaticKey.pub c ⟨r⟩) true) (shared c ⟨e⟩ ⟨r⟩)).carries c
    (by decide) hcontroller
  obtain ⟨body, s₂, hbody, hat⟩ := (mixKey_at (c := c) s₁ (shared c ⟨e⟩ controller)).carries c (by decide) hopens
  have hr : (StaticKey.pub c ⟨r⟩).toList.length = keyBytes := Vector.length_toList
  have hpub : (controller.pub c).toList.length = keyBytes := (controller.pub c).length_toList
  have hlen : key.length = sealedKeyBytes := by rw [hkey.length, hpub]; rfl
  have hsent := hroom.sent
  have hwidth : sealedKeyBytes = keyBytes + tagBytes := rfl
  refine ⟨(StaticKey.pub c ⟨r⟩).toList ++ key ++ body, s₂, hat, ?_, ?_⟩
  · refine bind_ok.mpr ⟨_, sendEphemeral_ok ?_, bind_ok.mpr ⟨_, hee.right, bind_ok.mpr ⟨_, tail_ok ?_, ?_⟩⟩⟩
    · omega
    · omega
    refine bind_ok.mpr ⟨_, hkey.sends _ ?_, bind_ok.mpr ⟨_, hes.right, bind_ok.mpr ⟨_, tail_ok ?_, ?_⟩⟩⟩
    · omega
    · rw [List.length_append]
      omega
    refine bind_ok.mpr ⟨_, hbody.sends _ ?_, rfl⟩
    rw [List.length_append]
    omega
  · rw [List.append_assoc]
    refine bind_ok.mpr ⟨_, readEphemeral_ok _ _ _ _, bind_ok.mpr ⟨_, hee.left, bind_ok.mpr ⟨_, after_append hr, ?_⟩⟩⟩
    refine bind_ok.mpr ⟨_, hkey.static body, bind_ok.mpr ⟨_, hes.left, bind_ok.mpr ⟨_, after_append hlen, ?_⟩⟩⟩
    exact bind_ok.mpr ⟨_, hbody.reads _ hroom.read, rfl⟩

theorem pair_third {s : SymmetricState} {r : Key32} {theirs : PublicKey} (hat : s.At 1) (hse : Agrees c client ⟨r⟩)
    (hclient : Opens aead (client.pub c).toList) (hopens : Opens aead third.payload)
    (hroom : third.Fits (sealedKeyBytes + tagBytes)) :
    ∃ msg keys, PairReplied.finish c aead ⟨s, StaticKey.pub c ⟨r⟩, theirs⟩ client third.payload third.dst = .ok (keys, msg) ∧
      PairAwaiting.readFinish c aead ⟨s, ⟨r⟩⟩ msg third.into = .ok (⟨client.pub c, keys⟩, third.payload) := by
  obtain ⟨key, s₁, hkey, -⟩ := hat.carries c (by decide) hclient
  obtain ⟨body, s₂, hbody, -⟩ := (mixKey_at (c := c) s₁ (shared c client ⟨r⟩)).carries c (by decide) hopens
  have hpub : (client.pub c).toList.length = keyBytes := (client.pub c).length_toList
  have hlen : key.length = sealedKeyBytes := by rw [hkey.length, hpub]; rfl
  have hsent := hroom.sent
  have hwidth : sealedKeyBytes = keyBytes + tagBytes := rfl
  refine ⟨key ++ body, split c s₂, ?_, ?_⟩
  · refine bind_ok.mpr ⟨_, hkey.sends _ ?_, bind_ok.mpr ⟨_, hse.left, bind_ok.mpr ⟨_, tail_ok ?_,
      bind_ok.mpr ⟨_, hbody.sends _ ?_, rfl⟩⟩⟩⟩
    all_goals omega
  · refine bind_ok.mpr ⟨_, hkey.static body, bind_ok.mpr ⟨_, hse.right, bind_ok.mpr ⟨_, after_append hlen, ?_⟩⟩⟩
    exact bind_ok.mpr ⟨_, hbody.reads _ hroom.read, rfl⟩

theorem open_first {e : Key32} (hes : Agrees c ⟨e⟩ controller) (hss : Agrees c client controller)
    (hclient : Opens aead (client.pub c).toList) (hopens : Opens aead first.payload)
    (hroom : first.Fits (keyBytes + sealedKeyBytes + tagBytes)) :
    ∃ msg claimed s, HelloInitiator.start c aead prologue (controller.pub c) client e first.payload first.dst =
        .ok (⟨s, ⟨e⟩⟩, msg) ∧
      HelloResponder.readClaim c aead prologue controller msg =
        .ok ⟨claimed, StaticKey.pub c ⟨e⟩, client.pub c⟩ ∧
      HelloClaimed.prove c aead ⟨claimed, StaticKey.pub c ⟨e⟩, client.pub c⟩ controller msg first.into =
        .ok (⟨s, StaticKey.pub c ⟨e⟩, client.pub c⟩, first.payload) := by
  obtain ⟨key, s₁, hkey, -⟩ := (mixKey_at (mixEphemeral c (mixHash c (.start c sessionName prologue)
    (controller.pub c).toList) (StaticKey.pub c ⟨e⟩) false) (shared c ⟨e⟩ controller)).carries c (by decide) hclient
  obtain ⟨body, s₂, hbody, -⟩ := (mixKey_at s₁ (shared c client controller)).carries c (by decide) hopens
  have he : (StaticKey.pub c ⟨e⟩).toList.length = keyBytes := Vector.length_toList
  have hpub : (client.pub c).toList.length = keyBytes := Vector.length_toList
  have hlen : key.length = sealedKeyBytes := by rw [hkey.length, hpub]; rfl
  have hboth : ((StaticKey.pub c ⟨e⟩).toList ++ key).length = keyBytes + sealedKeyBytes := by
    rw [List.length_append, he, hlen]
  have hsent := hroom.sent
  have hwidth : sealedKeyBytes = keyBytes + tagBytes := rfl
  refine ⟨(StaticKey.pub c ⟨e⟩).toList ++ key ++ body, s₁, s₂, ?_, ?_, ?_⟩
  · refine bind_ok.mpr ⟨_, sendEphemeral_ok ?_, bind_ok.mpr ⟨_, hes.left, bind_ok.mpr ⟨_, tail_ok ?_, ?_⟩⟩⟩
    · omega
    · omega
    refine bind_ok.mpr ⟨_, hkey.sends _ ?_, bind_ok.mpr ⟨_, hss.left, bind_ok.mpr ⟨_, tail_ok ?_, ?_⟩⟩⟩
    · omega
    · omega
    refine bind_ok.mpr ⟨_, hbody.sends _ ?_, rfl⟩
    omega
  · rw [List.append_assoc]
    refine bind_ok.mpr ⟨_, readEphemeral_ok _ _ _ _, bind_ok.mpr ⟨_, hes.right, bind_ok.mpr ⟨_, after_append he, ?_⟩⟩⟩
    exact bind_ok.mpr ⟨_, hkey.static body, rfl⟩
  · refine bind_ok.mpr ⟨_, hss.right, bind_ok.mpr ⟨_, after_append hboth, ?_⟩⟩
    exact bind_ok.mpr ⟨_, hbody.reads _ hroom.read, rfl⟩

theorem open_second {s : SymmetricState} {e r : Key32} (hee : Agrees c ⟨e⟩ ⟨r⟩) (hse : Agrees c client ⟨r⟩)
    (hopens : Opens aead second.payload) (hroom : second.Fits (keyBytes + tagBytes)) :
    ∃ msg keys, HelloProved.reply c aead ⟨s, StaticKey.pub c ⟨e⟩, client.pub c⟩ r second.payload second.dst =
        .ok (keys, msg) ∧
      HelloInitiator.readReply c aead ⟨s, ⟨e⟩⟩ client msg second.into = .ok (keys, second.payload) := by
  obtain ⟨body, s₁, hbody, -⟩ := (mixKey_at (c := c) (mixKey c (mixEphemeral c s (StaticKey.pub c ⟨r⟩) false)
    (shared c ⟨e⟩ ⟨r⟩)) (shared c client ⟨r⟩)).carries c (by decide) hopens
  have hr : (StaticKey.pub c ⟨r⟩).toList.length = keyBytes := Vector.length_toList
  have hsent := hroom.sent
  refine ⟨(StaticKey.pub c ⟨r⟩).toList ++ body, split c s₁, ?_, ?_⟩
  · refine bind_ok.mpr ⟨_, sendEphemeral_ok ?_, bind_ok.mpr ⟨_, hee.right, bind_ok.mpr ⟨_, hse.right,
      bind_ok.mpr ⟨_, tail_ok ?_, bind_ok.mpr ⟨_, hbody.sends _ ?_, rfl⟩⟩⟩⟩⟩
    all_goals omega
  · refine bind_ok.mpr ⟨_, readEphemeral_ok _ _ _ _, bind_ok.mpr ⟨_, hee.left, bind_ok.mpr ⟨_, hse.left, ?_⟩⟩⟩
    exact bind_ok.mpr ⟨_, after_append hr, bind_ok.mpr ⟨_, hbody.reads _ hroom.read, rfl⟩⟩

end

section

variable {s s' : SymmetricState} {payload out : Bytes} {dst n room : ℕ}

theorem CipherState.encrypt_within {s s' : CipherState} {ad : Bytes} (h : s.encrypt aead ad payload dst = .ok (out, s')) :
    out.length ≤ dst := by
  unfold CipherState.encrypt at h
  split at h
  · split_ifs at h with hroom
    cases h
    exact not_lt.mp hroom
  · obtain ⟨⟨nonce, next⟩, -, h⟩ := bind_ok.mp h
    dsimp only at h
    split_ifs at h with hroom
    obtain ⟨⟨body, tag⟩, hseal, h⟩ := bind_ok.mp h
    cases h
    unfold sealInPlace at hseal
    split at hseal
    · cases hseal
    · rename_i hencrypt
      split_ifs at hseal
      cases hseal
      obtain ⟨hbody, htag⟩ := aead.encrypt_length hencrypt
      rw [List.length_append, hbody, htag]
      exact not_lt.mp hroom

theorem encryptAndHash_within (h : encryptAndHash c aead s payload dst = .ok (out, s')) : out.length ≤ dst := by
  obtain ⟨⟨sealed, cipher⟩, hsealed, h⟩ := bind_ok.mp h
  cases h
  exact CipherState.encrypt_within hsealed

theorem tail_within (h : tail dst n = .ok room) : n + room = dst := by
  unfold tail at h
  split_ifs at h with hroom
  cases h
  omega

theorem sent_within {head : Bytes} (htail : tail dst head.length = .ok room)
    (h : encryptAndHash c aead s payload room = .ok (out, s')) : (head ++ out).length ≤ dst := by
  have hroom := tail_within htail
  have hout := encryptAndHash_within h
  rw [List.length_append]
  omega

variable {prologue msg : Bytes} {psk entropy : Key32} {key : StaticKey} {keys : SessionKeys}

theorem PairInitiator.start_within {i : PairInitiator}
    (h : PairInitiator.start c aead prologue psk entropy payload dst = .ok (i, msg)) : msg.length ≤ dst := by
  obtain ⟨⟨head, s₁⟩, -, h⟩ := bind_ok.mp h
  obtain ⟨room, htail, h⟩ := bind_ok.mp h
  obtain ⟨⟨body, s₂⟩, hbody, h⟩ := bind_ok.mp h
  cases h
  exact sent_within htail hbody

theorem PairRequested.reply_within {r : PairRequested} {a : PairAwaiting}
    (h : r.reply c aead key entropy payload dst = .ok (a, msg)) : msg.length ≤ dst := by
  obtain ⟨⟨head, s₁⟩, -, h⟩ := bind_ok.mp h
  obtain ⟨shared, -, h⟩ := bind_ok.mp h
  obtain ⟨room, -, h⟩ := bind_ok.mp h
  obtain ⟨⟨sealed, s₂⟩, -, h⟩ := bind_ok.mp h
  obtain ⟨shared', -, h⟩ := bind_ok.mp h
  obtain ⟨room', htail, h⟩ := bind_ok.mp h
  obtain ⟨⟨body, s₃⟩, hbody, h⟩ := bind_ok.mp h
  cases h
  exact sent_within htail hbody

theorem PairReplied.finish_within {r : PairReplied} (h : r.finish c aead key payload dst = .ok (keys, msg)) :
    msg.length ≤ dst := by
  obtain ⟨⟨head, s₁⟩, -, h⟩ := bind_ok.mp h
  obtain ⟨shared, -, h⟩ := bind_ok.mp h
  obtain ⟨room, htail, h⟩ := bind_ok.mp h
  obtain ⟨⟨body, s₂⟩, hbody, h⟩ := bind_ok.mp h
  cases h
  exact sent_within htail hbody

theorem HelloInitiator.start_within {controller : PublicKey} {i : HelloInitiator}
    (h : HelloInitiator.start c aead prologue controller key entropy payload dst = .ok (i, msg)) : msg.length ≤ dst := by
  obtain ⟨⟨head, s₁⟩, -, h⟩ := bind_ok.mp h
  obtain ⟨shared, -, h⟩ := bind_ok.mp h
  obtain ⟨room, -, h⟩ := bind_ok.mp h
  obtain ⟨⟨sealed, s₂⟩, -, h⟩ := bind_ok.mp h
  obtain ⟨shared', -, h⟩ := bind_ok.mp h
  obtain ⟨room', htail, h⟩ := bind_ok.mp h
  obtain ⟨⟨body, s₃⟩, hbody, h⟩ := bind_ok.mp h
  cases h
  exact sent_within htail hbody

theorem HelloProved.reply_within {p : HelloProved} (h : p.reply c aead entropy payload dst = .ok (keys, msg)) :
    msg.length ≤ dst := by
  obtain ⟨⟨head, s₁⟩, -, h⟩ := bind_ok.mp h
  obtain ⟨shared, -, h⟩ := bind_ok.mp h
  obtain ⟨shared', -, h⟩ := bind_ok.mp h
  obtain ⟨room, htail, h⟩ := bind_ok.mp h
  obtain ⟨⟨body, s₂⟩, hbody, h⟩ := bind_ok.mp h
  cases h
  exact sent_within htail hbody

end

def Crossed (client : ClientChannel) (controller : ControllerChannel) : Prop :=
  client.tx.key = controller.rx.key ∧ controller.tx.key = client.rx.key

/-- Both handshakes end, of messages that arrive as they were written, with one hash and crossed keys on both sides,
the other's key learned, and every payload read. -/
theorem handshakes_complete (c : Primitives) (aead : Aead) :
    (∀ (prologue : Bytes) (psk clientEntropy controllerEntropy : Key32) (client controller : StaticKey)
      (first second third : Leg), Agrees c ⟨clientEntropy⟩ ⟨controllerEntropy⟩ → Agrees c ⟨clientEntropy⟩ controller →
      Agrees c client ⟨controllerEntropy⟩ →
      (∀ plaintext ∈ [(controller.pub c).toList, (client.pub c).toList, first.payload, second.payload, third.payload],
        Opens aead plaintext) →
      first.Fits (keyBytes + tagBytes) → second.Fits (keyBytes + sealedKeyBytes + tagBytes) →
      third.Fits (sealedKeyBytes + tagBytes) →
      ∃ clientKeys controllerKeys,
        pairing c aead prologue psk clientEntropy controllerEntropy client controller first second third =
          .ok ⟨clientKeys, controllerKeys, controller.pub c, client.pub c,
            [first.payload, second.payload, third.payload]⟩ ∧
        clientKeys.hash = controllerKeys.hash ∧ Crossed clientKeys.forInitiator controllerKeys.forResponder) ∧
    (∀ (prologue : Bytes) (clientEntropy controllerEntropy : Key32) (client controller : StaticKey)
      (first second : Leg), Agrees c ⟨clientEntropy⟩ ⟨controllerEntropy⟩ → Agrees c ⟨clientEntropy⟩ controller →
      Agrees c client controller → Agrees c client ⟨controllerEntropy⟩ →
      (∀ plaintext ∈ [(client.pub c).toList, first.payload, second.payload], Opens aead plaintext) →
      first.Fits (keyBytes + sealedKeyBytes + tagBytes) → second.Fits (keyBytes + tagBytes) →
      ∃ clientKeys controllerKeys,
        opening c aead prologue clientEntropy controllerEntropy client controller first second =
          .ok ⟨clientKeys, controllerKeys, client.pub c, client.pub c, [first.payload, second.payload]⟩ ∧
        clientKeys.hash = controllerKeys.hash ∧ Crossed clientKeys.forInitiator controllerKeys.forResponder) := by
  constructor
  · intro prologue psk clientEntropy controllerEntropy client controller first second third hee hes hse hopens hfirst
      hsecond hthird
    simp only [List.forall_mem_cons, List.not_mem_nil, false_implies, implies_true, and_true] at hopens
    obtain ⟨hcontroller, hclient, hopens₁, hopens₂, hopens₃⟩ := hopens
    obtain ⟨msg₁, s₁, hstart, hrequest⟩ := pair_first (c := c) (e := clientEntropy) hopens₁ hfirst
    obtain ⟨msg₂, s₂, hat, hreply, hreplied⟩ := pair_second hee hes hcontroller hopens₂ hsecond
    obtain ⟨msg₃, keys, hfinish, hfinished⟩ := pair_third hat hse hclient hopens₃ hthird
    refine ⟨keys, keys, ?_, rfl, rfl, rfl⟩
    refine bind_ok.mpr ⟨_, hstart, bind_ok.mpr ⟨_, hrequest, bind_ok.mpr ⟨_, hreply, bind_ok.mpr ⟨_, hreplied, ?_⟩⟩⟩⟩
    exact bind_ok.mpr ⟨_, hfinish, bind_ok.mpr ⟨_, hfinished, rfl⟩⟩
  · intro prologue clientEntropy controllerEntropy client controller first second hee hes hss hse hopens hfirst hsecond
    simp only [List.forall_mem_cons, List.not_mem_nil, false_implies, implies_true, and_true] at hopens
    obtain ⟨hclient, hopens₁, hopens₂⟩ := hopens
    obtain ⟨msg₁, claimed, s₁, hstart, hclaim, hprove⟩ := open_first hes hss hclient hopens₁ hfirst
    obtain ⟨msg₂, keys, hreply, hread⟩ := open_second hee hse hopens₂ hsecond
    refine ⟨keys, keys, ?_, rfl, rfl, rfl⟩
    refine bind_ok.mpr ⟨_, hstart, bind_ok.mpr ⟨_, hclaim, bind_ok.mpr ⟨_, hprove, bind_ok.mpr ⟨_, hreply, ?_⟩⟩⟩⟩
    exact bind_ok.mpr ⟨_, hread, rfl⟩

def additive : Primitives where
  sha256 bytes := fill 32 bytes
  hmac _ message := fill 32 message
  extract _ ikm := fill 32 ikm
  publicKey secret := secret
  diffieHellman a b := .ofFn fun i => a[i] + b[i]

def repeated (byte : UInt8) : Key32 := .replicate 32 byte

theorem additive_agrees : Agrees additive ⟨repeated 1⟩ ⟨repeated 2⟩ ∧ Agrees additive ⟨repeated 1⟩ ⟨repeated 4⟩ ∧
    Agrees additive ⟨repeated 3⟩ ⟨repeated 2⟩ ∧ Agrees additive ⟨repeated 3⟩ ⟨repeated 4⟩ :=
  ⟨⟨by decide, by decide⟩, ⟨by decide, by decide⟩, ⟨by decide, by decide⟩, ⟨by decide, by decide⟩⟩

theorem transparent_opens (plaintext : Bytes) : Opens .transparent plaintext :=
  fun _ _ _ => ⟨plaintext, List.replicate tagBytes 0, rfl, rfl⟩

theorem handshakes_complete_additive :
    (∃ clientKeys controllerKeys,
      pairing additive .transparent [9] (repeated 7) (repeated 1) (repeated 2) ⟨repeated 3⟩ ⟨repeated 4⟩
        ⟨[5], 49, 1⟩ ⟨[6, 6], 98, 2⟩ ⟨[], 64, 0⟩ =
        .ok ⟨clientKeys, controllerKeys, repeated 4, repeated 3, [[5], [6, 6], []]⟩ ∧
      clientKeys.hash = controllerKeys.hash ∧ Crossed clientKeys.forInitiator controllerKeys.forResponder) ∧
    (∃ clientKeys controllerKeys,
      opening additive .transparent [9] (repeated 1) (repeated 2) ⟨repeated 3⟩ ⟨repeated 4⟩ ⟨[5], 97, 1⟩ ⟨[6, 6], 50, 2⟩ =
        .ok ⟨clientKeys, controllerKeys, repeated 3, repeated 3, [[5], [6, 6]]⟩ ∧
      clientKeys.hash = controllerKeys.hash ∧ Crossed clientKeys.forInitiator controllerKeys.forResponder) := by
  obtain ⟨hee, hes, hse, hss⟩ := additive_agrees
  constructor
  · exact (handshakes_complete additive .transparent).1 [9] (repeated 7) (repeated 1) (repeated 2) ⟨repeated 3⟩
      ⟨repeated 4⟩ ⟨[5], 49, 1⟩ ⟨[6, 6], 98, 2⟩ ⟨[], 64, 0⟩ hee hes hse (fun plaintext _ => transparent_opens plaintext)
      ⟨by decide, by decide⟩ ⟨by decide, by decide⟩ ⟨by decide, by decide⟩
  · exact (handshakes_complete additive .transparent).2 [9] (repeated 1) (repeated 2) ⟨repeated 3⟩ ⟨repeated 4⟩
      ⟨[5], 97, 1⟩ ⟨[6, 6], 50, 2⟩ hee hes hss hse (fun plaintext _ => transparent_opens plaintext)
      ⟨by decide, by decide⟩ ⟨by decide, by decide⟩

end Km43.Noise
