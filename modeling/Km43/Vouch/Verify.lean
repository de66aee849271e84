import Mathlib.Data.Sym.Sym2
import Km43.Vouch.Bodies

namespace Km43.Vouch

open Library Identity Cbor CborReader

variable {c : Primitives}

def VouchStatement.parts (s : VouchStatement) : List Bytes :=
  [s.deviceId.toList, u32Bytes s.epoch.get, u32Bytes s.clientId.get, u32Bytes s.generation.get, s.nonce.toList,
    s.binding.toList]

theorem vouchInput_message (key : VouchKey) (s : VouchStatement) :
    (vouchInput key s).message = ascii Domain.vouch.text ++ s.parts.flatten := by
  simp [vouchInput, Preimage.bytes, Preimage.under, VouchStatement.parts]

theorem number_inj {a b : NonZeroU32} (h : u32Bytes a.get = u32Bytes b.get) : a = b := NonZeroU32.ext (u32Bytes_inj h)

theorem parts_inj {s t : VouchStatement} (h : s.parts.flatten = t.parts.flatten) : s = t := by
  obtain ⟨device, epoch, client, generation, nonce, binding⟩ := s
  obtain ⟨device', epoch', client', generation', nonce', binding'⟩ := t
  simp only [VouchStatement.parts, List.flatten_cons, List.flatten_nil, List.append_nil] at h
  obtain ⟨hdevice, h⟩ := List.append_inj h (by simp)
  obtain ⟨hepoch, h⟩ := List.append_inj h (by simp [u32Bytes_length])
  obtain ⟨hclient, h⟩ := List.append_inj h (by simp [u32Bytes_length])
  obtain ⟨hgeneration, h⟩ := List.append_inj h (by simp [u32Bytes_length])
  obtain ⟨hnonce, hbinding⟩ := List.append_inj h (by simp)
  rw [Vector.toList_inj.mp hdevice, number_inj hepoch, number_inj hclient, number_inj hgeneration,
    Vector.toList_inj.mp hnonce, Vector.toList_inj.mp hbinding]

theorem vouchInput_inj {key key' : VouchKey} {s t : VouchStatement} (h : vouchInput key s = vouchInput key' t) :
    key = key' ∧ s = t := by
  have hmessage := congrArg Preimage.message h
  rw [vouchInput_message, vouchInput_message] at hmessage
  exact ⟨congrArg Preimage.key h, parts_inj (List.append_cancel_left hmessage)⟩

theorem vouchKey_ok {key : StaticKey} {deviceId : DeviceId} {peer : PublicKey} {k : VouchKey} :
    key.vouchKey c deviceId peer = .ok k ↔ c.diffieHellman key.secret peer ≠ .replicate 32 0 ∧
      c.derive deviceId.toList (c.diffieHellman key.secret peer).toList .vouchKey = k := by
  rw [StaticKey.vouchKey, StaticKey.agree]
  split_ifs with h
  · show Except.ok _ = Except.ok k ↔ _
    rw [Except.ok.injEq]
    exact (and_iff_right h).symm
  · constructor
    · intro hk
      cases hk
    · rintro ⟨hne, -⟩
      exact absurd hne h

theorem vouchKey_error {key : StaticKey} {deviceId : DeviceId} {peer : PublicKey}
    (h : c.diffieHellman key.secret peer = .replicate 32 0) : key.vouchKey c deviceId peer = .error .lowOrderPoint := by
  rw [StaticKey.vouchKey, StaticKey.agree, if_neg (not_not.mpr h)]
  rfl

theorem vouchKey_same (hc : c.Commutes) (a b : StaticKey) (deviceId : DeviceId) :
    a.vouchKey c deviceId (b.pub c) = b.vouchKey c deviceId (a.pub c) := by
  rw [StaticKey.vouchKey, StaticKey.vouchKey, StaticKey.agree_same hc]

section

variable {issue : VouchIssue} {verifier : StaticKey} {record : Option (Vector UInt8 16)} {claim : VouchClaim}

theorem verify_unmatched (h : record ≠ some (fingerprint c claim.controller)) :
    issue.verify c verifier record claim = .error (if record.isNone then .noRecord else .wrongController) := by
  cases record with
  | none => rfl
  | some printed =>
    have hfalse : vouchesFor c printed claim.controller = false := decide_eq_false fun hp => h (congrArg some hp)
    simp [VouchIssue.verify, hfalse]

theorem verify_lowOrder (hrecord : record = some (fingerprint c claim.controller))
    (h : c.diffieHellman verifier.secret claim.controller = .replicate 32 0) :
    issue.verify c verifier record claim = .error .lowOrderController := by
  subst hrecord
  have htrue : vouchesFor c (fingerprint c claim.controller) claim.controller = true := decide_eq_true rfl
  simp [VouchIssue.verify, htrue, vouchKey_error h]

theorem verify_agreed (hrecord : record = some (fingerprint c claim.controller)) {key : VouchKey}
    (hkey : verifier.vouchKey c issue.deviceId claim.controller = .ok key) :
    issue.verify c verifier record claim = if claim.tag = vouchTag c key (issue.statement claim)
      then .ok ⟨issue.statement claim⟩ else .error .tagMismatch := by
  subst hrecord
  have htrue : vouchesFor c (fingerprint c claim.controller) claim.controller = true := decide_eq_true rfl
  simp only [VouchIssue.verify, htrue, hkey, Bool.not_true, Bool.false_eq_true, if_false]
  by_cases htag : claim.tag = vouchTag c key (issue.statement claim)
  · rw [if_pos htag, htag, Tag.verify_self]
  · rw [if_neg htag, Tag.verify, if_neg (by simp), if_neg fun h => htag (Vector.toList_inj.mp h).symm]

theorem verify_ok {v : Vouched} : issue.verify c verifier record claim = .ok v ↔
    record = some (fingerprint c claim.controller) ∧
      (∃ key, verifier.vouchKey c issue.deviceId claim.controller = .ok key ∧
        claim.tag = vouchTag c key (issue.statement claim)) ∧ v.statement = issue.statement claim := by
  by_cases hrecord : record = some (fingerprint c claim.controller)
  · by_cases hzero : c.diffieHellman verifier.secret claim.controller = .replicate 32 0
    · rw [verify_lowOrder hrecord hzero, vouchKey_error hzero]
      simp
    · have hkey := vouchKey_ok.mpr ⟨hzero, (rfl : c.derive issue.deviceId.toList _ .vouchKey = _)⟩
      rw [verify_agreed hrecord hkey]
      obtain ⟨statement⟩ := v
      split_ifs with htag
      · simp only [Except.ok.injEq, Vouched.mk.injEq, hrecord, hkey, true_and, exists_eq_left', htag]
        exact eq_comm
      · simp only [hkey, Except.ok.injEq, exists_eq_left', htag, false_and, and_false]
  · rw [verify_unmatched hrecord]
    simp [hrecord]

theorem answer_vouched {r : VouchRequest} {controller : StaticKey} {deviceId : DeviceId} {epoch e : Epoch}
    {clientId cl : ClientId} {generation g : Generation} {tag : Tag} :
    r.answer c controller deviceId epoch (clientId, generation) = .vouched e cl g tag ↔
      (e = epoch ∧ cl = clientId ∧ g = generation) ∧ ∃ key, controller.vouchKey c deviceId r.verifier = .ok key ∧
        tag = vouchTag c key ⟨deviceId, epoch, clientId, generation, r.nonce, r.binding⟩ := by
  unfold VouchRequest.answer
  cases hkey : controller.vouchKey c deviceId r.verifier with
  | error why => simp
  | ok key =>
    simp only [VouchAnswer.vouched.injEq, Except.ok.injEq, exists_eq_left', and_assoc]
    constructor
    · rintro ⟨rfl, rfl, rfl, rfl⟩
      exact ⟨rfl, rfl, rfl, rfl⟩
    · rintro ⟨rfl, rfl, rfl, rfl⟩
      exact ⟨rfl, rfl, rfl, rfl⟩

theorem verify_own (hc : c.Commutes) {controller : StaticKey} (hcontroller : controller.pub c = claim.controller) :
    (∃ v, issue.verify c verifier record claim = .ok v) ↔ record = some (fingerprint c claim.controller) ∧
      c.diffieHellman verifier.secret claim.controller ≠ .replicate 32 0 ∧
      (⟨verifier.pub c, issue.nonce, issue.binding⟩ : VouchRequest).answer c controller issue.deviceId issue.epoch
        (claim.clientId, claim.generation) = .vouched issue.epoch claim.clientId claim.generation claim.tag := by
  have hkeys : controller.vouchKey c issue.deviceId (verifier.pub c) =
      verifier.vouchKey c issue.deviceId claim.controller := by
    rw [vouchKey_same hc, hcontroller]
  rw [answer_vouched]
  show _ ↔ _ ∧ _ ∧ _ ∧ ∃ key, controller.vouchKey c issue.deviceId (verifier.pub c) = .ok key ∧ _
  rw [hkeys]
  constructor
  · rintro ⟨v, hv⟩
    obtain ⟨hrecord, ⟨key, hkey, htag⟩, -⟩ := verify_ok.mp hv
    exact ⟨hrecord, (vouchKey_ok.mp hkey).1, ⟨rfl, rfl, rfl⟩, key, hkey, htag⟩
  · rintro ⟨hrecord, -, -, key, hkey, htag⟩
    exact ⟨⟨issue.statement claim⟩, verify_ok.mpr ⟨hrecord, ⟨key, hkey, htag⟩, rfl⟩⟩

end

structure Answered where
  request : VouchRequest
  controller : StaticKey
  deviceId : DeviceId
  epoch : Epoch
  clientId : ClientId
  generation : Generation

namespace Answered

variable (c) (a : Answered) (issue : VouchIssue) (verifier : StaticKey) (claim : VouchClaim)

def answer : VouchAnswer := a.request.answer c a.controller a.deviceId a.epoch (a.clientId, a.generation)

def statement : VouchStatement :=
  ⟨a.deviceId, a.epoch, a.clientId, a.generation, a.request.nonce, a.request.binding⟩

/-- Distinct inputs or keys of the MAC, among those the two sides compute, give distinct tags. -/
structure Apart : Prop where
  tags : ∀ key key', a.controller.vouchKey c a.deviceId a.request.verifier = .ok key →
    verifier.vouchKey c issue.deviceId claim.controller = .ok key' →
    Preimage.Apart c (vouchInput key a.statement) (vouchInput key' (issue.statement claim))
  keys : c.derive a.deviceId.toList (c.diffieHellman a.controller.secret a.request.verifier).toList .vouchKey =
    c.derive issue.deviceId.toList (c.diffieHellman verifier.secret claim.controller).toList .vouchKey →
    c.diffieHellman a.controller.secret a.request.verifier = c.diffieHellman verifier.secret claim.controller

def PairsApart : Prop :=
  c.diffieHellman a.controller.secret a.request.verifier = c.diffieHellman verifier.secret claim.controller →
    s(a.controller.pub c, a.request.verifier) = s(verifier.pub c, claim.controller)

variable {c a issue verifier claim}

theorem accepted {record : Option (Vector UInt8 16)} {e : Epoch} {cl : ClientId} {g : Generation} {v : Vouched}
    (hanswer : a.answer c = .vouched e cl g claim.tag) (hapart : a.Apart c issue verifier claim)
    (hv : issue.verify c verifier record claim = .ok v) : a.statement = issue.statement claim ∧
      c.diffieHellman a.controller.secret a.request.verifier = c.diffieHellman verifier.secret claim.controller := by
  obtain ⟨-, key, hkey, htag⟩ := answer_vouched.mp hanswer
  obtain ⟨-, ⟨key', hkey', htag'⟩, -⟩ := verify_ok.mp hv
  have hsame : (vouchInput key a.statement).tag c = (vouchInput key' (issue.statement claim)).tag c :=
    htag.symm.trans htag'
  obtain ⟨hkeys, hstatement⟩ := vouchInput_inj (hapart.tags key key' hkey hkey' hsame)
  refine ⟨hstatement, hapart.keys ?_⟩
  rw [(vouchKey_ok.mp hkey).2, (vouchKey_ok.mp hkey').2, hkeys]

theorem refused {record : Option (Vector UInt8 16)} {e : Epoch} {cl : ClientId} {g : Generation}
    (hanswer : a.answer c = .vouched e cl g claim.tag) (hapart : a.Apart c issue verifier claim)
    (hother : a.statement ≠ issue.statement claim ∨
      c.diffieHellman a.controller.secret a.request.verifier ≠ c.diffieHellman verifier.secret claim.controller) :
    ∃ why, issue.verify c verifier record claim = .error why := by
  cases hv : issue.verify c verifier record claim with
  | error why => exact ⟨why, rfl⟩
  | ok v =>
    obtain ⟨hstatement, hsecret⟩ := accepted hanswer hapart hv
    rcases hother with h | h
    · exact absurd hstatement h
    · exact absurd hsecret h

end Answered

/-- A vouch is accepted exactly for what its controller answered, and its bodies carry what was encoded. -/
theorem vouch_settles (hc : c.Commutes) :
    (∀ (issue : VouchIssue) (verifier : StaticKey) (record : Option (Vector UInt8 16)) (claim : VouchClaim) (v : Vouched),
      issue.verify c verifier record claim = .ok v ↔ record = some (fingerprint c claim.controller) ∧
        (∃ key, verifier.vouchKey c issue.deviceId claim.controller = .ok key ∧
          claim.tag = vouchTag c key (issue.statement claim)) ∧ v.statement = issue.statement claim) ∧
    (∀ (issue : VouchIssue) (verifier : StaticKey) (record : Option (Vector UInt8 16)) (claim : VouchClaim)
      (controller : StaticKey), controller.pub c = claim.controller →
      ((∃ v, issue.verify c verifier record claim = .ok v) ↔ record = some (fingerprint c claim.controller) ∧
        c.diffieHellman verifier.secret claim.controller ≠ .replicate 32 0 ∧
        (⟨verifier.pub c, issue.nonce, issue.binding⟩ : VouchRequest).answer c controller issue.deviceId issue.epoch
          (claim.clientId, claim.generation) = .vouched issue.epoch claim.clientId claim.generation claim.tag)) ∧
    (∀ (a : Answered) (issue : VouchIssue) (verifier : StaticKey) (record : Option (Vector UInt8 16)) (claim : VouchClaim)
      (e : Epoch) (cl : ClientId) (g : Generation), a.answer c = .vouched e cl g claim.tag →
      a.Apart c issue verifier claim →
      a.statement ≠ issue.statement claim ∨
        c.diffieHellman a.controller.secret a.request.verifier ≠ c.diffieHellman verifier.secret claim.controller ∨
        (a.PairsApart c verifier claim ∧
          s(a.controller.pub c, a.request.verifier) ≠ s(verifier.pub c, claim.controller)) →
      ∃ why, issue.verify c verifier record claim = .error why) ∧
    (∀ (issue : VouchIssue) (verifier : StaticKey) (record : Option (Vector UInt8 16)) (claim : VouchClaim),
      (record ≠ some (fingerprint c claim.controller) → ∀ tag : Tag,
        issue.verify c verifier record { claim with tag := tag } =
          .error (if record.isNone then .noRecord else .wrongController)) ∧
      (record = some (fingerprint c claim.controller) →
        c.diffieHellman verifier.secret claim.controller = .replicate 32 0 → ∀ tag : Tag,
        issue.verify c verifier record { claim with tag := tag } = .error .lowOrderController)) ∧
    (∀ (r : VouchRequest), (∀ dst out, r.encode dst = .ok out → VouchRequest.decode out = .ok r) ∧
      ∀ (w : Width) (here extra : List (Key × Item)), here.Perm (r.pairs ++ extra) → Unread RequestSlots.Known extra →
        (Item.map w here).Legal maxDepth → VouchRequest.decode (Item.map w here).spelling = .ok r) ∧
    (∀ (a : VouchAnswer), (∀ dst out, a.encode dst = .ok out → VouchAnswer.decode out = .ok a) ∧
      ∀ (w : Width) (here extra : List (Key × Item)), here.Perm (a.pairs ++ extra) → Unread AnswerSlots.Known extra →
        (Item.map w here).Legal maxDepth → VouchAnswer.decode (Item.map w here).spelling = .ok a) ∧
    ∀ (w : Width) (here : List (Key × Item)) (p : Key × Item) (outcome : Outcome), (Item.map w here).Legal maxDepth →
      p ∈ here → p.1.i64? = some 1 → u8Of p.2 = some outcome.byte → Disagrees here outcome →
      ∃ why, VouchAnswer.decode (Item.map w here).spelling = .error why := by
  refine ⟨?_, ?_, ?_, ?_, ?_, ?_, ?_⟩
  · intro issue verifier record claim v
    exact verify_ok
  · intro issue verifier record claim controller hcontroller
    exact verify_own hc hcontroller
  · intro a issue verifier record claim e cl g hanswer hapart hother
    rcases hother with h | h | ⟨hpairs, h⟩
    · exact Answered.refused hanswer hapart (.inl h)
    · exact Answered.refused hanswer hapart (.inr h)
    · exact Answered.refused hanswer hapart (.inr fun hsecret => h (hpairs hsecret))
  · intro issue verifier record claim
    constructor
    · intro hrecord tag
      exact verify_unmatched hrecord
    · intro hrecord hzero tag
      exact verify_lowOrder hrecord hzero
  · intro r
    exact ⟨fun _ _ h => r.decode_encode h, fun _ _ _ hhere hextra hlegal => r.decode_pairs hhere hextra hlegal⟩
  · intro a
    exact ⟨fun _ _ h => a.decode_encode h, fun _ _ _ hhere hextra hlegal => a.decode_pairs hhere hextra hlegal⟩
  · intro w here p outcome hlegal hp hkey houtcome hdisagrees
    exact VouchAnswer.decode_disagrees hlegal hp hkey houtcome hdisagrees

def plain : Primitives where
  sha256 bytes := fill 32 bytes
  hmac key message := fill 32 (key.toList.take 1 ++ message.drop 30)
  extract salt ikm := fill 32 (salt.take 1 ++ ikm)
  publicKey secret := secret
  diffieHellman a b := .ofFn fun i => a.get i + b.get i

theorem one_nonZero : (1 : UInt32) ≠ 0 := by decide

theorem two_nonZero : (2 : UInt32) ≠ 0 := by decide

theorem seven_nonZero : (7 : UInt32) ≠ 0 := by decide

def issued : VouchIssue := ⟨.replicate 16 1, ⟨2, two_nonZero⟩, .replicate 16 3, .replicate 32 4⟩

def verifierOfFive : StaticKey := ⟨.replicate 32 5⟩

def claimOfSix : VouchClaim :=
  ⟨.replicate 32 6, ⟨7, seven_nonZero⟩, ⟨1, one_nonZero⟩,
    vouchTag plain (plain.derive issued.deviceId.toList (Vector.replicate 32 11).toList .vouchKey)
      ⟨.replicate 16 1, ⟨2, two_nonZero⟩, ⟨7, seven_nonZero⟩, ⟨1, one_nonZero⟩, .replicate 16 3, .replicate 32 4⟩⟩

theorem plain_commutes : plain.Commutes := by
  intro a b
  show Vector.ofFn (fun i : Fin 32 => a.get i + b.get i) = Vector.ofFn fun i : Fin 32 => b.get i + a.get i
  refine congrArg Vector.ofFn (funext fun i => ?_)
  exact UInt8.add_comm _ _

theorem secret_eleven : plain.diffieHellman verifierOfFive.secret claimOfSix.controller = .replicate 32 11 := by decide

def issuedLater : VouchIssue := { issued with nonce := .replicate 16 9 }

def answeredFirst : Answered :=
  ⟨⟨verifierOfFive.pub plain, issued.nonce, issued.binding⟩, ⟨.replicate 32 6⟩, issued.deviceId, issued.epoch,
    claimOfSix.clientId, claimOfSix.generation⟩

theorem answeredFirst_apart : answeredFirst.Apart plain issuedLater verifierOfFive claimOfSix := by
  refine ⟨?_, fun _ => by decide⟩
  intro key key' hkey hkey' htag
  obtain ⟨-, rfl⟩ := vouchKey_ok.mp hkey
  obtain ⟨-, rfl⟩ := vouchKey_ok.mp hkey'
  exact absurd htag (by decide)

/-- The answer settles the question it was asked for, and neither a later one nor one about no controller. -/
theorem vouch_settles_six :
    (∃ v, issued.verify plain verifierOfFive (some (fingerprint plain claimOfSix.controller)) claimOfSix = .ok v ∧
      v.statement.clientId.get = 7) ∧
    (∃ why, issuedLater.verify plain verifierOfFive (some (fingerprint plain claimOfSix.controller)) claimOfSix =
      .error why) ∧
    issued.verify plain verifierOfFive none claimOfSix = .error .noRecord ∧
    ∀ dst out, answeredFirst.request.encode dst = .ok out → VouchRequest.decode out = .ok answeredFirst.request := by
  obtain ⟨haccepts, hown, hrefuses, hunmatched, hrequest, -, -⟩ := vouch_settles plain_commutes
  have hkey : verifierOfFive.vouchKey plain issued.deviceId claimOfSix.controller =
      .ok (plain.derive issued.deviceId.toList (Vector.replicate 32 11).toList .vouchKey) := by
    rw [vouchKey_ok, secret_eleven]
    exact ⟨by decide, rfl⟩
  have hok := (haccepts issued verifierOfFive (some (fingerprint plain claimOfSix.controller)) claimOfSix
    ⟨issued.statement claimOfSix⟩).mpr ⟨rfl, ⟨_, hkey, rfl⟩, rfl⟩
  have hanswer := ((hown issued verifierOfFive _ claimOfSix ⟨.replicate 32 6⟩ rfl).mp ⟨_, hok⟩).2.2
  refine ⟨⟨_, hok, rfl⟩, ?_, ?_, (hrequest answeredFirst.request).1⟩
  · apply hrefuses answeredFirst issuedLater verifierOfFive _ claimOfSix _ _ _ hanswer answeredFirst_apart
    exact .inl (by decide)
  · exact (hunmatched issued verifierOfFive none claimOfSix).1 (by simp) claimOfSix.tag

end Km43.Vouch
