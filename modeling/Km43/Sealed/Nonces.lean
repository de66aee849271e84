import Km43.Library.Machine
import Km43.Sealed.Seal

namespace Km43.Sealed

open Library

structure Session where
  client : RequestSealer
  controller : ControllerSealer

inductive SealCall
  | request (kind : MessageType) (session : SessionId) (inner dst : Bytes)
  | controller (header : Header) (inner dst : Bytes)

inductive SealOutcome
  | request (sealing : Sealing (UInt32 × ℕ))
  | controller (sealing : Sealing ℕ)

namespace SealOutcome

def handedBy : Direction → SealOutcome → List (Bytes × ℕ)
  | .request, .request sealing => sealing.handed.toList
  | .controller, .controller sealing => sealing.handed.toList
  | _, _ => []

def handed (outcome : SealOutcome) : List (Bytes × ℕ) :=
  outcome.handedBy .request ++ outcome.handedBy .controller

def issued : SealOutcome → List UInt32
  | .request ⟨.ok (reqId, _), _, _⟩ => [reqId]
  | _ => []

end SealOutcome

def Aead.transparent : Aead where
  encrypt _ _ _ body := some (body, List.replicate tagBytes 0)
  decrypt _ _ _ body _ := some body
  encrypt_length := by
    rintro key nonce ad body out tag h
    obtain ⟨rfl, rfl⟩ := Prod.mk.inj (Option.some.inj h)
    exact ⟨rfl, rfl⟩
  decrypt_length := by
    rintro key nonce ad body tag out h
    rw [Option.some.inj h]

def keyed (use : Bytes × ℕ) : Bytes × Bytes := (use.1, nonceBytes use.2)

namespace Session

def new (requests answers : Bytes) : Session := ⟨⟨requests, 1⟩, ⟨answers, 0⟩⟩

def call (aead : Aead) : Machine Session SealCall SealOutcome
  | s, .request kind session inner dst =>
    let (sealing, client) := s.client.seal aead kind session inner dst
    ({ s with client := client }, .request sealing)
  | s, .controller header inner dst =>
    let (sealing, controller) := s.controller.seal aead header inner dst
    ({ s with controller := controller }, .controller sealing)

def key (s : Session) : Direction → Bytes
  | .request => s.client.key
  | .controller => s.controller.key

def next (s : Session) : Direction → ℕ
  | .request => s.client.next.toNat
  | .controller => s.controller.next.toNat

end Session

def SealCall.isRequest : SealCall → Bool
  | request .. => true
  | controller .. => false

theorem RequestSealer.seal_cases (s : RequestSealer) (aead : Aead) (kind : MessageType)
    (session : SessionId) (inner dst : Bytes) :
    (Direction.of kind ≠ some .request ∧
      s.seal aead kind session inner dst = (.refused (.notSealed kind) dst, s)) ∨
    (Direction.of kind = some .request ∧ s.next = 0xFFFFFFFF ∧
      s.seal aead kind session inner dst = (.refused .exhausted dst, s)) ∨
    (s.next.toNat < 2 ^ 32 - 1 ∧
      (s.seal aead kind session inner dst).2 = { s with next := s.next + 1 } ∧
      (s.seal aead kind session inner dst).1.handed.toList.Sublist [(s.key, s.next.toNat)] ∧
      ∀ reqId len, (s.seal aead kind session inner dst).1.result = .ok (reqId, len) →
        reqId = s.next) := by
  by_cases hkind : Direction.of kind = some .request
  · by_cases hnext : s.next = 0xFFFFFFFF
    · exact .inr (.inl ⟨hkind, hnext, by simp [RequestSealer.seal, hkind, nextReqId, hnext]⟩)
    · have hlt : s.next.toNat < 2 ^ 32 - 1 := by
        have hne : s.next.toNat ≠ (0xFFFFFFFF : UInt32).toNat := mt UInt32.toNat_inj.mp hnext
        have hle := s.next.toNat_lt
        rw [show (0xFFFFFFFF : UInt32).toNat = 2 ^ 32 - 1 from rfl] at hne
        omega
      refine .inr (.inr ⟨hlt, ?_⟩)
      simp only [RequestSealer.seal, hkind, ne_eq, not_true_eq_false, if_false, nextReqId, hnext,
        true_and]
      refine ⟨?_, ?_⟩
      · rcases write_handed aead s.key ⟨kind, session, s.next⟩ s.next.toNat none inner dst with h | h
          <;> simp [h]
      · intro reqId len hok
        cases hw : (write aead s.key ⟨kind, session, s.next⟩ s.next.toNat none inner dst).result with
        | error why => simp [hw, Except.map] at hok
        | ok n =>
          simp only [hw, Except.map, Except.ok.injEq, Prod.mk.injEq] at hok
          exact hok.1.symm
  · exact .inl ⟨hkind, by simp [RequestSealer.seal, hkind]⟩

theorem RequestSealer.seal_used_up (s : RequestSealer) (h : s.next = 0xFFFFFFFF) (aead : Aead)
    (kind : MessageType) (session : SessionId) (inner dst : Bytes) :
    s.seal aead kind session inner dst =
      (.refused (if Direction.of kind = some .request then .exhausted else .notSealed kind) dst, s) := by
  unfold RequestSealer.seal
  by_cases hkind : Direction.of kind = some .request
  · simp [hkind, nextReqId, h]
  · simp [hkind]

def ControllerSealer.refusal? (header : Header) : Option SealError :=
  match Direction.check header with
  | .error why => some why
  | .ok .request => some (.notSealed header.kind)
  | .ok .controller => none

theorem ControllerSealer.seal_cases (s : ControllerSealer) (aead : Aead) (header : Header)
    (inner dst : Bytes) :
    (∃ why, refusal? header = some why ∧ s.seal aead header inner dst = (.refused why dst, s)) ∨
    (refusal? header = none ∧ s.next = lastNonce ∧
      s.seal aead header inner dst = (.refused .exhausted dst, s)) ∨
    (s.next.toNat < 2 ^ 64 - 1 ∧
      (s.seal aead header inner dst).2 = { s with next := s.next + 1 } ∧
      (s.seal aead header inner dst).1.handed.toList.Sublist [(s.key, s.next.toNat)]) := by
  unfold refusal? ControllerSealer.seal
  cases hcheck : Direction.check header with
  | error why => exact .inl ⟨why, rfl, rfl⟩
  | ok direction =>
    cases direction with
    | request => exact .inl ⟨_, rfl, by simp⟩
    | controller =>
      by_cases hnext : s.next = lastNonce
      · exact .inr (.inl ⟨rfl, hnext, by simp [hnext]⟩)
      · have hlt : s.next.toNat < 2 ^ 64 - 1 := by
          have hne : s.next.toNat ≠ lastNonce.toNat := mt UInt64.toNat_inj.mp hnext
          have hle := s.next.toNat_lt
          rw [show lastNonce.toNat = 2 ^ 64 - 1 from rfl] at hne
          omega
        refine .inr (.inr ⟨hlt, ?_⟩)
        simp only [ne_eq, not_true_eq_false, if_false, hnext, true_and]
        rcases write_handed aead s.key header s.next.toNat (some s.next.toNat) inner dst with h | h
          <;> simp [h]

theorem ControllerSealer.seal_used_up (s : ControllerSealer) (h : s.next = lastNonce) (aead : Aead)
    (header : Header) (inner dst : Bytes) :
    s.seal aead header inner dst = (.refused ((refusal? header).getD .exhausted) dst, s) := by
  rcases s.seal_cases aead header inner dst with ⟨why, hwhy, heq⟩ | ⟨hnone, -, heq⟩ | ⟨hlt, -⟩
  · rw [heq, hwhy, Option.getD_some]
  · rw [heq, hnone, Option.getD_none]
  · rw [h] at hlt
    exact absurd hlt (by decide)

namespace Session

variable {aead : Aead}

theorem call_spends (aead : Aead) (s : Session) (c : SealCall) (side : Direction) :
    (call aead s c).1.key side = s.key side ∧
      (((call aead s c).1.next side = s.next side ∧ (call aead s c).2.handedBy side = []) ∨
        ((call aead s c).1.next side = s.next side + 1 ∧
          ((call aead s c).2.handedBy side).Sublist [(s.key side, s.next side)])) := by
  cases c with
  | request kind session inner dst =>
    cases side with
    | controller => exact ⟨rfl, .inl ⟨rfl, rfl⟩⟩
    | request =>
      simp only [call, key, next, SealOutcome.handedBy]
      rcases s.client.seal_cases aead kind session inner dst with
        ⟨-, h⟩ | ⟨-, -, h⟩ | ⟨hlt, hnext, hhanded, -⟩
      · simp [h, Sealing.refused]
      · simp [h, Sealing.refused]
      · rw [hnext]
        refine ⟨rfl, .inr ⟨?_, hhanded⟩⟩
        rw [UInt32.toNat_add, UInt32.toNat_one]
        exact Nat.mod_eq_of_lt (by omega)
  | controller header inner dst =>
    cases side with
    | request => exact ⟨rfl, .inl ⟨rfl, rfl⟩⟩
    | controller =>
      simp only [call, key, next, SealOutcome.handedBy]
      rcases s.controller.seal_cases aead header inner dst with
        ⟨why, -, h⟩ | ⟨-, -, h⟩ | ⟨hlt, hnext, hhanded⟩
      · simp [h, Sealing.refused]
      · simp [h, Sealing.refused]
      · rw [hnext]
        refine ⟨rfl, .inr ⟨?_, hhanded⟩⟩
        rw [UInt64.toNat_add, UInt64.toNat_one]
        exact Nat.mod_eq_of_lt (by omega)

theorem counts (aead : Aead) (side : Direction) : Machine.Counts (call aead) (next · side)
    fun outcome => (outcome.handedBy side).map Prod.snd := by
  refine ⟨fun s c => ?_, fun s c => ?_⟩
  · rcases (call_spends aead s c side).2 with ⟨h, -⟩ | ⟨h, -⟩ <;> simp only [h]
    · exact le_rfl
    · exact Nat.le_succ _
  · rcases (call_spends aead s c side).2 with ⟨h, hhanded⟩ | ⟨h, hhanded⟩
    · simp [h, hhanded]
    · simpa [h] using hhanded.map Prod.snd

theorem handedBy_key (s : Session) (calls : List SealCall) (side : Direction) :
    ∀ use ∈ ((call aead).outputs s calls).flatMap (SealOutcome.handedBy side),
      use.1 = s.key side := by
  have step : ∀ t c, t.key side = s.key side → (call aead t c).1.key side = s.key side ∧
      ∀ use ∈ (call aead t c).2.handedBy side, use.1 = s.key side := by
    intro t c ht
    obtain ⟨hkey, hspends⟩ := call_spends aead t c side
    refine ⟨hkey.trans ht, fun use huse => ?_⟩
    rcases hspends with ⟨-, hhanded⟩ | ⟨-, hhanded⟩
    · simp [hhanded] at huse
    · rw [List.mem_singleton.mp (hhanded.subset huse), ht]
  have hrun : ∀ outcome ∈ (call aead).outputs s calls,
      ∀ use ∈ outcome.handedBy side, use.1 = s.key side :=
    Machine.outputs_invariant (·.key side = s.key side) _ step rfl calls
  intro use huse
  obtain ⟨outcome, houtcome, huse⟩ := List.mem_flatMap.mp huse
  exact hrun outcome houtcome use huse

theorem next_lt (s : Session) (side : Direction) : s.next side < 2 ^ 64 := by
  cases side with
  | request => exact s.client.next.toNat_lt.trans (by norm_num)
  | controller => exact s.controller.next.toNat_lt

theorem handedBy_nodup (aead : Aead) (s : Session) (calls : List SealCall) (side : Direction) :
    ((((call aead).outputs s calls).flatMap (SealOutcome.handedBy side)).map keyed).Nodup := by
  have hnodup := (counts aead side).nodup s calls
  have hmap : (((call aead).outputs s calls).flatMap (SealOutcome.handedBy side)).map Prod.snd =
      ((call aead).outputs s calls).flatMap fun outcome => (outcome.handedBy side).map Prod.snd :=
    List.map_flatMap ..
  have hlt : ∀ use ∈ ((call aead).outputs s calls).flatMap (SealOutcome.handedBy side),
      use.2 < 2 ^ 64 := by
    intro use huse
    have hmem := (counts aead side).mem (hmap ▸ List.mem_map_of_mem (f := Prod.snd) huse)
    exact hmem.2.trans (next_lt _ side)
  rw [← hmap] at hnodup
  refine List.Nodup.map_on (fun x hx y hy hxy => ?_) (.of_map _ hnodup)
  obtain ⟨hkey, hnonce⟩ := Prod.mk.inj hxy
  exact Prod.ext hkey (nonceBytes_inj (hlt x hx) (hlt y hy) hnonce)

theorem handed_nodup (aead : Aead) (s : Session) (calls : List SealCall)
    (hkeys : s.client.key ≠ s.controller.key) :
    ((((call aead).outputs s calls).flatMap SealOutcome.handed).map keyed).Nodup := by
  have hperm := (List.flatMap_append_perm ((call aead).outputs s calls)
    (SealOutcome.handedBy .request) (SealOutcome.handedBy .controller)).map keyed
  refine hperm.nodup_iff.mp ?_
  rw [List.map_append, List.nodup_append]
  refine ⟨handedBy_nodup .., handedBy_nodup .., ?_⟩
  intro x hx y hy hxy
  obtain ⟨u, hu, rfl⟩ := List.mem_map.mp hx
  obtain ⟨v, hv, rfl⟩ := List.mem_map.mp hy
  have hu := handedBy_key s calls .request u hu
  have hv := handedBy_key s calls .controller v hv
  exact hkeys (hu.symm.trans ((Prod.mk.inj hxy).1.trans hv))

theorem counts_issued (aead : Aead) : Machine.Counts (call aead) (next · .request)
    fun outcome => outcome.issued.map UInt32.toNat := by
  refine ⟨(counts aead .request).le, fun s c => ?_⟩
  cases c with
  | controller header inner dst => exact List.nil_sublist _
  | request kind session inner dst =>
    simp only [call, next]
    rcases s.client.seal_cases aead kind session inner dst with
      ⟨-, h⟩ | ⟨-, -, h⟩ | ⟨hlt, hnext, -, hissued⟩
    · simp [h, Sealing.refused, SealOutcome.issued]
    · simp [h, Sealing.refused, SealOutcome.issued]
    · have hsucc : (s.client.next + 1).toNat = s.client.next.toNat + 1 := by
        rw [UInt32.toNat_add, UInt32.toNat_one]
        exact Nat.mod_eq_of_lt (by omega)
      rw [hnext, hsucc, Nat.add_sub_cancel_left]
      rcases hseal : (s.client.seal aead kind session inner dst).1 with
        ⟨why | ⟨reqId, len⟩, out, used⟩
      · exact List.nil_sublist _
      · rw [hseal] at hissued
        simp [SealOutcome.issued, hissued reqId len rfl]

theorem next_le (aead : Aead) (s : Session) (calls : List SealCall) :
    ((call aead).final s calls).next .request ≤
      s.next .request + calls.countP SealCall.isRequest := by
  induction calls generalizing s with
  | nil => exact le_rfl
  | cons c calls ih =>
    have hih := ih (call aead s c).1
    rw [Machine.final_cons, List.countP_cons]
    have hstep : (call aead s c).1.next .request ≤
        s.next .request + if c.isRequest then 1 else 0 := by
      cases c with
      | controller header inner dst => exact le_rfl
      | request kind session inner dst =>
        rcases (call_spends aead s (.request kind session inner dst) .request).2 with
          ⟨h, -⟩ | ⟨h, -⟩ <;> rw [h]
        · exact Nat.le_add_right _ _
        · exact le_rfl
    omega

theorem issued_sublist (aead : Aead) (requests answers : Bytes) (calls : List SealCall) :
    (((call aead).outputs (new requests answers) calls).flatMap
      fun outcome => outcome.issued.map UInt32.toNat).Sublist
        (List.range' 1 (calls.countP SealCall.isRequest)) := by
  have hrun := (counts_issued aead).run (new requests answers) calls
  have hle := next_le aead (new requests answers) calls
  have hone : (new requests answers).next .request = 1 := rfl
  rw [hone] at hrun hle
  exact hrun.trans (List.range'_sublist_right.mpr (by omega))

theorem client_used_up (aead : Aead) (s : Session) (h : s.client.next = 0xFFFFFFFF)
    (calls : List SealCall) : ((call aead).final s calls).client = s.client := by
  induction calls generalizing s with
  | nil => rfl
  | cons c calls ih =>
    have hstep : (call aead s c).1.client = s.client := by
      cases c with
      | controller header inner dst => rfl
      | request kind session inner dst =>
        simp only [call, s.client.seal_used_up h aead kind session inner dst]
    rw [Machine.final_cons, ih _ (by rw [hstep, h]), hstep]

theorem controller_used_up (aead : Aead) (s : Session) (h : s.controller.next = lastNonce)
    (calls : List SealCall) : ((call aead).final s calls).controller = s.controller := by
  induction calls generalizing s with
  | nil => rfl
  | cons c calls ih =>
    have hstep : (call aead s c).1.controller = s.controller := by
      cases c with
      | request kind session inner dst => rfl
      | controller header inner dst =>
        simp only [call, s.controller.seal_used_up h aead header inner dst]
    rw [Machine.final_cons, ih _ (by rw [hstep, h]), hstep]

theorem seals_spend (aead : Aead) (requests answers : Bytes) (calls : List SealCall) :
    (∀ side, ((((call aead).outputs (new requests answers) calls).flatMap
      (SealOutcome.handedBy side)).map keyed).Nodup) ∧
    (requests ≠ answers → ((((call aead).outputs (new requests answers) calls).flatMap
      SealOutcome.handed).map keyed).Nodup) ∧
    (((call aead).outputs (new requests answers) calls).flatMap
      fun outcome => outcome.issued.map UInt32.toNat).Sublist
        (List.range' 1 (calls.countP SealCall.isRequest)) ∧
    (((call aead).final (new requests answers) calls).client.next = 0xFFFFFFFF →
      ∀ later kind session inner dst,
        let client := ((call aead).final (new requests answers) (calls ++ later)).client
        client.seal aead kind session inner dst =
          (.refused (if Direction.of kind = some .request then .exhausted else .notSealed kind) dst,
            client)) ∧
    (((call aead).final (new requests answers) calls).controller.next = lastNonce →
      ∀ later header inner dst,
        let controller := ((call aead).final (new requests answers) (calls ++ later)).controller
        controller.seal aead header inner dst =
          (.refused ((ControllerSealer.refusal? header).getD .exhausted) dst, controller)) := by
  refine ⟨fun side => handedBy_nodup aead _ calls side, fun hkeys => handed_nodup aead _ calls hkeys,
    issued_sublist aead requests answers calls, ?_, ?_⟩
  · intro h later kind session inner dst client
    have hstay := client_used_up aead _ h later
    rw [← Machine.final_append] at hstay
    exact client.seal_used_up (by rw [← h, ← hstay]) aead kind session inner dst
  · intro h later header inner dst controller
    have hstay := controller_used_up aead _ h later
    rw [← Machine.final_append] at hstay
    exact controller.seal_used_up (by rw [← h, ← hstay]) aead header inner dst

theorem seals_spend_pair :
    ([] : Bytes) ≠ [0] ∧
      ((((call .transparent).outputs (new [] [0]) [.request .getConfig .none [] (List.replicate 64 0),
        .controller ⟨.getConfigResponse, .none, 1⟩ [] []]).flatMap SealOutcome.handed).map
          keyed).Nodup :=
  ⟨by decide, (seals_spend .transparent [] [0] _).2.1 (by decide)⟩

theorem next_after_failures (n : ℕ) (h : n < 2 ^ 32 - 1) :
    ((call .transparent).final (new [] []) (List.replicate n (.request .getConfig .none [] []))).next
      .request = 1 + n := by
  induction n with
  | zero => rfl
  | succ n ih =>
    have ih := ih (by omega)
    rw [List.replicate_succ', Machine.final_append]
    generalize (call .transparent).final _ _ = s at ih ⊢
    rw [Machine.final_cons, Machine.final_nil]
    simp only [call, next] at ih ⊢
    rcases s.client.seal_cases .transparent .getConfig .none [] [] with
      ⟨hkind, -⟩ | ⟨-, hmax, -⟩ | ⟨-, hnext, -⟩
    · exact absurd rfl hkind
    · rw [hmax, show (0xFFFFFFFF : UInt32).toNat = 2 ^ 32 - 1 from rfl] at ih
      omega
    · rw [hnext, UInt32.toNat_add, UInt32.toNat_one, ih]
      exact Nat.mod_eq_of_lt (by omega)

theorem used_up_refuses (n : ℕ) (h : n + 2 = 2 ^ 32) :
    let client := ((call .transparent).final (new [] [])
      (List.replicate n (.request .getConfig .none [] []))).client
    client.next = 0xFFFFFFFF ∧
      (client.seal .transparent .getConfig .none [] []).1.result = .error .exhausted ∧
      (client.seal .transparent .hello .none [] []).1.result = .error (.notSealed .hello) := by
  intro client
  have hnat : client.next.toNat = 2 ^ 32 - 1 :=
    (next_after_failures n (by omega)).trans (by omega)
  have hnext : client.next = 0xFFFFFFFF := UInt32.toNat_inj.mp hnat
  refine ⟨hnext, ?_, ?_⟩
  · rw [client.seal_used_up hnext]
    rfl
  · rw [client.seal_used_up hnext]
    rfl

/-- A used up request counter refuses a type that never travels sealed as not sealed. -/
theorem used_up_refuses_hello :
    let client := ((call .transparent).final (new [] [])
      (List.replicate 4294967294 (.request .getConfig .none [] []))).client
    client.next = 0xFFFFFFFF ∧
      (client.seal .transparent .getConfig .none [] []).1.result = .error .exhausted ∧
      (client.seal .transparent .hello .none [] []).1.result = .error (.notSealed .hello) :=
  used_up_refuses 4294967294 (by norm_num)

end Session

end Km43.Sealed
