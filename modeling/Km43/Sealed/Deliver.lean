import Km43.Sealed.RoundTrip

namespace Km43.Sealed

open Library Cbor

namespace Window

variable {w : Window} {past : List ℕ} {n : ℕ}

theorem Holds.reaches (h : w.Holds past) (hspan : w.span ≤ 64) (hin : ∀ m ∈ past, m < n + w.span) :
    (n ∉ past → w.admits n = .ok ()) ∧ (n ∈ past → w.admits n = .error (.replayed n)) := by
  have hholds := h
  unfold Holds at h
  cases htop : w.highest with
  | none =>
    rw [htop] at h
    refine ⟨fun _ => by simp [admits, htop], fun hn => ?_⟩
    rw [h] at hn
    cases hn
  | some top =>
    rw [htop] at h
    have hage := hin top h.mem
    refine ⟨fun hn => (hholds.admits_iff hspan).mpr ?_, fun hn => ?_⟩
    · by_cases hlt : top < n
      · exact .inl fun m hm => (h.le m hm).trans_lt hlt
      · exact .inr ⟨top, h.mem, h.le, by omega, by omega, hn⟩
    · have hle := h.le n hn
      have hreach : top - n < 64 := by omega
      have hseen := (h.free (by omega) hreach).not.mpr (not_not.mpr hn)
      have hold : ¬w.span ≤ top - n := by omega
      simp only [admits, htop, if_neg (Nat.not_lt.mpr hle), SlidingBits.bit?, if_neg hold, if_pos hreach,
        if_neg hseen]

end Window

inductive Discard
  | envelope (why : EnvelopeError)
  | sealed (why : SealError)

namespace Opener

/-- A frame off the wire: its envelope decoded, its body taken out and opened into a buffer. -/
def deliver (aead : Aead) : Machine Opener (Bytes × Bytes) (Except Discard Opened) := fun rx arrival =>
  match Envelope.decode arrival.1 with
  | .error why => (rx, .error (.envelope why))
  | .ok envelope =>
    match SealedFrame.decode envelope with
    | .error why => (rx, .error (.sealed why))
    | .ok frame =>
      let (rx, opening) := frame.open aead rx arrival.2
      (rx, opening.result.mapError .sealed)

theorem deliver_decoded {aead : Aead} {rx : Opener} {bytes dst : Bytes} {envelope : Envelope} {frame : SealedFrame}
    (he : Envelope.decode bytes = .ok envelope) (hs : SealedFrame.decode envelope = .ok frame) :
    rx.deliver aead (bytes, dst) =
      ((frame.open aead rx dst).1, (frame.open aead rx dst).2.result.mapError .sealed) := by
  simp only [deliver, he, hs]

end Opener

def Aead.Sound (aead : Aead) (key : Bytes) : Prop :=
  ∀ nonce ad body out tag, aead.encrypt key nonce ad body = some (out, tag) → aead.decrypt key nonce ad out tag = some body

theorem Aead.Exact.sound {aead : Aead} {key : Bytes} (h : aead.Exact key) : aead.Sound key := by
  intro nonce ad body out tag hencrypt
  rw [h _ _ _ _ _ hencrypt, if_pos ⟨rfl, rfl⟩]

theorem Aead.transparent_sound (key : Bytes) : Aead.transparent.Sound key := by
  intro nonce ad body out tag h
  cases h
  rfl

theorem SealedFrame.open_sound {aead : Aead} {rx : Opener} {header : Header} {nonce : UInt64}
    {inner body tag dst : Bytes} (hsound : aead.Sound rx.key)
    (hencrypt : aead.encrypt rx.key (nonceBytes nonce.toNat) (ad header) inner = some (body, tag))
    (hlast : nonce ≠ lastNonce) (hadmits : rx.window.admits nonce.toNat = .ok ())
    (hdst : inner.length ≤ dst.length) :
    SealedFrame.open ⟨header, nonce, body ++ tag⟩ aead rx dst =
      ({ rx with window := rx.window.accept nonce.toNat },
        ⟨nonce, .ok ⟨header, inner⟩, inner ++ dst.drop inner.length⟩) := by
  obtain ⟨hbody, htag⟩ := aead.encrypt_length hencrypt
  have hdecrypt := hsound _ _ _ _ _ hencrypt
  have hlen : (body ++ tag).length - tagBytes = body.length := by
    rw [List.length_append, htag, Nat.add_sub_cancel]
  have hroom : ¬dst.length < body.length := by omega
  have hlong : ¬(body ++ tag).length < tagBytes := by
    rw [List.length_append, htag]
    omega
  have hopen : openInPlace aead rx.key nonce.toNat (ad header) body tag = .ok inner := by
    simp only [openInPlace, htag, ne_eq, not_true_eq_false, if_false, hdecrypt]
  simp only [SealedFrame.open, if_neg hlast, hadmits, if_neg hlong, hlen, if_neg hroom,
    List.take_left, List.drop_left, hopen]
  rw [hbody]

theorem SealedFrame.open_exact {aead : Aead} {rx : Opener} {header : Header} {nonce : UInt64}
    {inner body tag dst : Bytes} (hexact : aead.Exact rx.key)
    (hencrypt : aead.encrypt rx.key (nonceBytes nonce.toNat) (ad header) inner = some (body, tag))
    (hlast : nonce ≠ lastNonce) (hadmits : rx.window.admits nonce.toNat = .ok ())
    (hdst : inner.length ≤ dst.length) :
    SealedFrame.open ⟨header, nonce, body ++ tag⟩ aead rx dst =
      ({ rx with window := rx.window.accept nonce.toNat },
        ⟨nonce, .ok ⟨header, inner⟩, inner ++ dst.drop inner.length⟩) :=
  open_sound hexact.sound hencrypt hlast hadmits hdst

theorem SealedFrame.open_altered {aead : Aead} {rx : Opener} {header : Header} {nonce : UInt64}
    {inner body tag : Bytes} {frame : SealedFrame} (hexact : aead.Exact rx.key)
    (hencrypt : aead.encrypt rx.key (nonceBytes nonce.toNat) (ad header) inner = some (body, tag))
    (hsame : frame.ciphertext = body ++ tag) (hother : frame.header ≠ header ∨ frame.nonce ≠ nonce)
    (dst : Bytes) : ∃ why, (frame.open aead rx dst).1 = rx ∧ (frame.open aead rx dst).2.result = .error why := by
  obtain ⟨hbody, htag⟩ := aead.encrypt_length hencrypt
  have hdecrypt := hexact _ _ _ _ _ hencrypt (nonceBytes frame.nonce.toNat) (ad frame.header)
  have hfails : ¬(nonceBytes frame.nonce.toNat = nonceBytes nonce.toNat ∧ ad frame.header = ad header) := by
    rintro ⟨hn, ha⟩
    rcases hother with h | h
    · exact h (ad_inj ha)
    · exact h (UInt64.toNat_inj.mp (nonceBytes_inj frame.nonce.toNat_lt nonce.toNat_lt hn))
  rw [if_neg hfails] at hdecrypt
  have hlen : (body ++ tag).length - tagBytes = body.length := by
    rw [List.length_append, htag, Nat.add_sub_cancel]
  have hopen : openInPlace aead rx.key frame.nonce.toNat (ad frame.header) body tag = .error .decrypt := by
    simp only [openInPlace, htag, ne_eq, not_true_eq_false, if_false, hdecrypt]
  by_cases hlast : frame.nonce = lastNonce
  · simp only [SealedFrame.open, if_pos hlast, true_and]
    exact ⟨_, rfl⟩
  · cases hadmits : rx.window.admits frame.nonce.toNat with
    | error why =>
      simp only [SealedFrame.open, if_neg hlast, hadmits, true_and]
      exact ⟨_, rfl⟩
    | ok =>
      simp only [SealedFrame.open, if_neg hlast, hadmits, hsame, hlen, List.take_left, List.drop_left, hopen]
      split_ifs
      · exact ⟨_, rfl, rfl⟩
      · exact ⟨_, rfl, rfl⟩
      · exact ⟨_, rfl, rfl⟩

theorem Session.sent_genuine (aead : Aead) (side : Direction) {s : Session} {calls : List SealCall}
    (hcalls : ∀ c ∈ calls, c.dst.length < 2 ^ 64) :
    (∀ m ∈ sent aead side s calls, m.Genuine aead (s.key side) side ∧ s.next side ≤ m.nonce.toNat) ∧
      (sent aead side s calls).Pairwise fun a b => a.nonce < b.nonce := by
  induction calls generalizing s with
  | nil => exact ⟨by simp [sent], .nil⟩
  | cons c calls ih =>
    obtain ⟨hc, hcalls⟩ := List.forall_mem_cons.mp hcalls
    obtain ⟨hkey, hspends⟩ := call_spends aead s c side
    obtain ⟨hgenuine, hrising⟩ := ih (s := (call aead s c).1) hcalls
    rw [hkey] at hgenuine
    rw [sent]
    rcases call_sent aead s c side hc with hnone | ⟨m, hone, hnonce, hnext, hm⟩
    · have hle : s.next side ≤ (call aead s c).1.next side := by
        rcases hspends with ⟨h, -⟩ | ⟨h, -⟩ <;> omega
      rw [hnone, List.nil_append]
      exact ⟨fun m hm => ⟨(hgenuine m hm).1, hle.trans (hgenuine m hm).2⟩, hrising⟩
    · rw [hnext] at hgenuine
      rw [hone, List.singleton_append]
      refine ⟨List.forall_mem_cons.mpr ⟨⟨hm, hnonce.ge⟩, ?_⟩, List.pairwise_cons.mpr ⟨?_, hrising⟩⟩
      · intro n hn
        exact ⟨(hgenuine n hn).1, Nat.le_of_succ_le (hgenuine n hn).2⟩
      · intro n hn
        rw [UInt64.lt_iff_toNat_lt, hnonce]
        exact (hgenuine n hn).2

theorem Opener.deliver_genuine {aead : Aead} {rx : Opener} {side : Direction} {m : Message} {dst : Bytes}
    (hm : m.Genuine aead rx.key side) (hsound : aead.Sound rx.key) (hdst : m.inner.length ≤ dst.length) :
    (rx.window.admits m.nonce.toNat = .ok () → rx.deliver aead (m.frame, dst) =
      ({ rx with window := rx.window.accept m.nonce.toNat }, .ok ⟨m.header, m.inner⟩)) ∧
    ∀ why, rx.window.admits m.nonce.toNat = .error why →
      rx.deliver aead (m.frame, dst) = (rx, .error (.sealed why)) := by
  obtain ⟨capacity, hc, hwrote⟩ := hm.wrote
  obtain ⟨envelope, body, tag, henvelope, hsealed, hencrypt⟩ := hwrote.decodes hc hm.check hm.nonce
  rw [Opener.deliver_decoded henvelope hsealed]
  constructor
  · intro hadmits
    rw [SealedFrame.open_sound hsound hencrypt hm.last hadmits hdst]
    rfl
  · intro why hadmits
    simp only [SealedFrame.open, if_neg hm.last, hadmits]
    rfl

structure Delivery where
  message : Message
  dst : Bytes

def Delivery.arrival (d : Delivery) : Bytes × Bytes := (d.message.frame, d.dst)

/-- Deliveries in any order, of which none falls out of the window. -/
structure Reaches (side : Direction) (messages : List Message) (deliveries : List Delivery) : Prop where
  sealed : ∀ d ∈ deliveries, d.message ∈ messages
  room : ∀ d ∈ deliveries, d.message.inner.length ≤ d.dst.length
  inside : ∀ (k : ℕ) d, deliveries[k]? = some d → ∀ e ∈ deliveries.take k,
    e.message.nonce.toNat < d.message.nonce.toNat + Opener.span side

section

variable {aead : Aead} {key : Bytes} {side : Direction} {messages : List Message} {deliveries : List Delivery}

theorem Opener.deliver_holds (hsound : aead.Sound key) (hgenuine : ∀ m ∈ messages, m.Genuine aead key side)
    (h : Reaches side messages deliveries) (k : ℕ) :
    ∃ past, (∀ n, n ∈ past ↔ ∃ e ∈ deliveries.take k, e.message.nonce.toNat = n) ∧
      ((deliver aead).final (.new key side) ((deliveries.take k).map Delivery.arrival)).key = key ∧
      ((deliver aead).final (.new key side) ((deliveries.take k).map Delivery.arrival)).window.span =
        span side ∧
      ((deliver aead).final (.new key side) ((deliveries.take k).map Delivery.arrival)).window.Holds past := by
  induction k with
  | zero => cases side <;> exact ⟨[], by simp, rfl, rfl, rfl⟩
  | succ k ih =>
    obtain ⟨past, hpast, hkey, hspan, hholds⟩ := ih
    rw [List.take_add_one]
    cases hd : deliveries[k]? with
    | none =>
      rw [Option.toList_none, List.append_nil]
      exact ⟨past, hpast, hkey, hspan, hholds⟩
    | some d =>
      have hmem := List.mem_of_getElem? hd
      rw [Option.toList_some, List.map_append, Machine.final_append, List.map_singleton, Machine.final_cons,
        Machine.final_nil]
      generalize (deliver aead).final (.new key side) ((deliveries.take k).map Delivery.arrival) = rx at *
      subst hkey
      have hlimit : rx.window.span ≤ 64 := hspan.trans_le (by cases side <;> decide)
      have hin : ∀ n ∈ past, n < d.message.nonce.toNat + rx.window.span := by
        intro n hn
        obtain ⟨e, he, rfl⟩ := (hpast n).mp hn
        rw [hspan]
        exact h.inside k d hd e he
      obtain ⟨hfresh, hreplayed⟩ := hholds.reaches hlimit hin
      obtain ⟨hopens, hrefuses⟩ := deliver_genuine (hgenuine _ (h.sealed d hmem)) hsound (h.room d hmem)
      by_cases hn : d.message.nonce.toNat ∈ past
      · rw [Delivery.arrival, hrefuses _ (hreplayed hn)]
        refine ⟨past, fun n => ?_, rfl, hspan, hholds⟩
        rw [hpast]
        obtain ⟨e, he, hsame⟩ := (hpast _).mp hn
        constructor
        · rintro ⟨e, he, rfl⟩
          exact ⟨e, List.mem_append_left _ he, rfl⟩
        · rintro ⟨f, hf, rfl⟩
          rcases List.mem_append.mp hf with hf | hf
          · exact ⟨f, hf, rfl⟩
          · rw [List.mem_singleton.mp hf]
            exact ⟨e, he, hsame⟩
      · rw [Delivery.arrival, hopens (hfresh hn)]
        refine ⟨past ++ [d.message.nonce.toNat], fun n => ?_, rfl, by simpa using hspan,
          hholds.accept hlimit (hfresh hn)⟩
        rw [List.mem_append, List.mem_singleton, hpast]
        constructor
        · rintro (⟨e, he, rfl⟩ | rfl)
          · exact ⟨e, List.mem_append_left _ he, rfl⟩
          · exact ⟨d, List.mem_append_right _ (List.mem_singleton_self d), rfl⟩
        · rintro ⟨e, he, rfl⟩
          rcases List.mem_append.mp he with he | he
          · exact .inl ⟨e, he, rfl⟩
          · rw [List.mem_singleton.mp he]
            exact .inr rfl

theorem Opener.deliver_sound (hsound : aead.Sound key) (hgenuine : ∀ m ∈ messages, m.Genuine aead key side)
    (h : Reaches side messages deliveries) {k : ℕ} {d : Delivery} (hd : deliveries[k]? = some d) :
    ((∀ e ∈ deliveries.take k, e.message.nonce ≠ d.message.nonce) →
      ((deliver aead).outputs (.new key side) (deliveries.map Delivery.arrival))[k]? =
        some (.ok ⟨d.message.header, d.message.inner⟩)) ∧
    ((∃ e ∈ deliveries.take k, e.message.nonce = d.message.nonce) →
      ((deliver aead).outputs (.new key side) (deliveries.map Delivery.arrival))[k]? =
        some (.error (.sealed (.replayed d.message.nonce.toNat)))) := by
  obtain ⟨past, hpast, hkey, hspan, hholds⟩ := deliver_holds hsound hgenuine h k
  have hmem := List.mem_of_getElem? hd
  rw [Machine.outputs_getElem?, List.getElem?_map, hd, ← List.map_take]
  simp only [Option.map_some, Option.some.injEq]
  generalize (deliver aead).final (.new key side) ((deliveries.take k).map Delivery.arrival) = rx at *
  subst hkey
  have hlimit : rx.window.span ≤ 64 := hspan.trans_le (by cases side <;> decide)
  have hin : ∀ n ∈ past, n < d.message.nonce.toNat + rx.window.span := by
    intro n hn
    obtain ⟨e, he, rfl⟩ := (hpast n).mp hn
    rw [hspan]
    exact h.inside k d hd e he
  obtain ⟨hfresh, hreplayed⟩ := hholds.reaches hlimit hin
  obtain ⟨hopens, hrefuses⟩ := deliver_genuine (hgenuine _ (h.sealed d hmem)) hsound (h.room d hmem)
  constructor
  · intro hnew
    have hn : d.message.nonce.toNat ∉ past := by
      intro hn
      obtain ⟨e, he, hsame⟩ := (hpast _).mp hn
      exact hnew e he (UInt64.toNat_inj.mp hsame)
    rw [Delivery.arrival, hopens (hfresh hn)]
  · rintro ⟨e, he, hsame⟩
    have hn : d.message.nonce.toNat ∈ past := (hpast _).mpr ⟨e, he, congrArg UInt64.toNat hsame⟩
    rw [Delivery.arrival, hrefuses _ (hreplayed hn)]

theorem Opener.deliver_outcome (hexact : aead.Exact key) (hgenuine : ∀ m ∈ messages, m.Genuine aead key side)
    (h : Reaches side messages deliveries) {k : ℕ} {d : Delivery} (hd : deliveries[k]? = some d) :
    ((∀ e ∈ deliveries.take k, e.message.nonce ≠ d.message.nonce) →
      ((deliver aead).outputs (.new key side) (deliveries.map Delivery.arrival))[k]? =
        some (.ok ⟨d.message.header, d.message.inner⟩)) ∧
    ((∃ e ∈ deliveries.take k, e.message.nonce = d.message.nonce) →
      ((deliver aead).outputs (.new key side) (deliveries.map Delivery.arrival))[k]? =
        some (.error (.sealed (.replayed d.message.nonce.toNat)))) :=
  deliver_sound hexact.sound hgenuine h hd

end

def Opens (outcomes : List (Except Discard Opened)) (deliveries : List Delivery) (m : Message) (k : ℕ) : Prop :=
  (∃ d, deliveries[k]? = some d ∧ d.message = m) ∧ outcomes[k]? = some (.ok ⟨m.header, m.inner⟩)

theorem Session.sent_inj {messages : List Message} {a b : Message} (h : messages.Pairwise fun a b => a.nonce < b.nonce)
    (ha : a ∈ messages) (hb : b ∈ messages) (hnonce : a.nonce = b.nonce) : a = b := by
  have hnodup : (messages.map Message.nonce).Nodup := by
    rw [List.Nodup, List.pairwise_map]
    exact h.imp fun hlt => UInt64.ne_of_lt hlt
  exact List.inj_on_of_nodup_map hnodup ha hb hnonce

/-- What a side seals is decoded and opened to what was sealed, each message once in whatever order it
arrives; under another header or nonce its ciphertext does not open. -/
theorem sealed_round_trip (aead : Aead) (requests answers : Bytes) (calls : List SealCall) (side : Direction)
    (hexact : aead.Exact ((Session.new requests answers).key side))
    (hcalls : ∀ c ∈ calls, c.dst.length < 2 ^ 64) :
    (∀ m ∈ Session.sent aead side (.new requests answers) calls, ∃ envelope frame,
      Envelope.decode m.frame = .ok envelope ∧ SealedFrame.decode envelope = .ok frame ∧ frame.header = m.header ∧
      (∀ rx dst, rx.key = (Session.new requests answers).key side → m.inner.length ≤ dst.length →
        rx.window.admits m.nonce.toNat = .ok () →
        (frame.open aead rx dst).2.result = .ok ⟨m.header, m.inner⟩) ∧
      ∀ (forged : SealedFrame) rx dst, rx.key = (Session.new requests answers).key side →
        forged.ciphertext = frame.ciphertext → forged.header ≠ frame.header ∨ forged.nonce ≠ frame.nonce →
        ∃ why, (forged.open aead rx dst).1 = rx ∧ (forged.open aead rx dst).2.result = .error why) ∧
    (∀ deliveries, Reaches side (Session.sent aead side (.new requests answers) calls) deliveries →
      ∀ m ∈ deliveries.map Delivery.message, ∃! k, Opens ((Opener.deliver aead).outputs
        (.new ((Session.new requests answers).key side) side) (deliveries.map Delivery.arrival)) deliveries m k) ∧
    ∀ a b : Header, ad a = ad b → a = b := by
  obtain ⟨hall, hrising⟩ := Session.sent_genuine aead side (s := .new requests answers) hcalls
  have hgenuine := fun m hm => (hall m hm).1
  refine ⟨?_, ?_, fun a b => ad_inj⟩
  · intro m hm
    obtain ⟨capacity, hc, hwrote⟩ := (hgenuine m hm).wrote
    obtain ⟨envelope, body, tag, henvelope, hsealed, hencrypt⟩ :=
      hwrote.decodes hc (hgenuine m hm).check (hgenuine m hm).nonce
    refine ⟨envelope, _, henvelope, hsealed, rfl, ?_, ?_⟩
    · intro rx dst hkey hdst hadmits
      rw [← hkey] at hexact hencrypt
      rw [SealedFrame.open_exact hexact hencrypt (hgenuine m hm).last hadmits hdst]
    · intro forged rx dst hkey hsame hother
      rw [← hkey] at hexact hencrypt
      exact SealedFrame.open_altered hexact hencrypt hsame hother dst
  · intro deliveries hreaches m hm
    have hfirst : ∃ (k : ℕ) (d : Delivery), deliveries[k]? = some d ∧ d.message = m := by
      obtain ⟨d, hd, hdm⟩ := List.mem_map.mp hm
      obtain ⟨k, hk⟩ := List.mem_iff_getElem?.mp hd
      exact ⟨k, d, hk, hdm⟩
    classical
    obtain ⟨d, hd, rfl⟩ := Nat.find_spec hfirst
    have hsealed := hreaches.sealed d (List.mem_of_getElem? hd)
    have hnew : ∀ e ∈ deliveries.take (Nat.find hfirst), e.message.nonce ≠ d.message.nonce := by
      intro e he hsame
      obtain ⟨j, hj⟩ := List.mem_iff_getElem?.mp he
      have hlt : j < Nat.find hfirst := by
        by_contra hge
        rw [List.getElem?_take_eq_none (not_lt.mp hge)] at hj
        cases hj
      rw [List.getElem?_take_of_lt hlt] at hj
      have hmem := hreaches.sealed e (List.mem_of_getElem? hj)
      exact Nat.find_min hfirst hlt ⟨e, hj, Session.sent_inj hrising hmem hsealed hsame⟩
    refine ⟨Nat.find hfirst, ⟨⟨d, hd, rfl⟩, (Opener.deliver_outcome hexact hgenuine hreaches hd).1 hnew⟩, ?_⟩
    rintro k ⟨⟨e, he, hem⟩, hopened⟩
    by_contra hne
    have hlt : Nat.find hfirst < k := lt_of_le_of_ne (Nat.find_min' hfirst ⟨e, he, hem⟩) (Ne.symm hne)
    have hearlier : d ∈ deliveries.take k := by
      apply List.mem_of_getElem?
      rw [List.getElem?_take_of_lt hlt]
      exact hd
    have hreplay := (Opener.deliver_outcome hexact hgenuine hreaches he).2 ⟨d, hearlier, by rw [hem]⟩
    rw [hopened] at hreplay
    cases hreplay

def Aead.stamped : Aead where
  encrypt _ nonce ad body :=
    if nonce.length = 12 ∧ nonce.take 4 = [0, 0, 0, 0] ∧ ad.length = 7 then
      some (body, nonce.drop 4 ++ ad ++ [0])
    else none
  decrypt _ nonce ad body tag :=
    if nonce.length = 12 ∧ nonce.take 4 = [0, 0, 0, 0] ∧ ad.length = 7 ∧ tag = nonce.drop 4 ++ ad ++ [0] then
      some body
    else none
  encrypt_length := by
    intro key nonce ad body out tag h
    split_ifs at h with hshape
    cases h
    refine ⟨rfl, ?_⟩
    simp only [List.length_append, List.length_drop, hshape.1, hshape.2.2]
    rfl
  decrypt_length := by
    intro key nonce ad body tag out h
    split_ifs at h
    cases h
    rfl

theorem Aead.stamped_exact (key : Bytes) : Aead.stamped.Exact key := by
  intro nonce ad body out tag h nonce' ad'
  simp only [stamped] at h ⊢
  split_ifs at h with hshape
  cases h
  by_cases hsame : nonce' = nonce ∧ ad' = ad
  · rw [if_pos hsame, hsame.1, hsame.2, if_pos ⟨hshape.1, hshape.2.1, hshape.2.2, rfl⟩]
  · rw [if_neg hsame, if_neg]
    rintro ⟨hlen, hzeros, had, htag⟩
    obtain ⟨htag, -⟩ := List.append_inj' htag rfl
    obtain ⟨hdrop, hads⟩ := List.append_inj' htag (by rw [hshape.2.2, had])
    apply hsame
    refine ⟨?_, hads.symm⟩
    rw [← List.take_append_drop 4 nonce', ← List.take_append_drop 4 nonce, hzeros, hshape.2.1, hdrop]

def asked : List SealCall :=
  [.request .getConfig (.assigned 5 (by decide)) [0xA0] (List.replicate 64 0),
    .request .time (.assigned 5 (by decide)) [0xA1, 1, 2] (List.replicate 64 0)]

def crossed : List Delivery :=
  ((Session.sent .stamped .request (.new [] [0]) (asked ++ asked)).reverse.map fun m => ⟨m, List.replicate 8 0⟩) ++
    (Session.sent .stamped .request (.new [] [0]) (asked ++ asked)).map fun m => ⟨m, List.replicate 8 0⟩

theorem crossed_reaches :
    Reaches .request (Session.sent .stamped .request (.new [] [0]) (asked ++ asked)) crossed := by
  have hsmall : ∀ d ∈ crossed, d.message.inner.length ≤ 8 ∧ d.dst.length = 8 ∧ 1 ≤ d.message.nonce.toNat ∧
      d.message.nonce.toNat ≤ 4 := by
    decide
  refine ⟨?_, ?_, ?_⟩
  · intro d hd
    simp only [crossed, List.mem_append, List.mem_map, List.mem_reverse] at hd
    rcases hd with ⟨m, hm, rfl⟩ | ⟨m, hm, rfl⟩
    · exact hm
    · exact hm
  · intro d hd
    rw [(hsmall d hd).2.1]
    exact (hsmall d hd).1
  · intro k d hd e he
    have hlow := (hsmall d (List.mem_of_getElem? hd)).2.2.1
    have hhigh := (hsmall e (List.mem_of_mem_take he)).2.2.2
    show e.message.nonce.toNat < d.message.nonce.toNat + 5
    omega

theorem sealed_round_trip_crossed : ∃ m, (crossed.map Delivery.message)[3]? = some m ∧ ∃! k,
    Opens ((Opener.deliver .stamped).outputs (.new [] .request) (crossed.map Delivery.arrival)) crossed m k := by
  have hlong : 3 < (crossed.map Delivery.message).length := by decide
  refine ⟨_, List.getElem?_eq_getElem hlong, ?_⟩
  exact (sealed_round_trip .stamped [] [0] (asked ++ asked) .request (Aead.stamped_exact _) (by decide)).2.1
    crossed crossed_reaches _ (List.getElem_mem hlong)

end Km43.Sealed
