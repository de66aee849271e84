import Km43.Cbor.Token

namespace Km43.Cbor

open Library Library.StepParser

def Refuses {ε α : Type} (x : Except ε α) : Prop := ∃ e, x = .error e

namespace CborReader

def rest (r : CborReader) : Bytes := r.bytes.drop r.next

def advance (r : CborReader) (k : ℕ) : CborReader := { r with next := r.next + k }

@[simp] theorem advance_bytes (r : CborReader) (k : ℕ) : (r.advance k).bytes = r.bytes := rfl
@[simp] theorem advance_next (r : CborReader) (k : ℕ) : (r.advance k).next = r.next + k := rfl
@[simp] theorem advance_nest (r : CborReader) (k : ℕ) : (r.advance k).nest = r.nest := rfl

theorem advance_advance (r : CborReader) (j k : ℕ) :
    (r.advance j).advance k = r.advance (j + k) := by simp [advance, Nat.add_assoc]

theorem advance_rest (r : CborReader) (k : ℕ) : (r.advance k).rest = r.rest.drop k := by
  simp [rest, advance, List.drop_drop]

def Within (r : CborReader) : Prop := r.next ≤ r.bytes.length

theorem Within.rest_length {r : CborReader} (_ : r.Within) :
    r.rest.length = r.bytes.length - r.next := by simp [rest]

theorem Within.advance {r : CborReader} (h : r.Within) {k : ℕ} (hk : k ≤ r.rest.length) :
    (r.advance k).Within := by
  rw [h.rest_length] at hk
  simp only [Within, CborReader.advance] at *
  omega

theorem take_eq {r : CborReader} (h : r.Within) (len : ℕ) :
    r.take len = match takeBytes len r.rest with
      | some (raw, _) => .ok (raw, r.advance len)
      | none => .error .endOfInput := by
  have hl := h.rest_length
  simp only [take, slice, takeBytes, advance, Within] at *
  by_cases hlen : r.next + len ≤ r.bytes.length
  · simp only [if_pos (show r.next ≤ r.next + len ∧ r.next + len ≤ r.bytes.length by omega),
      Nat.add_sub_cancel_left]
    rw [if_pos (show len ≤ r.rest.length by omega)]
    rfl
  · simp only [if_neg (show ¬(r.next ≤ r.next + len ∧ r.next + len ≤ r.bytes.length) by omega),
      if_neg (show ¬len ≤ r.rest.length by omega)]

theorem argument_eq {r : CborReader} (h : r.Within) (info : ℕ) :
    match argumentStep info r.rest with
    | some ((w, n), tail) =>
      r.argument info = .ok (n, r.advance w.bytes) ∧ (r.advance w.bytes).rest = tail
    | none => Refuses (r.argument info) := by
  unfold argument argumentStep
  cases Width.ofInfo info with
  | error e => exact ⟨e, rfl⟩
  | ok w =>
    cases w with
    | inline => exact ⟨rfl, rfl⟩
    | one | two | four | eight =>
      simp only [take_eq h]
      cases ht : takeBytes _ r.rest with
      | none => exact ⟨_, rfl⟩
      | some p =>
        obtain ⟨hl, hr⟩ := (takeBytes_exact _ _ _ _).mp ht
        simp only [id] at hr
        simp only [Option.map_some]
        exact ⟨trivial, by rw [advance_rest, hr, ← hl, List.drop_left]⟩

theorem argument_some {r : CborReader} (h : r.Within) {info : ℕ} {w : Width} {n : ℕ} {tail : Bytes}
    (ha : argumentStep info r.rest = some ((w, n), tail)) :
    r.argument info = .ok (n, r.advance w.bytes) ∧ (r.advance w.bytes).rest = tail := by
  simpa only [ha] using argument_eq h info

theorem argument_none {r : CborReader} (h : r.Within) {info : ℕ}
    (ha : argumentStep info r.rest = none) : Refuses (r.argument info) := by
  simpa only [ha] using argument_eq h info

theorem count_some {r : CborReader} (h : r.Within) {info per : ℕ} {w : Width} {n : ℕ} {tail : Bytes}
    (ha : argumentStep info r.rest = some ((w, n), tail)) :
    r.count info per = if tail.length < n * per then .error .endOfInput
      else .ok (n, r.advance w.bytes) := by
  obtain ⟨he, hr⟩ := argument_some h ha
  have hl : r.bytes.length - (r.next + w.bytes) = tail.length := by simp [← hr, rest]
  simp [count, length, he, hl, bind, Except.bind]

theorem count_none {r : CborReader} (h : r.Within) {info : ℕ} (per : ℕ)
    (ha : argumentStep info r.rest = none) : Refuses (r.count info per) := by
  obtain ⟨e, he⟩ := argument_none h ha
  exact ⟨e, by simp [count, length, he, bind, Except.bind]⟩

/-- Decoding a head is reading a token, less the tokens whose count cannot fit. -/
def Decodes (r : CborReader) (x : Except CborError (Head × CborReader)) :
    Option (Token × Bytes) → Prop
  | some (t, tail) =>
    if tail.length < t.room then Refuses x
    else x = .ok (t.head, r.advance (t.spelling.length - 1))
  | none => Refuses x

theorem decodeAs_argument {r : CborReader} (h : r.Within) (info : ℕ) (f : ℕ → Head)
    (g : Width → ℕ → Token) (hf : ∀ w n, (g w n).head = f n)
    (hr : ∀ w n, (g w n).room = 0) (hl : ∀ w n, (g w n).spelling.length - 1 = w.bytes) :
    r.Decodes (do let (n, r) ← r.argument info; .ok (f n, r))
      ((argumentStep info r.rest).map fun p => (g p.1.1 p.1.2, p.2)) := by
  cases ha : argumentStep info r.rest with
  | none =>
    obtain ⟨e, he⟩ := argument_none h ha
    exact ⟨e, by rw [he]; rfl⟩
  | some p =>
    obtain ⟨⟨w, n⟩, tail⟩ := p
    rw [(argument_some h ha).1]
    simp [Decodes, hr, hf, hl, bind, Except.bind]

theorem decodeAs_count {r : CborReader} (h : r.Within) (info per : ℕ) (f : ℕ → Head)
    (g : Width → ℕ → Token) (hf : ∀ w n, (g w n).head = f n)
    (hr : ∀ w n, (g w n).room = n * per) (hl : ∀ w n, (g w n).spelling.length - 1 = w.bytes) :
    r.Decodes (do let (n, r) ← r.count info per; .ok (f n, r))
      ((argumentStep info r.rest).map fun p => (g p.1.1 p.1.2, p.2)) := by
  cases ha : argumentStep info r.rest with
  | none =>
    obtain ⟨e, he⟩ := count_none h per ha
    exact ⟨e, by rw [he]; rfl⟩
  | some p =>
    obtain ⟨⟨w, n⟩, tail⟩ := p
    rw [count_some h ha]
    simp only [Decodes, Option.map_some, hr, hf, hl]
    split_ifs with hroom
    · exact ⟨_, rfl⟩
    · rfl

theorem take_string {r : CborReader} (h : r.Within) {info : ℕ} {w : Width} {n : ℕ} {tail : Bytes}
    (ha : argumentStep info r.rest = some ((w, n), tail)) :
    (r.advance w.bytes).take n = match takeBytes n tail with
      | some (raw, _) => .ok (raw, r.advance (w.bytes + n))
      | none => .error .endOfInput := by
  have hr := (argument_some h ha).2
  obtain ⟨-, -, hb⟩ := (argumentStep_iff _ _ _ _ _).mp ha
  have hw : (r.advance w.bytes).Within := h.advance (by simp [hb])
  rw [take_eq hw, hr, advance_advance]

theorem decodeAs_eq {r : CborReader} (h : r.Within) (info : ℕ) (m : Major) :
    r.Decodes (r.decodeAs info m) (tokenAs info m r.rest) := by
  have hl : ∀ m w n, (headBytes m w n).length - 1 = w.bytes := by simp
  have hs : ∀ (w : Width) (k : ℕ), w.bytes + 1 + k - 1 = w.bytes + k := by omega
  cases m with
  | unsigned | negative =>
    exact decodeAs_argument h info _ _ (fun _ _ => rfl) (fun _ _ => rfl) fun _ _ => hl _ _ _
  | array =>
    exact decodeAs_count h info 1 _ _ (fun _ _ => rfl) (fun _ _ => (mul_one _).symm)
      fun _ _ => hl _ _ _
  | map => exact decodeAs_count h info 2 _ _ (fun _ _ => rfl) (fun _ _ => rfl) fun _ _ => hl _ _ _
  | bytes =>
    cases ha : argumentStep info r.rest with
    | none =>
      obtain ⟨e, he⟩ := argument_none h ha
      simp only [tokenAs, ha]
      exact ⟨e, by simp [decodeAs, length, he, bind, Except.bind]⟩
    | some p =>
      obtain ⟨⟨w, n⟩, tail⟩ := p
      simp only [decodeAs, length, (argument_some h ha).1, take_string h ha, bind, Except.bind,
        tokenAs, ha, Option.bind_some]
      cases ht : takeBytes n tail with
      | none => exact ⟨_, rfl⟩
      | some q =>
        obtain ⟨rfl, -⟩ := (takeBytes_exact _ _ _ _).mp ht
        simp [Decodes, Token.room, Token.head, Token.spelling, hs]
  | text =>
    cases ha : argumentStep info r.rest with
    | none =>
      obtain ⟨e, he⟩ := argument_none h ha
      simp only [tokenAs, ha]
      exact ⟨e, by simp [decodeAs, length, he, bind, Except.bind]⟩
    | some p =>
      obtain ⟨⟨w, n⟩, tail⟩ := p
      simp only [decodeAs, length, (argument_some h ha).1, take_string h ha, bind, Except.bind,
        tokenAs, ha, Option.bind_some]
      split_ifs with hlong
      · exact ⟨_, rfl⟩
      · cases ht : takeBytes n tail with
        | none => exact ⟨_, rfl⟩
        | some q =>
          obtain ⟨rfl, -⟩ := (takeBytes_exact _ _ _ _).mp ht
          simp only [Option.bind_some]
          split_ifs
          · simp [Decodes, Token.room, Token.head, Token.spelling, hs]
          · exact ⟨_, rfl⟩
  | tag => exact ⟨_, rfl⟩
  | simple =>
    simp only [decodeAs, tokenAs, simple]
    split_ifs <;> first | exact ⟨_, rfl⟩ | rfl

theorem decode_eq {r : CborReader} (h : r.Within) (first : UInt8) :
    r.Decodes (r.decode first) (tokenStep (first :: r.rest)) :=
  decodeAs_eq h _ _

def land (search : Search) (r : CborReader) (t : Token) : Except CborError (Head × CborReader) := do
  let moved ← (r.advance t.spelling.length).accountKey search r.nest.atKey r.next t.head
  let moved ← { moved with nest := moved.nest.countItem }.enter t.head
  .ok (t.head, moved)

def Lands (search : Search) (r : CborReader) (x : Except CborError (Head × CborReader)) :
    Option (Token × Bytes) → Prop
  | some (t, tail) => if tail.length < t.room then Refuses x else x = r.land search t
  | none => Refuses x

theorem refuses_bind {ε α β : Type} {x : Except ε α} (h : Refuses x) (f : α → Except ε β) :
    Refuses (x >>= f) := by
  obtain ⟨e, rfl⟩ := h
  exact ⟨e, rfl⟩

theorem beforeHead_same {search : Search} {r r₁ : CborReader} (h : r.beforeHead search = .ok r₁) :
    r₁.bytes = r.bytes ∧ r₁.next = r.next := by
  unfold beforeHead settleSkippedBy at h
  split at h
  · cases h; exact ⟨rfl, rfl⟩
  · split at h
    · split at h <;> cases h
      exact ⟨rfl, rfl⟩
    · cases h; exact ⟨rfl, rfl⟩

theorem headBy_eq {search : Search} {r r₁ : CborReader} (h : r.Within)
    (hs : r.beforeHead search = .ok r₁) :
    r₁.settled.Lands search (r.headBy search) (tokenStep r.rest) := by
  obtain ⟨hb, hn⟩ := beforeHead_same hs
  have hget : r₁.settled.bytes[r₁.settled.next]? = r.rest.head? := by simp [settled, rest, hb, hn]
  cases hrest : r.rest with
  | nil => exact ⟨.endOfInput, by simp [headBy, hs, peek, hget, hrest, bind, Except.bind]⟩
  | cons first bs =>
    have hlen : r.rest.length = bs.length + 1 := by simp [hrest]
    have hmoved : (r₁.settled.advance 1).rest = bs := by
      rw [advance_rest]
      simp only [settled, rest, hb, hn]
      rw [show r.bytes.drop r.next = first :: bs from hrest, List.drop_one, List.tail_cons]
    have hwithin : (r₁.settled.advance 1).Within := by
      rw [h.rest_length] at hlen
      simp only [Within, settled, advance, hb, hn] at *
      omega
    have hd := decode_eq hwithin first
    rw [hmoved] at hd
    have hcore : r.headBy search = (do
        let read ← (r₁.settled.advance 1).decode first
        let moved ← read.2.accountKey search r₁.settled.nest.atKey r₁.settled.next read.1
        let moved ← { moved with nest := moved.nest.countItem }.enter read.1
        .ok (read.1, moved)) := by
      simp only [headBy, hs, peek, hget, hrest, List.head?_cons, bind, Except.bind]
      rfl
    rw [hcore]
    cases ht : tokenStep (first :: bs) with
    | none =>
      rw [ht] at hd
      exact refuses_bind hd _
    | some p =>
      obtain ⟨t, tail⟩ := p
      rw [ht] at hd
      simp only [Decodes] at hd
      simp only [Lands]
      split_ifs at hd ⊢ with hroom
      · exact refuses_bind hd _
      · have hpos : 1 + (t.spelling.length - 1) = t.spelling.length := by
          have := t.spelling_pos
          omega
        rw [hd, advance_advance, hpos]
        rfl

theorem headBy_refused {search : Search} {r : CborReader} (hs : Refuses (r.beforeHead search)) :
    Refuses (r.headBy search) := refuses_bind hs _

theorem noteKey_same {search : Search} {r r' : CborReader} {key : KeyRank} {pos : ℕ}
    (h : r.noteKey search key pos = .ok r') : r'.bytes = r.bytes ∧ r'.next = r.next := by
  unfold noteKey at h
  cases hk : r.nest.readKey key pos with
  | error e => simp [hk, bind, Except.bind] at h
  | ok p =>
    obtain ⟨u, nest⟩ := p
    simp only [hk, bind, Except.bind] at h
    split at h
    · split at h <;> cases h
      exact ⟨rfl, rfl⟩
    · cases h; exact ⟨rfl, rfl⟩
    · cases h; exact ⟨rfl, rfl⟩

theorem accountKey_same {search : Search} {r r' : CborReader} {atKey : Bool} {pos : ℕ} {head : Head}
    (h : r.accountKey search atKey pos head = .ok r') : r'.bytes = r.bytes ∧ r'.next = r.next := by
  unfold accountKey at h
  split at h
  · split at h
    · split at h
      · exact noteKey_same h
      · cases h; exact ⟨rfl, rfl⟩
    · cases h
  · split at h <;> cases h <;> exact ⟨rfl, rfl⟩

theorem enter_same {r r' : CborReader} {head : Head} (h : r.enter head = .ok r') :
    r'.bytes = r.bytes ∧ r'.next = r.next := by
  unfold enter Nest.push at h
  split at h
  · split_ifs at h <;> cases h
    exact ⟨rfl, rfl⟩
  · split_ifs at h <;> cases h
    exact ⟨rfl, rfl⟩
  all_goals cases h; exact ⟨rfl, rfl⟩

theorem land_same {search : Search} {r r' : CborReader} {t : Token} {head : Head}
    (h : r.land search t = .ok (head, r')) :
    head = t.head ∧ r'.bytes = r.bytes ∧ r'.next = r.next + t.spelling.length := by
  unfold land at h
  cases ha : (r.advance t.spelling.length).accountKey search r.nest.atKey r.next t.head with
  | error e => simp [ha, bind, Except.bind] at h
  | ok m =>
    cases he : { m with nest := m.nest.countItem }.enter t.head with
    | error e => simp [ha, he, bind, Except.bind] at h
    | ok m' =>
      simp only [ha, he, bind, Except.bind, Except.ok.injEq, Prod.mk.injEq] at h
      obtain ⟨rfl, rfl⟩ := h
      obtain ⟨hb, hn⟩ := accountKey_same ha
      obtain ⟨hb', hn'⟩ := enter_same he
      exact ⟨rfl, hb'.trans hb, hn'.trans hn⟩

theorem headBy_advances {search : Search} {r r' : CborReader} {head : Head}
    (h : r.headBy search = .ok (head, r')) :
    r'.bytes = r.bytes ∧ r.next < r'.next ∧ r'.next ≤ r.bytes.length := by
  cases hs : r.beforeHead search with
  | error e =>
    obtain ⟨e, he⟩ := headBy_refused ⟨e, hs⟩
    rw [he] at h
    cases h
  | ok r₁ =>
    obtain ⟨hb, hn⟩ := beforeHead_same hs
    by_cases hw : r.Within
    · have hl := headBy_eq hw hs
      cases ht : tokenStep r.rest with
      | none =>
        rw [ht, h] at hl
        obtain ⟨e, he⟩ := hl
        cases he
      | some p =>
        obtain ⟨t, tail⟩ := p
        rw [ht, h] at hl
        simp only [Lands] at hl
        split_ifs at hl
        · obtain ⟨e, he⟩ := hl
          cases he
        · obtain ⟨-, hb', hn'⟩ := land_same hl.symm
          have hlen := congrArg List.length (tokenStep_sound _ _ _ ht).2
          have hpos := t.spelling_pos
          rw [hw.rest_length, List.length_append] at hlen
          simp only [settled, hb, hn] at hb' hn'
          exact ⟨hb', by omega, by omega⟩
    · have hget : r₁.settled.bytes[r₁.settled.next]? = none := by
        simp only [Within, not_le] at hw
        simp only [settled, hb, hn]
        exact List.getElem?_eq_none hw.le
      simp [headBy, hs, peek, hget, bind, Except.bind] at h

end CborReader

end Km43.Cbor
