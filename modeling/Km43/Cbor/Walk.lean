import Km43.Cbor.ReaderHead

namespace Km43.Cbor

open Library

namespace CborReader

def walkLoop (search : Search) (floor : ℕ) (r : CborReader) : Except CborError CborReader :=
  if r.settled.nest.depth ≤ floor then .ok r.settled
  else
    match h : r.settled.headBy search with
    | .error e => .error e
    | .ok (_, r') => walkLoop search floor r'
termination_by r.bytes.length - r.next
decreasing_by
  have ha := headBy_advances h
  simp only [settled] at ha
  rw [ha.1]
  omega

def walkBy (search : Search) (r : CborReader) : Except CborError CborReader := do
  let r := r.settled
  let (_, r') ← r.headBy search
  walkLoop search r.nest.depth r'

def skipBy (search : Search) (r : CborReader) : Except CborError CborReader := do
  let r ← r.settleSkippedBy search
  let r := { r with skipped := r.unsettled, unsettled := none }
  let was := r.walking
  let r ← { r with walking := true }.walkBy search
  .ok { r with walking := was }

theorem walkLoop_done {search : Search} {floor : ℕ} {r : CborReader}
    (h : r.settled.nest.depth ≤ floor) : r.walkLoop search floor = .ok r.settled := by
  rw [walkLoop, if_pos h]

theorem walkLoop_step {search : Search} {floor : ℕ} {r : CborReader}
    (h : floor < r.settled.nest.depth) :
    r.walkLoop search floor = (do
      let (_, r') ← r.settled.headBy search
      r'.walkLoop search floor) := by
  rw [walkLoop, if_neg (Nat.not_le.mpr h)]
  split <;> rename_i he <;> rw [he] <;> rfl

theorem walkLoop_advances {search : Search} {floor : ℕ} {r r' : CborReader}
    (h : r.walkLoop search floor = .ok r') (hw : r.Within) :
    r'.bytes = r.bytes ∧ r.next ≤ r'.next ∧ r'.Within := by
  induction hk : r.bytes.length - r.next using Nat.strong_induction_on generalizing r with
  | _ k ih =>
    by_cases hd : r.settled.nest.depth ≤ floor
    · rw [walkLoop_done hd] at h
      cases h
      exact ⟨rfl, le_rfl, hw⟩
    · rw [walkLoop_step (Nat.not_le.mp hd)] at h
      cases he : r.settled.headBy search with
      | error e => simp [he, bind, Except.bind] at h
      | ok p =>
        obtain ⟨head, r₁⟩ := p
        simp only [he, bind, Except.bind] at h
        obtain ⟨hb, hn, hl⟩ := headBy_advances he
        simp only [settled] at hb hn hl
        obtain ⟨hb', hn', hw'⟩ := ih _ (by rw [hb]; omega) h (by rw [Within, hb]; exact hl) rfl
        exact ⟨hb'.trans hb, by omega, hw'⟩

theorem walkBy_advances {search : Search} {r r' : CborReader} (h : r.walkBy search = .ok r') :
    r'.bytes = r.bytes ∧ r.next < r'.next ∧ r'.Within := by
  unfold walkBy at h
  cases he : r.settled.headBy search with
  | error e => simp [he, bind, Except.bind] at h
  | ok p =>
    obtain ⟨head, r₁⟩ := p
    simp only [he, bind, Except.bind] at h
    obtain ⟨hb, hn, hl⟩ := headBy_advances he
    simp only [settled] at hb hn hl
    obtain ⟨hb', hn', hw'⟩ := walkLoop_advances h (by rw [Within, hb]; exact hl)
    exact ⟨hb'.trans hb, by omega, hw'⟩

theorem settleSkippedBy_same {search : Search} {r r₁ : CborReader}
    (h : r.settleSkippedBy search = .ok r₁) : r₁ = { r with skipped := none } := by
  unfold settleSkippedBy at h
  split at h
  · split at h <;> cases h
    rfl
  · rename_i hs
    cases h
    rw [← hs]

theorem skipBy_advances {search : Search} {r r' : CborReader} (h : r.skipBy search = .ok r') :
    r'.bytes = r.bytes ∧ r.next < r'.next ∧ r'.Within := by
  unfold skipBy at h
  cases hs : r.settleSkippedBy search with
  | error e => simp [hs, bind, Except.bind] at h
  | ok r₁ =>
    obtain rfl := settleSkippedBy_same hs
    simp only [hs, bind, Except.bind] at h
    split at h
    · cases h
    · rename_i r₂ hw
      cases h
      obtain ⟨hb, hn, hl⟩ := walkBy_advances hw
      exact ⟨hb, hn, hl⟩

def unsearched : Search := fun _ _ => .ok ()

def searchLoop (key : KeyRank) (pairs : CborReader) : Except CborError Unit :=
  if pairs.next < pairs.bytes.length then
    match hh : pairs.headBy unsearched with
    | .error e => .error e
    | .ok (head, pairs') =>
      match head.rank with
      | .error e => .error e
      | .ok found =>
        if found = key then .error .repeatedKey
        else
          match hs : pairs'.skipBy unsearched with
          | .error e => .error e
          | .ok pairs'' => searchLoop key pairs''
  else .ok ()
termination_by pairs.bytes.length - pairs.next
decreasing_by
  have hh' := headBy_advances hh
  have hs' := skipBy_advances hs
  rw [hs'.1, hh'.1]
  omega

def search : Search := fun bytes key =>
  match slice bytes key.start key.stop with
  | none => .error .endOfInput
  | some earlier => searchLoop key.key { CborReader.new earlier with checks := false }

def settleSkipped (r : CborReader) : Except CborError CborReader := r.settleSkippedBy search

abbrev Read (ε α : Type) := StateT CborReader (Except ε) α

def head : Read CborError Head := headBy search

def skip : Read CborError Unit := fun r => do
  let r ← r.skipBy search
  .ok ((), r)

def array : Read CborError ℕ := do
  match ← head with
  | .array count => pure count
  | _ => throw .wrongType

def map : Read CborError ℕ := do
  match ← head with
  | .map pairs => pure pairs
  | _ => throw .wrongType

def i64Max : ℕ := 2 ^ 63 - 1

def negative (argument : ℕ) : Except CborError ℤ :=
  if argument ≤ i64Max then .ok (-1 - argument) else .error .integerOutOfRange

def key : Read CborError ℤ := do
  match ← head with
  | .unsigned value => if value ≤ i64Max then pure value else throw .integerOutOfRange
  | .negative argument => negative argument
  | _ => throw .keyNotInteger

def unsigned : Read CborError ℕ := do
  match ← head with
  | .unsigned value => pure value
  | .negative _ => throw .integerOutOfRange
  | _ => throw .wrongType

def unsignedTo (max : ℕ) : Read CborError ℕ := do
  let value ← unsigned
  if value ≤ max then pure value else throw .integerOutOfRange

def u64 : Read CborError ℕ := unsigned

def u32 : Read CborError UInt32 := UInt32.ofNat <$> unsignedTo 0xFFFFFFFF

def u16 : Read CborError UInt16 := UInt16.ofNat <$> unsignedTo 0xFFFF

def u8 : Read CborError UInt8 := UInt8.ofNat <$> unsignedTo 0xFF

def i32 : Read CborError Int32 := do
  match ← head with
  | .unsigned value => if value ≤ 0x7FFFFFFF then pure (Int32.ofInt value) else throw .integerOutOfRange
  | .negative argument =>
    let value ← negative argument
    if -0x80000000 ≤ value then pure (Int32.ofInt value) else throw .integerOutOfRange
  | _ => throw .wrongType

def bool : Read CborError Bool := do
  match ← head with
  | .bool value => pure value
  | _ => throw .wrongType

def bytesValue : Read CborError Bytes := do
  match ← head with
  | .bytes raw => pure raw
  | _ => throw .wrongType

def text : Read CborError Bytes := do
  match ← head with
  | .text raw => pure raw
  | _ => throw .wrongType

def raw : Read CborError Bytes := fun r => do
  let (_, r') ← r.skip
  match slice r'.bytes r.next r'.next with
  | some item => .ok (item, r')
  | none => .error .endOfInput

def finish (r : CborReader) : Except CborError Unit := do
  let r ← r.settleSkipped
  let r := r.settled
  if r.nest.depth ≠ 0 then .error .unfinished
  else if r.next < r.bytes.length then .error .trailingBytes
  else .ok ()

end CborReader

end Km43.Cbor
