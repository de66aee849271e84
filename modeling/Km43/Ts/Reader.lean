import Km43.Cbor.ReadsBox
import Km43.Ts.Encode
import Km43.Ts.Utf8

namespace Km43.Ts

open Cbor Library Library.StepParser

structure CborReader where
  rest : Bytes
  depth : ℕ
  deriving DecidableEq

/-- A call on the reader. A `CborError` is told as the refusal it becomes where the body codec catches it. -/
abbrev Read := StateT CborReader (Except BusesAndDevicesRefusal)

namespace CborReader

variable {α β γ δ σ τ : Type}

structure Head where
  major : Major
  argument : ℕ
  deriving DecidableEq

def fail (failure : CborError) : Read α := throw (.cbor failure)

def byte : Read UInt8 := fun r =>
  match r.rest with
  | [] => .error (.cbor .endOfInput)
  | byte :: rest => .ok (byte, { r with rest := rest })

def argumentBytes : ℕ → ℕ → Read ℕ
  | 0, argument => pure argument
  | width + 1, argument => do
    let byte ← byte
    argumentBytes width (argument <<< 8 ||| byte.toNat)

def simple (info : ℕ) : Read Unit :=
  if info = 20 ∨ info = 21 then pure ()
  else if info ≥ 25 ∧ info ≤ 27 then fail .floatNotAllowed
  else if info ≥ 28 ∧ info ≤ 30 then fail .reservedHead
  else if info = 31 then fail .indefiniteLength
  else fail .simpleValueNotAllowed

def argument (info : ℕ) : Read ℕ :=
  if info < 24 then pure info
  else if info = 31 then fail .indefiniteLength
  else if info > 27 then fail .reservedHead
  else argumentBytes (1 <<< (info - 24)) 0

def head : Read Head := do
  let initial ← byte
  let major := Major.of initial
  let info := (initial &&& 0x1F).toNat
  if major = .tag then fail .tagNotAllowed
  else if major = .simple then do
    simple info
    pure ⟨major, 0⟩
  else do
    let argument ← argument info
    pure ⟨major, argument⟩

def take (length : ℕ) : Read Bytes := fun r =>
  if length > r.rest.length then .error (.cbor .endOfInput)
  else .ok (r.rest.take length, { r with rest := r.rest.drop length })

def text (length : ℕ) : Read Unit := do
  if length > maxString then fail .stringTooLong
  else do
    let raw ← take length
    if isUtf8 raw then pure () else fail .invalidUtf8

def enter : Read Unit := fun r =>
  if r.depth ≥ maxDepth then .error (.cbor .depthExceeded) else .ok ((), { r with depth := r.depth + 1 })

def close : Read Unit := fun r => .ok ((), { r with depth := r.depth - 1 })

def container (major : Major) : Read ℕ := do
  let head ← head
  if head.major ≠ major then fail .wrongType
  else do
    let r ← get
    -- Every item is at least one byte.
    if head.argument > r.rest.length then fail .endOfInput
    else do
      enter
      pure head.argument

def map : Read ℕ := container .map

def array : Read ℕ := container .array

def i64Max : ℕ := 0x7FFFFFFFFFFFFFFF

def key : Read ℤ := do
  let head ← head
  match head.major with
  | .unsigned => if head.argument > i64Max then fail .integerOutOfRange else pure head.argument
  | .negative => if head.argument > i64Max then fail .integerOutOfRange else pure (-1 - head.argument)
  | _ => fail .keyNotInteger

def pairLoop (read : ℤ → σ → Read σ) : ℕ → List ℤ → σ → Read σ
  | 0, _, s => pure s
  | left + 1, seen, s => do
    let key ← key
    if key ∈ seen then fail .repeatedKey
    else do
      let s ← read key s
      pairLoop read left (key :: seen) s

def entries (read : ℤ → σ → Read σ) (s : σ) : Read σ := do
  let pairs ← map
  let s ← pairLoop read pairs [] s
  close
  pure s

def uint (max : ℕ) : Read ℤ := do
  let head ← head
  if head.major = .negative then fail .integerOutOfRange
  else if head.major ≠ .unsigned then fail .wrongType
  else if head.argument > max then fail .integerOutOfRange
  else pure head.argument

def bool : Read Bool := do
  let r ← get
  let byte ← byte
  if byte = 0xF5 then pure true
  else if byte = 0xF4 then pure false
  else do
    set r
    let _ ← head
    fail .wrongType

def bytes : Read Bytes := do
  let head ← head
  if head.major ≠ .bytes then fail .wrongType else take head.argument

def times (body : σ → Read σ) : ℕ → σ → Read σ
  | 0, s => pure s
  | left + 1, s => do
    let s ← body s
    times body left s

def skipWith (inner : Read Unit) : Read Unit := do
  let head ← head
  match head.major with
  | .unsigned | .negative => pure ()
  | .bytes => do
    let _ ← take head.argument
  | .text => text head.argument
  | .array => do
    enter
    times (fun _ => inner) head.argument ()
    close
  | .map => do
    enter
    pairLoop (fun _ _ => inner) head.argument [] ()
    close
  | .tag | .simple => pure ()

/-- `levels` more containers can be entered; with none left `enter` throws before the call that is not there. -/
def skipAt : ℕ → Read Unit
  | 0 => skipWith (fail .depthExceeded)
  | levels + 1 => skipWith (skipAt levels)

def skip : Read Unit := fun r => skipAt (maxDepth - r.depth) r

def finish : Read Unit := fun r => if r.rest ≠ [] then .error (.cbor .trailingBytes) else .ok ((), r)

/-- What a read makes of the bytes left, where `x` is what the grammar makes of them. -/
inductive Makes (R : α → β → Prop) (depth : ℕ) :
    Option (α × Bytes) → Except BusesAndDevicesRefusal (β × CborReader) → Prop
  | takes {a : α} {b : β} {rest : Bytes} (h : R a b) : Makes R depth (some (a, rest)) (.ok (b, ⟨rest, depth⟩))
  | refuses {why : BusesAndDevicesRefusal} (h : sectionAnswer why = .malformedFrame) : Makes R depth none (.error why)

section

variable {R : α → β → Prop} {S : γ → δ → Prop} {depth depth' : ℕ}

theorem Makes.mono {R' : α → β → Prop} {x : Option (α × Bytes)} {y : Except BusesAndDevicesRefusal (β × CborReader)}
    (h : Makes R depth x y) (hR : ∀ a b, R a b → R' a b) : Makes R' depth x y := by
  cases h with
  | takes h => exact .takes (hR _ _ h)
  | refuses h => exact .refuses h

theorem Makes.along {R' : γ → β → Prop} {x : Option (α × Bytes)} {y : Except BusesAndDevicesRefusal (β × CborReader)}
    (h : Makes R depth x y) (g : α → γ) (hR : ∀ a b, R a b → R' (g a) b) :
    Makes R' depth (x.map fun p => (g p.1, p.2)) y := by
  cases h with
  | takes h => exact .takes (hR _ _ h)
  | refuses h => exact .refuses h

theorem Makes.andThen {x : Option (α × Bytes)} {g : α × Bytes → Option (γ × Bytes)} {m : Read β} {k : β → Read δ}
    {r : CborReader} (hm : Makes R depth x (m r))
    (hk : ∀ a b rest, R a b → Makes S depth' (g (a, rest)) (k b ⟨rest, depth⟩)) :
    Makes S depth' (x.bind g) ((m >>= k) r) := by
  have hrun : (m >>= k) r = m r >>= fun p => k p.1 p.2 := rfl
  rw [hrun]
  generalize m r = y at hm
  cases hm with
  | takes h => exact hk _ _ _ h
  | refuses h => exact .refuses h

theorem Makes.pure {a : α} {b : β} {rest : Bytes} (h : R a b) :
    Makes R depth (some (a, rest)) ((pure b : Read β) ⟨rest, depth⟩) := .takes h

theorem Makes.fail (failure : CborError) (r : CborReader) : Makes R depth none (fail failure r) := .refuses rfl

end

theorem argumentBytes_makes (width argument : ℕ) (rest : Bytes) (depth : ℕ) :
    Makes Eq depth ((takeBytes width rest).map fun p => (p.1.foldl BigEndian.push argument, p.2))
      (argumentBytes width argument ⟨rest, depth⟩) := by
  induction width generalizing argument rest with
  | zero => exact .takes rfl
  | succ width ih =>
    cases rest with
    | nil => exact .refuses rfl
    | cons b rest =>
      have h := ih (BigEndian.push argument b) rest
      have htake : ((takeBytes (width + 1) (b :: rest)).map fun p => (p.1.foldl BigEndian.push argument, p.2)) =
          (takeBytes width rest).map fun p => (p.1.foldl BigEndian.push (BigEndian.push argument b), p.2) := by
        simp only [takeBytes, List.length_cons, Nat.add_le_add_iff_right]
        split_ifs <;> rfl
      rw [htake]
      exact h

def headStep : Step UInt8 (Major × Width × ℕ)
  | [] => none
  | first :: bs =>
    if Major.of first = .tag then none
    else if Major.of first = .simple then
      if (first &&& 0x1F).toNat = 20 ∨ (first &&& 0x1F).toNat = 21 then
        some ((.simple, .inline, (first &&& 0x1F).toNat), bs)
      else none
    else (argumentStep (first &&& 0x1F).toNat bs).map fun p => ((Major.of first, p.1), p.2)

def itemOf (inner : Option (Step UInt8 Item)) (w : Width) (n : ℕ) : Major → Step UInt8 Item
  | .unsigned => fun bs => some (.unsigned w n, bs)
  | .negative => fun bs => some (.negative w n, bs)
  | .bytes => fun bs => (takeBytes n bs).map fun q => (.bytes w q.1, q.2)
  | .text => fun bs =>
      if n > maxString then none
      else (takeBytes n bs).bind fun q => if Cbor.isUtf8 q.1 then some (.text w q.1, q.2) else none
  | .array => fun bs => inner.bind fun inner => (many inner n bs).map fun p => (.array w p.1, p.2)
  | .map => fun bs => inner.bind fun inner => (pairsStep inner [] n bs).map fun p => (.map w p.1, p.2)
  | .tag => fun _ => none
  | .simple => fun bs => some (.bool (n = 21), bs)

theorem itemWith_head (inner : Option (Step UInt8 Item)) (bs : Bytes) :
    itemWith inner bs = (headStep bs).bind fun p => itemOf inner p.1.2.1 p.1.2.2 p.1.1 p.2 := by
  cases bs with
  | nil => rfl
  | cons first bs =>
    rw [itemWith, tokenStep, headStep]
    generalize (first &&& 0x1F).toNat = info
    cases Major.of first
    case tag => rfl
    case simple =>
      simp only [tokenAs, reduceCtorEq, if_false, if_true]
      by_cases h₀ : info = 20
      · simp [h₀, itemOf]
      · by_cases h₁ : info = 21
        · simp [h₁, itemOf]
        · simp [h₀, h₁]
    case bytes =>
      simp only [tokenAs, reduceCtorEq, if_false]
      cases argumentStep info bs with
      | none => rfl
      | some p =>
        simp only [Option.map_some, Option.bind_some, itemOf]
        cases takeBytes p.1.2 p.2 <;> rfl
    case text =>
      simp only [tokenAs, reduceCtorEq, if_false]
      cases argumentStep info bs with
      | none => rfl
      | some p =>
        simp only [Option.map_some, Option.bind_some, itemOf]
        by_cases hlong : p.1.2 > maxString
        · simp only [hlong, if_true]
        · simp only [hlong, if_false]
          cases takeBytes p.1.2 p.2 with
          | none => rfl
          | some q =>
            simp only [Option.bind_some]
            cases Cbor.isUtf8 q.1 <;> rfl
    all_goals
      simp only [tokenAs, reduceCtorEq, if_false]
      cases argumentStep info bs <;> rfl

theorem argument_makes (info : ℕ) (rest : Bytes) (depth : ℕ) :
    Makes (fun p n => n = p.2) depth (argumentStep info rest) (argument info ⟨rest, depth⟩) := by
  unfold argument
  by_cases hinline : info < 24
  · have hw : Width.ofInfo info = .ok .inline := if_pos (by omega)
    rw [if_pos hinline, argumentStep, hw]
    exact .takes rfl
  · rw [if_neg hinline]
    by_cases hwide : info ≤ 27
    · obtain ⟨w, hw, hbytes, hne⟩ : ∃ w, Width.ofInfo info = .ok w ∧ w.bytes = 1 <<< (info - 24) ∧ w ≠ .inline := by
        interval_cases info
        · exact ⟨.one, rfl, rfl, by simp⟩
        · exact ⟨.two, rfl, rfl, by simp⟩
        · exact ⟨.four, rfl, rfl, by simp⟩
        · exact ⟨.eight, rfl, rfl, by simp⟩
      have hstep : argumentStep info rest =
          (takeBytes (1 <<< (info - 24)) rest).map fun p => ((w, BigEndian.value p.1), p.2) := by
        rw [argumentStep, hw, ← hbytes]
        cases w with
        | inline => exact absurd rfl hne
        | one | two | four | eight => rfl
      rw [if_neg (by omega), if_neg (by omega), hstep]
      have h : Makes (fun (p : Width × ℕ) n => n = p.2) depth _ _ :=
        (argumentBytes_makes (1 <<< (info - 24)) 0 rest depth).along (fun n => (w, n)) fun _ _ h => h.symm
      rw [Option.map_map] at h
      exact h
    · have hw : argumentStep info rest = none := by
        have hinfo : ∃ why, Width.ofInfo info = .error why := by
          unfold Width.ofInfo
          rw [if_neg (by omega), if_neg (by omega), if_neg (by omega), if_neg (by omega), if_neg (by omega)]
          split_ifs
          · exact ⟨_, rfl⟩
          · exact ⟨_, rfl⟩
        obtain ⟨why, hinfo⟩ := hinfo
        rw [argumentStep, hinfo]
      rw [hw]
      by_cases hindefinite : info = 31
      · rw [if_pos hindefinite]
        exact .fail _ _
      · rw [if_neg hindefinite, if_pos (by omega)]
        exact .fail _ _

/-- The argument a head is read as: a boolean's is told apart from its first byte, and not here. -/
abbrev argumentOf : Major → ℕ → ℕ
  | .simple, _ => 0
  | .unsigned, n | .negative, n | .bytes, n | .text, n | .array, n | .map, n | .tag, n => n

theorem head_makes (rest : Bytes) (depth : ℕ) :
    Makes (fun h b => b = ⟨h.1, argumentOf h.1 h.2.2⟩ ∧ h.1 ≠ .tag) depth (headStep rest) (head ⟨rest, depth⟩) := by
  cases rest with
  | nil => exact .refuses rfl
  | cons first rest =>
    have hrun : head ⟨first :: rest, depth⟩ = (if Major.of first = .tag then CborReader.fail .tagNotAllowed
        else if Major.of first = .simple then do
          simple (first &&& 0x1F).toNat
          pure ⟨Major.of first, 0⟩
        else do
          let argument ← argument (first &&& 0x1F).toNat
          pure ⟨Major.of first, argument⟩ : Read Head) ⟨rest, depth⟩ := rfl
    rw [hrun, headStep]
    by_cases htag : Major.of first = .tag
    · rw [if_pos htag, if_pos htag]
      exact .fail _ _
    · rw [if_neg htag, if_neg htag]
      by_cases hsimple : Major.of first = .simple
      · rw [if_pos hsimple, if_pos hsimple, hsimple]
        unfold simple
        by_cases hbool : (first &&& 0x1F).toNat = 20 ∨ (first &&& 0x1F).toNat = 21
        · rw [if_pos hbool, if_pos hbool]
          exact .takes ⟨rfl, by simp⟩
        · rw [if_neg hbool, if_neg hbool]
          split_ifs
          all_goals exact .refuses rfl
      · rw [if_neg hsimple, if_neg hsimple, Option.map_eq_bind]
        apply (argument_makes _ rest depth).andThen
        rintro p n rest rfl
        apply Makes.pure
        refine ⟨?_, htag⟩
        revert hsimple
        cases Major.of first <;> simp [argumentOf]

theorem take_makes (length : ℕ) (rest : Bytes) (depth : ℕ) :
    Makes Eq depth (takeBytes length rest) (take length ⟨rest, depth⟩) := by
  unfold take takeBytes
  by_cases hlong : length ≤ rest.length
  · rw [if_pos hlong, if_neg (Nat.not_lt.mpr hlong)]
    exact .takes rfl
  · rw [if_neg hlong, if_pos (Nat.not_le.mp hlong)]
    exact .refuses rfl

theorem text_makes (w : Width) (length : ℕ) (rest : Bytes) (depth : ℕ) :
    Makes (fun _ _ => True) depth (itemOf none w length .text rest) (text length ⟨rest, depth⟩) := by
  simp only [text, itemOf]
  by_cases hlong : length > maxString
  · rw [if_pos hlong, if_pos hlong]
    exact .fail _ _
  · rw [if_neg hlong, if_neg hlong]
    apply (take_makes length rest depth).andThen
    rintro raw _ rest rfl
    rw [isUtf8_eq]
    cases Cbor.isUtf8 raw with
    | true => exact .takes trivial
    | false => exact .fail _ _

mutual
def narrow : Item → Bool
  | .unsigned .. | .negative .. | .bytes .. | .text .. | .bool _ => true
  | .array _ items => narrowAll items
  | .map _ pairs => narrowPairs pairs
def narrowAll : List Item → Bool
  | [] => true
  | i :: rest => narrow i && narrowAll rest
def narrowPairs : List (Key × Item) → Bool
  | [] => true
  | (k, v) :: rest => k.i64?.isSome && narrow v && narrowPairs rest
end

def narrowStep (d : ℕ) : Step UInt8 Item := fun bs => (itemStep d bs).filter fun p => narrow p.1

def narrowMany (d n : ℕ) : Step UInt8 (List Item) := fun bs =>
  (many (itemStep d) n bs).filter fun p => narrowAll p.1

def narrowFresh (d : ℕ) (seen : List KeyRank) (n : ℕ) : Step UInt8 (List (Key × Item)) := fun bs =>
  (pairsStep (itemStep d) seen n bs).filter fun p => narrowPairs p.1

theorem narrowStep_ok {d : ℕ} {bs rest : Bytes} {i : Item} :
    narrowStep d bs = some (i, rest) ↔ (i.Legal d ∧ bs = i.spelling ++ rest) ∧ narrow i = true := by
  unfold narrowStep
  rw [Option.filter_eq_some_iff, itemStep_exact]

theorem narrowMany_succ (d n : ℕ) (bs : Bytes) : narrowMany d (n + 1) bs =
    (narrowStep d bs).bind fun p => (narrowMany d n p.2).map fun q => (p.1 :: q.1, q.2) := by
  simp only [narrowMany, narrowStep, many]
  cases itemStep d bs with
  | none => rfl
  | some p =>
    obtain ⟨i, tail⟩ := p
    cases hm : many (itemStep d) n tail with
    | none => cases hi : narrow i <;> simp [Option.filter, hm, hi]
    | some q =>
      cases hi : narrow i <;> cases hq : narrowAll q.1 <;> simp [Option.filter, narrowAll, hm, hi, hq]

theorem narrowFresh_succ (d : ℕ) (seen : List KeyRank) (n : ℕ) (bs : Bytes) : narrowFresh d seen (n + 1) bs =
    (keyStep bs).bind fun p => if p.1.i64? = none ∨ p.1.rank ∈ seen then none
      else (narrowStep d p.2).bind fun q =>
        (narrowFresh d (p.1.rank :: seen) n q.2).map fun t => ((p.1, q.1) :: t.1, t.2) := by
  simp only [narrowFresh, narrowStep, pairsStep, manyFresh, pair]
  cases keyStep bs with
  | none => rfl
  | some p =>
    obtain ⟨k, tail⟩ := p
    cases hv : itemStep d tail with
    | none => simp [hv]
    | some q =>
      obtain ⟨v, tail'⟩ := q
      by_cases hseen : k.rank ∈ seen
      · simp [hv, hseen]
      · cases ht : manyFresh (fun p : Key × Item => p.1.rank) (pair keyStep (itemStep d)) (k.rank :: seen) n tail' with
        | none => cases hk : k.i64? <;> cases hi : narrow v <;> simp [Option.filter, hv, hseen, ht, hk, hi]
        | some t =>
          cases hk : k.i64? <;> cases hi : narrow v <;> cases hn : narrowPairs t.1 <;>
            simp [Option.filter, narrowPairs, hv, hseen, ht, hk, hi, hn]

theorem keyStep_head (bs : Bytes) : keyStep bs = (headStep bs).bind fun p =>
    if p.1.1 = .unsigned then some (⟨false, p.1.2.1, p.1.2.2⟩, p.2)
    else if p.1.1 = .negative then some (⟨true, p.1.2.1, p.1.2.2⟩, p.2)
    else none := by
  cases bs with
  | nil => rfl
  | cons first bs =>
    rw [keyStep, tokenStep, headStep]
    generalize (first &&& 0x1F).toNat = info
    cases Major.of first
    case tag => rfl
    case simple =>
      simp only [tokenAs, reduceCtorEq, if_false, if_true]
      by_cases h₀ : info = 20
      · simp [h₀]
      · by_cases h₁ : info = 21
        · simp [h₁]
        · simp [h₀, h₁]
    case bytes =>
      simp only [tokenAs, reduceCtorEq, if_false]
      cases argumentStep info bs with
      | none => rfl
      | some p => cases htake : takeBytes p.1.2 p.2 <;> simp [htake]
    case text =>
      simp only [tokenAs, reduceCtorEq, if_false]
      cases argumentStep info bs with
      | none => rfl
      | some p =>
        by_cases hlong : p.1.2 > maxString
        · simp [hlong]
        · cases htake : takeBytes p.1.2 p.2 with
          | none => simp [hlong, htake]
          | some q => cases hutf8 : Cbor.isUtf8 q.1 <;> simp [hlong, htake, hutf8]
    all_goals
      simp only [tokenAs, reduceCtorEq, if_false]
      cases argumentStep info bs <;> rfl

theorem key_makes (rest : Bytes) (depth : ℕ) :
    Makes (fun k z => k.i64? = some z) depth ((keyStep rest).filter fun p => p.1.i64?.isSome) (key ⟨rest, depth⟩) := by
  have hhead : ((keyStep rest).filter fun p => p.1.i64?.isSome) = (headStep rest).bind fun p =>
      (if p.1.1 = .unsigned then some ((⟨false, p.1.2.1, p.1.2.2⟩ : Key), p.2)
        else if p.1.1 = .negative then some (⟨true, p.1.2.1, p.1.2.2⟩, p.2)
        else none).filter fun p => p.1.i64?.isSome := by
    rw [keyStep_head]
    cases headStep rest <;> rfl
  rw [hhead]
  apply (head_makes rest depth).andThen
  rintro ⟨major, w, n⟩ _ rest ⟨rfl, -⟩
  cases major
  case unsigned =>
    simp only [argumentOf, if_true]
    by_cases hn : n ≤ i64Max
    · have hz : (⟨false, w, n⟩ : Key).i64? = some (n : ℤ) := if_pos hn
      rw [Option.filter_some_pos (by simp [hz]), if_neg (Nat.not_lt.mpr hn)]
      exact .takes hz
    · have hz : (⟨false, w, n⟩ : Key).i64? = none := if_neg hn
      rw [Option.filter_some_neg (by simp [hz]), if_pos (Nat.not_le.mp hn)]
      exact .fail _ _
  case negative =>
    simp only [argumentOf, reduceCtorEq, if_false, if_true]
    by_cases hn : n ≤ i64Max
    · have hz : (⟨true, w, n⟩ : Key).i64? = some (-1 - n : ℤ) := if_pos hn
      rw [Option.filter_some_pos (by simp [hz]), if_neg (Nat.not_lt.mpr hn)]
      exact .takes hz
    · have hz : (⟨true, w, n⟩ : Key).i64? = none := if_neg hn
      rw [Option.filter_some_neg (by simp [hz]), if_pos (Nat.not_le.mp hn)]
      exact .fail _ _
  all_goals exact .fail _ _

/-- A reader takes of an item what `f` does, where the grammar allows it and its keys are held. -/
def Reads (d : ℕ) (R : α → β → Prop) (m : Read β) (f : Item → Option α) : Prop :=
  ∀ rest depth, depth + d = maxDepth →
    Makes R depth ((narrowStep d rest).bind fun p => (f p.1).map (·, p.2)) (m ⟨rest, depth⟩)

theorem times_makes {d : ℕ} {R : σ → τ → Prop} {f : σ → Item → Option σ} {body : τ → Read τ}
    (hbody : ∀ s t, R s t → Reads d R (body t) (f s)) (n : ℕ) (rest : Bytes) {depth : ℕ} (hdepth : depth + d = maxDepth)
    {s : σ} {t : τ} (h : R s t) : Makes R depth
      ((narrowMany d n rest).bind fun p => (foldItems f p.1 s).map (·, p.2)) (times body n t ⟨rest, depth⟩) := by
  induction n generalizing rest s t with
  | zero => exact .takes h
  | succ n ih =>
    have hsplit : ((narrowMany d (n + 1) rest).bind fun p => (foldItems f p.1 s).map (·, p.2)) =
        ((narrowStep d rest).bind fun p => (f s p.1).map (·, p.2)).bind fun q =>
          (narrowMany d n q.2).bind fun p => (foldItems f p.1 q.1).map (·, p.2) := by
      rw [narrowMany_succ]
      cases narrowStep d rest with
      | none => rfl
      | some p =>
        cases hf : f s p.1 <;> cases hm : narrowMany d n p.2 <;> simp [foldItems, hf, hm]
    rw [hsplit]
    apply (hbody s t h rest depth hdepth).andThen
    intro s' t' rest h'
    exact ih rest h'

theorem pairLoop_makes {d : ℕ} {R : List ℤ → σ → τ → Prop} {f : ℤ → σ → Item → Option σ} {read : ℤ → τ → Read τ}
    (hread : ∀ k seen s t, k ∉ seen → R seen s t → Reads d (R (k :: seen)) (read k t) (f k s)) (n : ℕ) (rest : Bytes)
    {depth : ℕ} (hdepth : depth + d = maxDepth) {ranks : List KeyRank} {seen : List ℤ}
    (hseen : ∀ k : Key, k.rank ∈ ranks ↔ k.value ∈ seen) {s : σ} {t : τ} (h : R seen s t) :
    Makes (fun a t => ∃ keys : List ℤ, R keys a.2 t ∧ keys.length = seen.length + a.1) depth
      ((narrowFresh d ranks n rest).bind fun p => (foldPairs f p.1 s).map fun s => ((p.1.length, s), p.2))
      (pairLoop read n seen t ⟨rest, depth⟩) := by
  induction n generalizing rest ranks seen s t with
  | zero => exact .takes ⟨seen, h, rfl⟩
  | succ n ih =>
    have hsplit : ((narrowFresh d ranks (n + 1) rest).bind fun p =>
          (foldPairs f p.1 s).map fun s => ((p.1.length, s), p.2)) =
        ((keyStep rest).filter fun p => p.1.i64?.isSome).bind fun p => if p.1.rank ∈ ranks then none else
          ((narrowStep d p.2).bind fun q => (p.1.i64?.bind fun z => f z s q.1).map (·, q.2)).bind fun q =>
            ((narrowFresh d (p.1.rank :: ranks) n q.2).bind fun t =>
              (foldPairs f t.1 q.1).map fun s => ((t.1.length, s), t.2)).map fun a => ((a.1.1 + 1, a.1.2), a.2) := by
      rw [narrowFresh_succ]
      cases keyStep rest with
      | none => rfl
      | some p =>
        cases hz : p.1.i64? with
        | none => simp [Option.filter, hz]
        | some z =>
          by_cases hmet : p.1.rank ∈ ranks
          · simp [Option.filter, hz, hmet]
          · simp only [Option.filter, hz, hmet, Option.isSome_some, if_true, if_false, or_false, reduceCtorEq,
              Option.bind_some]
            cases narrowStep d p.2 with
            | none => rfl
            | some q =>
              cases hf : f z s q.1 <;> cases hn : narrowFresh d (p.1.rank :: ranks) n q.2 <;>
                simp [foldPairs, hz, hf, hn, Function.comp_def]
    rw [hsplit]
    apply (key_makes rest depth).andThen
    intro k z rest hz
    obtain rfl := Key.i64?_some hz
    by_cases hmet : k.value ∈ seen
    · rw [if_pos ((hseen k).mpr hmet)]
      rw [if_pos hmet]
      exact .fail _ _
    · rw [if_neg fun hin => hmet ((hseen k).mp hin)]
      rw [if_neg hmet, hz]
      apply (hread k.value seen s t hmet h rest depth hdepth).andThen
      intro s' t' rest h'
      have hseen' : ∀ j : Key, j.rank ∈ k.rank :: ranks ↔ j.value ∈ k.value :: seen := by
        intro j
        rw [List.mem_cons, List.mem_cons, hseen j]
        apply or_congr_left
        refine ⟨fun hrank => ?_, Key.value_inj⟩
        obtain ⟨hnegative, hargument⟩ := KeyRank.mk.inj hrank
        simp only [Key.value, hnegative, hargument]
      apply (ih rest hseen' h').along fun a => (a.1 + 1, a.2)
      rintro a t ⟨keys, hkeys, hlength⟩
      refine ⟨keys, hkeys, ?_⟩
      rw [List.length_cons] at hlength
      omega

def innerStep : ℕ → Option (Step UInt8 Item)
  | 0 => none
  | d + 1 => some (itemStep d)

theorem narrowStep_head (d : ℕ) (bs : Bytes) : narrowStep d bs = (headStep bs).bind fun p =>
    (itemOf (innerStep d) p.1.2.1 p.1.2.2 p.1.1 p.2).filter fun q => narrow q.1 := by
  have hitem : itemStep d bs = itemWith (innerStep d) bs := by cases d <;> rfl
  rw [narrowStep, hitem, itemWith_head]
  cases headStep bs <;> rfl

section

variable {d : ℕ} {R : α → β → Prop} {S : γ → δ → Prop} {m : Read β} {f : Item → Option α}

theorem Reads.andThen (hm : Reads d R m f) {x : α → Option γ} {k : β → Read δ}
    (hk : ∀ a b rest depth, depth + d = maxDepth → R a b → Makes S depth ((x a).map (·, rest)) (k b ⟨rest, depth⟩)) :
    Reads d S (m >>= k) (fun i => (f i).bind x) := by
  intro rest depth hdepth
  have hsplit : ((narrowStep d rest).bind fun p => ((f p.1).bind x).map (·, p.2)) =
      ((narrowStep d rest).bind fun p => (f p.1).map (·, p.2)).bind fun q => (x q.1).map (·, q.2) := by
    cases narrowStep d rest with
    | none => rfl
    | some p => cases hf : f p.1 <;> simp [hf]
  rw [hsplit]
  apply (hm rest depth hdepth).andThen
  intro a b rest h
  exact hk a b rest depth hdepth h

theorem Reads.along {R' : γ → β → Prop} (hm : Reads d R m f) (g : α → γ) (hR : ∀ a b, R a b → R' (g a) b) :
    Reads d R' m (fun i => (f i).map g) := by
  intro rest depth hdepth
  have h := (hm rest depth hdepth).along g hR
  have hsplit : ((narrowStep d rest).bind fun p => ((f p.1).map g).map (·, p.2)) =
      ((narrowStep d rest).bind fun p => (f p.1).map (·, p.2)).map fun p => (g p.1, p.2) := by
    cases narrowStep d rest with
    | none => rfl
    | some p => cases hf : f p.1 <;> simp [hf]
  rw [hsplit]
  exact h

theorem Reads.mapped (hm : Reads d R m f) (g : α → γ) (k : β → δ) (hk : ∀ a b, R a b → S (g a) (k b)) :
    Reads d S (m >>= fun b => pure (k b)) (fun i => (f i).map g) := by
  have hspec : (fun i => (f i).map g) = fun i => (f i).bind fun a => some (g a) := by
    funext i
    cases f i <;> rfl
  rw [hspec]
  apply hm.andThen
  intro a b rest depth _ h
  exact .takes (hk a b h)

end

theorem Reads.leaf {d : ℕ} {R : α → β → Prop} {k : Head → Read β} {f : Item → Option α}
    (hk : ∀ major w n rest depth, depth + d = maxDepth → major ≠ .tag → Makes R depth
      ((itemOf (innerStep d) w n major rest).bind fun p => if narrow p.1 then (f p.1).map (·, p.2) else none)
      (k ⟨major, argumentOf major n⟩ ⟨rest, depth⟩)) : Reads d R (head >>= k) f := by
  intro rest depth hdepth
  have hsplit : ((narrowStep d rest).bind fun p => (f p.1).map (·, p.2)) = (headStep rest).bind fun p =>
      (itemOf (innerStep d) p.1.2.1 p.1.2.2 p.1.1 p.2).bind fun q => if narrow q.1 then (f q.1).map (·, q.2) else none := by
    rw [narrowStep_head]
    cases headStep rest with
    | none => rfl
    | some p =>
      simp only [Option.bind_some]
      cases itemOf (innerStep d) p.1.2.1 p.1.2.2 p.1.1 p.2 with
      | none => rfl
      | some q => cases hq : narrow q.1 <;> simp [Option.filter, hq]
  rw [hsplit]
  apply (head_makes rest depth).andThen
  rintro ⟨major, w, n⟩ _ rest ⟨rfl, htag⟩
  exact hk major w n rest depth hdepth htag

def majorOf : Item → Major
  | .unsigned .. => .unsigned
  | .negative .. => .negative
  | .bytes .. => .bytes
  | .text .. => .text
  | .array .. => .array
  | .map .. => .map
  | .bool _ => .simple

theorem itemOf_major {inner : Option (Step UInt8 Item)} {w : Width} {n : ℕ} {major : Major} {bs : Bytes}
    {p : Item × Bytes} (h : itemOf inner w n major bs = some p) : majorOf p.1 = major := by
  cases major <;> simp only [itemOf, Option.some.injEq, Option.map_eq_some_iff, Option.bind_eq_some_iff, reduceCtorEq] at h
  case text =>
    split_ifs at h
    obtain ⟨q, -, h⟩ := Option.bind_eq_some_iff.mp h
    split_ifs at h
    cases h
    rfl
  case bytes =>
    obtain ⟨q, -, rfl⟩ := h
    rfl
  case array | map =>
    obtain ⟨inner, -, q, -, rfl⟩ := h
    rfl
  all_goals
    cases h
    rfl

theorem other_major {R : α → β → Prop} {d n depth : ℕ} {w : Width} {major : Major} {rest : Bytes} {f : Item → Option α}
    (h : ∀ i, majorOf i = major → f i = none) (failure : CborError) (r : CborReader) : Makes R depth
      ((itemOf (innerStep d) w n major rest).bind fun p => if narrow p.1 then (f p.1).map (·, p.2) else none)
      (fail failure r) := by
  have hnone : ((itemOf (innerStep d) w n major rest).bind fun p =>
      if narrow p.1 then (f p.1).map (·, p.2) else none) = none := by
    cases hp : itemOf (innerStep d) w n major rest with
    | none => rfl
    | some p => simp [h p.1 (itemOf_major hp)]
  rw [hnone]
  exact .fail _ _

theorem uint_reads (d max : ℕ) : Reads d (fun (n : ℕ) (z : ℤ) => z = n ∧ n ≤ max) (uint max) (Item.uint max) := by
  apply Reads.leaf
  intro major w n rest depth _ _
  cases major
  case unsigned =>
    simp only [argumentOf]
    by_cases hn : n ≤ max
    · simp [itemOf, Item.uint, narrow, hn, Nat.not_lt.mpr hn]
      exact .takes ⟨rfl, hn⟩
    · simp [itemOf, Item.uint, narrow, hn, Nat.not_le.mp hn]
      exact .fail _ _
  all_goals
    apply other_major
    intro i hi
    cases i <;> first | rfl | cases hi

theorem bytes_reads (d : ℕ) : Reads d Eq bytes Item.bytes? := by
  apply Reads.leaf
  intro major w n rest depth _ _
  cases major
  case bytes =>
    have htake : ((itemOf (innerStep d) w n .bytes rest).bind fun p =>
        if narrow p.1 then (Item.bytes? p.1).map (·, p.2) else none) = takeBytes n rest := by
      simp only [itemOf]
      cases takeBytes n rest with
      | none => rfl
      | some q => simp [narrow, Item.bytes?]
    rw [htake]
    exact take_makes n rest depth
  all_goals
    apply other_major
    intro i hi
    cases i <;> first | rfl | cases hi

theorem bool_reads (d : ℕ) : Reads d Eq bool Item.bool? := by
  intro rest depth _
  cases rest with
  | nil =>
    rw [narrowStep_head]
    exact .refuses rfl
  | cons first rest =>
    have hrun : bool ⟨first :: rest, depth⟩ = (if first = 0xF5 then pure true
        else if first = 0xF4 then pure false
        else do
          set (⟨first :: rest, depth⟩ : CborReader)
          let _ ← head
          CborReader.fail .wrongType : Read Bool) ⟨rest, depth⟩ := rfl
    rw [hrun]
    have htrue : ∀ value : Bool, first = (if value then 0xF5 else 0xF4) →
        ((narrowStep d (first :: rest)).bind fun p => (Item.bool? p.1).map (·, p.2)) = some (value, rest) := by
      rintro value rfl
      have hitem : itemStep d ((if value then 0xF5 else 0xF4) :: rest) = some (.bool value, rest) := by
        apply (itemStep_exact d _ _ _).mpr
        cases value <;> cases d <;> exact ⟨trivial, rfl⟩
      rw [narrowStep, hitem]
      rfl
    by_cases hyes : first = 0xF5
    · rw [if_pos hyes, htrue true hyes]
      exact .takes rfl
    · rw [if_neg hyes]
      by_cases hno : first = 0xF4
      · rw [if_pos hno, htrue false hno]
        exact .takes rfl
      · have hnone : ((narrowStep d (first :: rest)).bind fun p => (Item.bool? p.1).map (·, p.2)) =
            (headStep (first :: rest)).bind fun _ => none := by
          rw [Option.bind_fun_none]
          apply Option.bind_eq_none_iff.mpr
          intro p hp
          obtain ⟨hitem, -⟩ := Option.filter_eq_some_iff.mp hp
          obtain ⟨-, hspelled⟩ := (itemStep_exact d _ _ _).mp hitem
          cases hi : p.1 with
          | bool value =>
            rw [hi] at hspelled
            cases value
            · exact absurd (List.cons.inj hspelled).1 hno
            · exact absurd (List.cons.inj hspelled).1 hyes
          | unsigned | negative | bytes | text | array | map => rfl
        rw [if_neg hno, hnone]
        change Makes Eq depth _ ((head >>= fun _ => CborReader.fail .wrongType) ⟨first :: rest, depth⟩)
        apply (head_makes (first :: rest) depth).andThen
        intro _ _ _ _
        exact .fail _ _

theorem container_makes {major : Major} (hmajor : major ≠ .simple) (rest : Bytes) {depth : ℕ} (hdepth : depth < maxDepth) :
    Makes Eq (depth + 1)
      ((headStep rest).bind fun p => if p.1.1 = major ∧ p.1.2.2 ≤ p.2.length then some (p.1.2.2, p.2) else none)
      (container major ⟨rest, depth⟩) := by
  apply (head_makes rest depth).andThen
  rintro ⟨major', w, n⟩ _ rest ⟨rfl, -⟩
  dsimp only
  by_cases hmatch : major' = major
  · subst hmatch
    have hargument : argumentOf major' n = n := by cases major' <;> first | rfl | exact absurd rfl hmajor
    simp only [hargument]
    rw [if_neg (not_not.mpr rfl : ¬major' ≠ major')]
    have hrun : (do
        let r ← get
        if n > r.rest.length then CborReader.fail .endOfInput
        else do
          enter
          pure n : Read ℕ) ⟨rest, depth⟩ = (if n > rest.length then CborReader.fail .endOfInput
        else do
          enter
          pure n : Read ℕ) ⟨rest, depth⟩ := rfl
    rw [hrun]
    by_cases hroom : n ≤ rest.length
    · rw [if_pos ⟨trivial, hroom⟩, if_neg (Nat.not_lt.mpr hroom)]
      have henter : enter ⟨rest, depth⟩ = .ok ((), ⟨rest, depth + 1⟩) := if_neg (Nat.not_le.mpr hdepth)
      change Makes Eq (depth + 1) _ (enter ⟨rest, depth⟩ >>= fun p => .ok (n, p.2))
      rw [henter]
      exact .takes rfl
    · rw [if_neg (by simp [hroom]), if_pos (Nat.not_le.mp hroom)]
      exact .fail _ _
  · rw [if_neg (by simp [hmatch]), if_pos hmatch]
    exact .fail _ _

theorem close_makes {R : α → β → Prop} {a : α} {b : β} {rest : Bytes} {depth : ℕ} (h : R a b) :
    Makes R depth (some (a, rest)) ((do close; pure b : Read β) ⟨rest, depth + 1⟩) := .takes h

def countStep (major : Major) : Step UInt8 ℕ := fun bs =>
  (headStep bs).bind fun p => if p.1.1 = major ∧ p.1.2.2 ≤ p.2.length then some (p.1.2.2, p.2) else none

theorem items_major {i : Item} (h : majorOf i ≠ .array) : i.items? = none := by
  cases i <;> first | rfl | exact absurd rfl h

theorem pairs_major {i : Item} (h : majorOf i ≠ .map) : i.pairs? = none := by
  cases i <;> first | rfl | exact absurd rfl h

theorem other_none {inner : Option (Step UInt8 Item)} {w : Width} {n : ℕ} {major : Major} {bs : Bytes}
    {f : Item → Option α} (h : ∀ i, majorOf i = major → f i = none) :
    (((itemOf inner w n major bs).filter fun q => narrow q.1).bind fun p => (f p.1).map (·, p.2)) = none := by
  apply Option.bind_eq_none_iff.mpr
  intro p hp
  obtain ⟨hitem, -⟩ := Option.filter_eq_some_iff.mp hp
  rw [h p.1 (itemOf_major hitem)]
  rfl

theorem array_split (d : ℕ) (g : List Item → Option α) (rest : Bytes) :
    ((narrowStep (d + 1) rest).bind fun p => (p.1.items?.bind g).map (·, p.2)) =
      (countStep .array rest).bind fun p => (narrowMany d p.1 p.2).bind fun q => (g q.1).map (·, q.2) := by
  rw [narrowStep_head, countStep]
  cases headStep rest with
  | none => rfl
  | some p =>
    obtain ⟨⟨major, w, n⟩, rest⟩ := p
    simp only [Option.bind_some]
    by_cases hmajor : major = .array
    · subst hmajor
      by_cases hroom : n ≤ rest.length
      · rw [if_pos ⟨rfl, hroom⟩]
        simp only [itemOf, innerStep, narrowMany, Option.bind_some]
        cases many (itemStep d) n rest with
        | none => rfl
        | some q => cases hq : narrowAll q.1 <;> simp [Option.filter, narrow, hq, Item.items?]
      · have hmany : many (itemStep d) n rest = none := Cbor.CborReader.many_room (Nat.not_le.mp hroom)
        rw [if_neg (by simp [hroom])]
        simp only [itemOf, innerStep, Option.bind_some, hmany]
        rfl
    · rw [if_neg (by simp [hmajor]), Option.bind_none]
      apply other_none (f := fun i => i.items?.bind g)
      rintro i rfl
      rw [items_major hmajor, Option.bind_none]

theorem map_split (d : ℕ) (g : List (Key × Item) → Option α) (rest : Bytes) :
    ((narrowStep (d + 1) rest).bind fun p => (p.1.pairs?.bind g).map (·, p.2)) =
      (countStep .map rest).bind fun p => (narrowFresh d [] p.1 p.2).bind fun q => (g q.1).map (·, q.2) := by
  rw [narrowStep_head, countStep]
  cases headStep rest with
  | none => rfl
  | some p =>
    obtain ⟨⟨major, w, n⟩, rest⟩ := p
    simp only [Option.bind_some]
    by_cases hmajor : major = .map
    · subst hmajor
      by_cases hroom : n ≤ rest.length
      · rw [if_pos ⟨rfl, hroom⟩]
        simp only [itemOf, innerStep, narrowFresh, Option.bind_some]
        cases pairsStep (itemStep d) [] n rest with
        | none => rfl
        | some q => cases hq : narrowPairs q.1 <;> simp [Option.filter, narrow, hq, Item.pairs?]
      · have hpairs : pairsStep (itemStep d) [] n rest = none := Cbor.CborReader.pairs_room (by omega)
        rw [if_neg (by simp [hroom])]
        simp only [itemOf, innerStep, Option.bind_some, hpairs]
        rfl
    · rw [if_neg (by simp [hmajor]), Option.bind_none]
      apply other_none (f := fun i => i.pairs?.bind g)
      rintro i rfl
      rw [pairs_major hmajor, Option.bind_none]

theorem array_reads {d : ℕ} {R : σ → τ → Prop} {f : σ → Item → Option σ} {body : τ → Read τ}
    (hbody : ∀ s t, R s t → Reads d R (body t) (f s)) {s : σ} {t : τ} (h : R s t) :
    Reads (d + 1) R (do let count ← array; let t ← times body count t; close; pure t)
      (fun i => i.items?.bind fun items => foldItems f items s) := by
  intro rest depth hdepth
  rw [array_split]
  apply (container_makes (by simp) rest (by omega)).andThen
  rintro n _ rest rfl
  rw [← Option.bind_fun_some (x := (narrowMany d n rest).bind _)]
  apply (times_makes hbody n rest (show depth + 1 + d = maxDepth by omega) h).andThen
  intro s t rest h
  exact close_makes h

theorem nothing_seen (k : Key) : k.rank ∈ ([] : List KeyRank) ↔ k.value ∈ ([] : List ℤ) := by simp

theorem entries_reads {d : ℕ} {R : List ℤ → σ → τ → Prop} {f : ℤ → σ → Item → Option σ} {read : ℤ → τ → Read τ}
    (hread : ∀ k seen s t, k ∉ seen → R seen s t → Reads d (R (k :: seen)) (read k t) (f k s)) {s : σ} {t : τ}
    (h : R [] s t) : Reads (d + 1) (fun a t => ∃ keys : List ℤ, R keys a.2 t ∧ keys.length = a.1) (entries read t)
      (fun i => i.pairs?.bind fun pairs => (foldPairs f pairs s).map fun s => (pairs.length, s)) := by
  intro rest depth hdepth
  rw [map_split]
  apply (container_makes (by simp) rest (by omega)).andThen
  rintro n _ rest rfl
  rw [← Option.bind_fun_some (x := (narrowFresh d [] n rest).bind _)]
  have hloop := pairLoop_makes hread n rest (show depth + 1 + d = maxDepth by omega) nothing_seen h
  simp only [Option.map_map] at *
  apply hloop.andThen
  rintro a t rest ⟨keys, hkeys, hlength⟩
  apply close_makes
  exact ⟨keys, hkeys, by simpa using hlength⟩

theorem foldItems_pass (items : List Item) : foldItems (fun _ _ => some ()) items () = some () := by
  induction items with
  | nil => rfl
  | cons i items ih => exact ih

theorem foldPairs_pass {pairs : List (Key × Item)} (h : narrowPairs pairs = true) :
    foldPairs (fun _ _ _ => some ()) pairs () = some () := by
  induction pairs with
  | nil => rfl
  | cons p pairs ih =>
    obtain ⟨k, v⟩ := p
    rw [narrowPairs, Bool.and_eq_true, Bool.and_eq_true] at h
    obtain ⟨⟨hk, -⟩, hpairs⟩ := h
    obtain ⟨z, hz⟩ := Option.isSome_iff_exists.mp hk
    rw [foldPairs, hz, Option.bind_some, Option.bind_some, ih hpairs]

theorem enter_makes {R : α → β → Prop} {m : Read β} {x : Option (α × Bytes)} {rest : Bytes} {depth depth' : ℕ}
    (hdepth : depth < maxDepth) (h : Makes R depth' x (m ⟨rest, depth + 1⟩)) :
    Makes R depth' x ((do enter; m : Read β) ⟨rest, depth⟩) := by
  have henter : enter ⟨rest, depth⟩ = .ok ((), ⟨rest, depth + 1⟩) := if_neg (Nat.not_le.mpr hdepth)
  change Makes R depth' x (enter ⟨rest, depth⟩ >>= fun p => m p.2)
  rw [henter]
  exact h

theorem enter_refused {R : α → β → Prop} {m : Read β} {rest : Bytes} {depth depth' : ℕ} (hdepth : maxDepth ≤ depth) :
    Makes R depth' none ((do enter; m : Read β) ⟨rest, depth⟩) := by
  have henter : enter ⟨rest, depth⟩ = .error (.cbor .depthExceeded) := if_pos hdepth
  change Makes R depth' none (enter ⟨rest, depth⟩ >>= fun p => m p.2)
  rw [henter]
  exact .refuses rfl

theorem skipWith_reads {d : ℕ} {inner : Read Unit}
    (hinner : ∀ e, d = e + 1 → Reads e (fun _ _ => True) inner (fun _ => some ())) :
    Reads d (fun _ _ => True) (skipWith inner) (fun _ => some ()) := by
  apply Reads.leaf
  intro major w n rest depth hdepth htag
  cases major
  case unsigned | negative | simple => exact .takes trivial
  case tag => exact absurd rfl htag
  case bytes =>
    have htake : ((itemOf (innerStep d) w n .bytes rest).bind fun p => if narrow p.1 then (some ()).map (·, p.2) else none) =
        (takeBytes n rest).bind fun q => some ((), q.2) := by
      simp only [itemOf]
      cases takeBytes n rest with
      | none => rfl
      | some q => simp [narrow]
    rw [htake]
    apply (take_makes n rest depth).andThen
    intro _ _ rest _
    exact .takes trivial
  case text =>
    have htext : ((itemOf (innerStep d) w n .text rest).bind fun p => if narrow p.1 then (some ()).map (·, p.2) else none) =
        (itemOf none w n .text rest).map fun p => ((), p.2) := by
      cases hi : itemOf (innerStep d) w n .text rest with
      | none =>
        have hi' : itemOf none w n .text rest = none := hi
        rw [hi']
        rfl
      | some p =>
        have hi' : itemOf none w n .text rest = some p := hi
        have hp := itemOf_major hi
        rw [hi']
        obtain ⟨i, tail⟩ := p
        cases i with
        | text w raw => simp [narrow]
        | unsigned | negative | bytes | array | map | bool => cases hp
    rw [htext]
    exact (text_makes w n rest depth).along (fun _ => ()) fun _ _ _ => trivial
  case array =>
    cases d with
    | zero => exact enter_refused (by omega)
    | succ d =>
      have hsplit : ((itemOf (innerStep (d + 1)) w n .array rest).bind fun p =>
          if narrow p.1 then (some ()).map (·, p.2) else none) =
          ((narrowMany d n rest).bind fun p => (foldItems (fun _ _ => some ()) p.1 ()).map (·, p.2)).bind some := by
        simp only [itemOf, innerStep, narrowMany, foldItems_pass, Option.bind_some]
        cases many (itemStep d) n rest with
        | none => rfl
        | some q => cases hq : narrowAll q.1 <;> simp [Option.filter, narrow, hq]
      rw [hsplit]
      apply enter_makes (by omega)
      apply (times_makes (R := fun _ _ => True) (fun _ _ _ => hinner d rfl) n rest (by omega) trivial).andThen
      intro _ _ rest _
      exact close_makes trivial
  case map =>
    cases d with
    | zero => exact enter_refused (by omega)
    | succ d =>
      have hsplit : ((itemOf (innerStep (d + 1)) w n .map rest).bind fun p =>
          if narrow p.1 then (some ()).map (·, p.2) else none) =
          ((narrowFresh d [] n rest).bind fun p => (foldPairs (fun _ _ _ => some ()) p.1 ()).map fun s =>
            ((p.1.length, s), p.2)).bind fun q => some ((), q.2) := by
        simp only [itemOf, innerStep, narrowFresh, Option.bind_some]
        cases pairsStep (itemStep d) [] n rest with
        | none => rfl
        | some q =>
          cases hq : narrowPairs q.1 with
          | false => simp [Option.filter, narrow, hq]
          | true => simp [Option.filter, narrow, hq, foldPairs_pass hq]
      rw [hsplit]
      apply enter_makes (by omega)
      apply (pairLoop_makes (R := fun _ _ _ => True) (fun _ _ _ _ _ _ => hinner d rfl) n rest
        (show depth + 1 + d = maxDepth by omega) nothing_seen trivial).andThen
      intro _ _ rest _
      exact close_makes trivial

theorem skip_reads (d : ℕ) : Reads d (fun _ _ => True) (skipAt d) (fun _ => some ()) := by
  induction d with
  | zero =>
    apply skipWith_reads
    intro e he
    cases he
  | succ d ih =>
    apply skipWith_reads
    rintro e ⟨⟩
    exact ih

/-- An item stepped over is one of the grammar with no key too wide, and nothing past it is looked at. -/
theorem skip_exact {r : CborReader} (hr : r.depth ≤ maxDepth) :
    (∀ r', skip r = .ok ((), r') ↔ r'.depth = r.depth ∧
      ∃ i, i.Legal (maxDepth - r.depth) ∧ narrow i = true ∧ r.rest = i.spelling ++ r'.rest) ∧
    ∀ why, skip r = .error why → sectionAnswer why = .malformedFrame := by
  obtain ⟨rest, depth⟩ := r
  have hmakes := skip_reads (maxDepth - depth) rest depth (by dsimp only at hr; omega)
  change Makes _ depth _ (skip ⟨rest, depth⟩) at hmakes
  generalize hread : (narrowStep (maxDepth - depth) rest).bind _ = read at hmakes
  generalize skip ⟨rest, depth⟩ = run at hmakes
  cases hmakes with
  | @takes _ _ tail _ =>
    obtain ⟨p, hstep, htail⟩ := Option.bind_eq_some_iff.mp hread
    obtain rfl : p.2 = tail := (Prod.mk.inj (Option.some.inj htail)).2
    refine ⟨fun r' => ⟨fun h => ?_, ?_⟩, fun why h => by cases h⟩
    · obtain rfl := (Prod.mk.inj (Except.ok.inj h)).2
      obtain ⟨⟨hlegal, hspell⟩, hnarrow⟩ := narrowStep_ok.mp (show _ = some (p.1, p.2) from hstep)
      exact ⟨rfl, p.1, hlegal, hnarrow, hspell⟩
    · rintro ⟨hdepth, i, hlegal, hnarrow, hspell⟩
      have hagain := hstep.symm.trans (narrowStep_ok.mpr ⟨⟨hlegal, hspell⟩, hnarrow⟩)
      obtain rfl := Option.some.inj hagain
      obtain ⟨rest', depth'⟩ := r'
      obtain rfl : depth' = depth := hdepth
      rfl
  | refuses hwhy =>
    refine ⟨fun r' => ⟨fun h => absurd h (by simp), ?_⟩, fun why h => ?_⟩
    · rintro ⟨-, i, hlegal, hnarrow, hspell⟩
      have hstep := narrowStep_ok.mpr ⟨⟨hlegal, hspell⟩, hnarrow⟩
      rw [hstep] at hread
      cases hread
    · obtain rfl := Except.error.inj h
      exact hwhy

theorem skip_exact_array : skip ⟨[0x81, 0x01, 0x07], 2⟩ = .ok ((), ⟨[0x07], 2⟩) :=
  ((skip_exact (r := ⟨[0x81, 0x01, 0x07], 2⟩) (by decide)).1 ⟨[0x07], 2⟩).mpr
    ⟨rfl, .array .inline [.unsigned .inline 1], ⟨by decide, List.forall_mem_singleton.mpr (by decide : (1 : ℕ) < 24)⟩, rfl, rfl⟩

end CborReader

end Km43.Ts
