import Km43.Cbor.Mirror

namespace Km43.Cbor

open Library Library.StepParser

inductive Scalar
  | u64
  | u32
  | u16
  | u8
  | i32
  | bool
  | bytes
  | text
  deriving DecidableEq

inductive ReaderCall
  | array
  | map
  | key
  | scalar (s : Scalar)
  | skip
  | raw
  deriving DecidableEq

inductive Plan
  | scalar (s : Scalar)
  | skip
  | raw
  | array (items : List Plan)
  | map (values : List Plan)

namespace Scalar

def read : Scalar → CborReader.Read CborError Unit
  | u64 => discard CborReader.u64
  | u32 => discard CborReader.u32
  | u16 => discard CborReader.u16
  | u8 => discard CborReader.u8
  | i32 => discard CborReader.i32
  | bool => discard CborReader.bool
  | bytes => discard CborReader.bytesValue
  | text => discard CborReader.text

def takes : Scalar → Item → Bool
  | u64, .unsigned .. => true
  | u32, .unsigned _ n => decide (n ≤ 0xFFFFFFFF)
  | u16, .unsigned _ n => decide (n ≤ 0xFFFF)
  | u8, .unsigned _ n => decide (n ≤ 0xFF)
  | i32, .unsigned _ n | i32, .negative _ n => decide (n ≤ 0x7FFFFFFF)
  | bool, .bool _ => true
  | bytes, .bytes .. => true
  | text, .text .. => true
  | _, _ => false

end Scalar

namespace ReaderCall

def run : ReaderCall → CborReader.Read CborError Unit
  | array => discard CborReader.array
  | map => discard CborReader.map
  | key => discard CborReader.key
  | scalar s => s.read
  | skip => CborReader.skip
  | raw => discard CborReader.raw

end ReaderCall

def askAll : List ReaderCall → CborReader.Read CborError Unit
  | [] => pure ()
  | call :: calls => do
    call.run
    askAll calls

def askTo (calls : List ReaderCall) (b : Bytes) : Except CborError Unit := do
  let (_, r) ← askAll calls (CborReader.new b)
  r.finish

namespace Plan

def passes : Plan → Bool
  | skip | raw => true
  | scalar _ | array _ | map _ => false

mutual
def calls : Plan → List ReaderCall
  | scalar s => [.scalar s]
  | skip => [.skip]
  | raw => [.raw]
  | array items => .array :: callsAll items
  | map values => .map :: callsPairs values
def callsAll : List Plan → List ReaderCall
  | [] => []
  | plan :: plans => plan.calls ++ callsAll plans
def callsPairs : List Plan → List ReaderCall
  | [] => []
  | plan :: plans => .key :: (plan.calls ++ callsPairs plans)
end

mutual
/-- Typed calls meet values of their types, keys are `i64`, and a loop runs as often as its container counts. -/
def fits : Plan → Item → Bool
  | scalar s, i => s.takes i
  | skip, _ | raw, _ => true
  | array plans, .array _ items => fitsAll plans items
  | map plans, .map _ pairs => fitsPairs plans pairs
  | array _, _ | map _, _ => false
def fitsAll : List Plan → List Item → Bool
  | [], [] => true
  | plan :: plans, i :: items => plan.fits i && fitsAll plans items
  | _, _ => false
def fitsPairs : List Plan → List (Key × Item) → Bool
  | [], [] => true
  | plan :: plans, (k, v) :: pairs => k.i64?.isSome && (plan.fits v && fitsPairs plans pairs)
  | _, _ => false
end

mutual
/-- The calls that leave a repeated key unread, `again` telling whether the value's own key is one. -/
def marks (again : Bool) : Plan → Item → List Bool
  | scalar _, _ => [false]
  | skip, i | raw, i => [again || i.repeats]
  | array plans, .array _ items => false :: marksAll plans items
  | map plans, .map _ pairs => false :: marksPairs [] plans pairs
  | array _, _ | map _, _ => []
def marksAll : List Plan → List Item → List Bool
  | plan :: plans, i :: items => plan.marks false i ++ marksAll plans items
  | _, _ => []
def marksPairs (seen : List KeyRank) : List Plan → List (Key × Item) → List Bool
  | plan :: plans, (k, v) :: pairs =>
    false :: (plan.marks (decide (k.rank ∈ seen)) v ++ marksPairs (seen ++ [k.rank]) plans pairs)
  | _, _ => []
end

/-- A value is left unread whose key an earlier pair of its map carries, or inside which a map repeats one. -/
inductive Meets : Plan → Item → Prop
  | inside {plan : Plan} {i : Item} (hpass : plan.passes = true) (hrepeats : i.repeats = true) : Meets plan i
  | again {plans : List Plan} {w : Width} {pairs : List (Key × Item)} {j : ℕ} {plan : Plan} {k : Key} {v : Item}
      (hplan : plans[j]? = some plan) (hpair : pairs[j]? = some (k, v)) (hpass : plan.passes = true)
      (hearlier : k.rank ∈ ranks (pairs.take j)) : Meets (.map plans) (.map w pairs)
  | value {plans : List Plan} {w : Width} {pairs : List (Key × Item)} {j : ℕ} {plan : Plan} {k : Key} {v : Item}
      (hplan : plans[j]? = some plan) (hpair : pairs[j]? = some (k, v)) (hvalue : Meets plan v) :
      Meets (.map plans) (.map w pairs)
  | item {plans : List Plan} {w : Width} {items : List Item} {j : ℕ} {plan : Plan} {v : Item}
      (hplan : plans[j]? = some plan) (hitem : items[j]? = some v) (hvalue : Meets plan v) :
      Meets (.array plans) (.array w items)

end Plan

namespace Plan

theorem meets_passed (plan : Plan) {i : Item} (h : plan.passes = true) : plan.Meets i ↔ i.repeats = true := by
  constructor
  · intro hmeets
    cases hmeets with
    | inside _ hrepeats => exact hrepeats
    | again | value | item => cases h
  · exact .inside h

theorem meets_scalar {s : Scalar} {i : Item} : ¬(scalar s).Meets i := by
  intro hmeets
  cases hmeets with
  | inside hpass _ => cases hpass

theorem meets_array {plans : List Plan} {w : Width} {items : List Item} : (array plans).Meets (.array w items) ↔
    ∃ (j : ℕ) (plan : Plan) (v : Item), plans[j]? = some plan ∧ items[j]? = some v ∧ plan.Meets v := by
  constructor
  · intro hmeets
    cases hmeets with
    | inside hpass _ => cases hpass
    | item hplan hitem hvalue => exact ⟨_, _, _, hplan, hitem, hvalue⟩
  · rintro ⟨j, plan, v, hplan, hitem, hvalue⟩
    exact .item hplan hitem hvalue

theorem meets_map {plans : List Plan} {w : Width} {pairs : List (Key × Item)} : (map plans).Meets (.map w pairs) ↔
    ∃ (j : ℕ) (plan : Plan) (k : Key) (v : Item), plans[j]? = some plan ∧ pairs[j]? = some (k, v) ∧
      ((plan.passes = true ∧ k.rank ∈ ranks (pairs.take j)) ∨ plan.Meets v) := by
  constructor
  · intro hmeets
    cases hmeets with
    | inside hpass _ => cases hpass
    | again hplan hpair hpass hearlier => exact ⟨_, _, _, _, hplan, hpair, .inl ⟨hpass, hearlier⟩⟩
    | value hplan hpair hvalue => exact ⟨_, _, _, _, hplan, hpair, .inr hvalue⟩
  · rintro ⟨j, plan, k, v, hplan, hpair, ⟨hpass, hearlier⟩ | hvalue⟩
    · exact .again hplan hpair hpass hearlier
    · exact .value hplan hpair hvalue

mutual
theorem marks_iff : ∀ (plan : Plan) (again : Bool) (i : Item), plan.fits i = true →
    (true ∈ plan.marks again i ↔ (plan.passes = true ∧ again = true) ∨ plan.Meets i)
  | scalar s, again, i, _ => by simp [marks, passes, meets_scalar]
  | skip, again, i, _ => by simp [marks, passes, meets_passed skip rfl]
  | raw, again, i, _ => by simp [marks, passes, meets_passed raw rfl]
  | array plans, again, i, h => by
    cases i with
    | array w items =>
      rw [meets_array, ← marksAll_iff plans items (by simpa only [fits] using h)]
      simp [marks, passes]
    | unsigned | negative | bytes | text | map | bool => simp [fits] at h
  | map plans, again, i, h => by
    cases i with
    | map w pairs =>
      have hpairs := marksPairs_iff plans pairs [] (by simpa only [fits] using h)
      simp only [List.nil_append] at hpairs
      rw [meets_map, ← hpairs]
      simp [marks, passes]
    | unsigned | negative | bytes | text | array | bool => simp [fits] at h

theorem marksAll_iff : ∀ (plans : List Plan) (items : List Item), fitsAll plans items = true →
    (true ∈ marksAll plans items ↔
      ∃ (j : ℕ) (plan : Plan) (v : Item), plans[j]? = some plan ∧ items[j]? = some v ∧ plan.Meets v)
  | [], items, _ => by simp [marksAll]
  | plan :: plans, [], h => by simp [fitsAll] at h
  | plan :: plans, i :: items, h => by
    simp only [fitsAll, Bool.and_eq_true] at h
    rw [marksAll, List.mem_append, marks_iff plan false i h.1, marksAll_iff plans items h.2]
    constructor
    · rintro (hfirst | ⟨j, p, v, hp, hv, hm⟩)
      · exact ⟨0, plan, i, rfl, rfl, by simpa using hfirst⟩
      · exact ⟨j + 1, p, v, hp, hv, hm⟩
    · rintro ⟨j, p, v, hp, hv, hm⟩
      cases j with
      | zero =>
        obtain rfl := Option.some.inj hp
        obtain rfl := Option.some.inj hv
        exact .inl (.inr hm)
      | succ j => exact .inr ⟨j, p, v, hp, hv, hm⟩

theorem marksPairs_iff : ∀ (plans : List Plan) (pairs : List (Key × Item)) (seen : List KeyRank),
    fitsPairs plans pairs = true → (true ∈ marksPairs seen plans pairs ↔
      ∃ (j : ℕ) (plan : Plan) (k : Key) (v : Item), plans[j]? = some plan ∧ pairs[j]? = some (k, v) ∧
        ((plan.passes = true ∧ k.rank ∈ seen ++ ranks (pairs.take j)) ∨ plan.Meets v))
  | [], pairs, seen, _ => by simp [marksPairs]
  | plan :: plans, [], seen, h => by simp [fitsPairs] at h
  | plan :: plans, (k, v) :: pairs, seen, h => by
    simp only [fitsPairs, Bool.and_eq_true] at h
    rw [marksPairs, List.mem_cons, List.mem_append, marks_iff plan _ v h.2.1, marksPairs_iff plans pairs _ h.2.2]
    constructor
    · rintro (hfalse | hfirst | ⟨j, p, k', v', hp, hv, hm⟩)
      · cases hfalse
      · exact ⟨0, plan, k, v, rfl, rfl, by simpa [ranks] using hfirst⟩
      · exact ⟨j + 1, p, k', v', hp, hv, by simpa [ranks] using hm⟩
    · rintro ⟨j, p, k', v', hp, hv, hm⟩
      cases j with
      | zero =>
        obtain rfl := Option.some.inj hp
        obtain ⟨rfl, rfl⟩ := Prod.mk.inj (Option.some.inj hv)
        exact .inr (.inl (by simpa [ranks] using hm))
      | succ j => exact .inr (.inr ⟨j, p, k', v', hp, hv, by simpa [ranks] using hm⟩)
end

end Plan

namespace CborReader

variable {α : Type} {d : ℕ} {r r' : CborReader}

theorem discard_map (m : Read CborError α) : (discard m : Read CborError Unit) = (fun _ => ()) <$> m := rfl

/-- The last key it left unread was a repeat, which its next call finds. -/
structure Warned (r : CborReader) : Prop where
  walking : r.walking = false
  repeated : r.settleSkipped = .error .repeatedKey

def Calm (r : CborReader) : Prop := r.settleSkipped = .ok { r with skipped := none }

theorem Warned.head (h : r.Warned) : head r = .error .repeatedKey := by
  have hbefore : r.beforeHead search = .error .repeatedKey := by
    rw [beforeHead, if_neg (by simp [h.walking])]
    exact h.repeated
  rw [CborReader.head, headBy, hbefore]
  rfl

theorem Warned.skip (h : r.Warned) : skip r = .error .repeatedKey := by
  have hsettle : r.settleSkippedBy search = .error .repeatedKey := h.repeated
  rw [CborReader.skip, skipBy, hsettle]
  rfl

theorem Warned.run (h : r.Warned) (call : ReaderCall) : call.run r = .error .repeatedKey := by
  cases call with
  | array | map | key =>
    simp only [ReaderCall.run, discard_map, map_eq_pure_bind, CborReader.array, CborReader.map, CborReader.key, bind_apply, h.head]
  | scalar s =>
    cases s <;>
    simp only [ReaderCall.run, Scalar.read, discard_map, u64, u32, u16, u8, i32, CborReader.bool, bytesValue, text,
      unsignedTo, unsigned, map_eq_pure_bind, bind_apply, h.head]
  | skip => exact h.skip
  | raw =>
    simp only [ReaderCall.run, discard_map, map_eq_pure_bind, bind_apply, CborReader.raw, h.skip]
    rfl

theorem Warned.finish (h : r.Warned) : r.finish = .error .repeatedKey := by
  rw [CborReader.finish, h.repeated]
  rfl

theorem Calm.finish (h : r.Calm) : r.finish ≠ .error .repeatedKey := by
  rw [CborReader.finish, h]
  simp only [bind, Except.bind]
  split_ifs <;> simp

/-- The calls run as they are marked: an unmarked one passes, at a marked one or right after it the reader refuses. -/
inductive Follows (last : CborReader → Prop) : List ReaderCall → List Bool → CborReader → Prop
  | done {r : CborReader} (hlast : last r) : Follows last [] [] r
  | passed {call : ReaderCall} {calls : List ReaderCall} {marks : List Bool} {r r' : CborReader}
      (hok : call.run r = .ok ((), r')) (hcalm : r'.Calm) (hnext : Follows last calls marks r') :
      Follows last (call :: calls) (false :: marks) r
  | warned {call : ReaderCall} {calls : List ReaderCall} {marks : List Bool} {r r' : CborReader}
      (hok : call.run r = .ok ((), r')) (hwarned : r'.Warned) : Follows last (call :: calls) (true :: marks) r
  | refused {call : ReaderCall} {calls : List ReaderCall} {marks : List Bool} {r : CborReader}
      (herror : call.run r = .error .repeatedKey) : Follows last (call :: calls) (true :: marks) r

section

variable {last last' : CborReader → Prop} {calls calls' : List ReaderCall} {marks marks' : List Bool}

theorem Follows.append (h : Follows last calls marks r) (hnext : ∀ r', last r' → Follows last' calls' marks' r') :
    Follows last' (calls ++ calls') (marks ++ marks') r := by
  induction h with
  | done hlast => exact hnext _ hlast
  | passed hok hcalm _ ih => exact .passed hok hcalm ih
  | warned hok hwarned => exact .warned hok hwarned
  | refused herror => exact .refused herror

theorem Follows.imp (h : Follows last calls marks r) (himp : ∀ r', last r' → last' r') :
    Follows last' calls marks r := by
  have h' : Follows last' (calls ++ []) (marks ++ []) r := h.append fun r' hr' => .done (himp r' hr')
  simpa using h'

theorem askAll_cons {call : ReaderCall} (hok : call.run r = .ok ((), r')) :
    askAll (call :: calls) r = askAll calls r' := by
  rw [askAll, bind_apply, hok]

theorem askAll_error {call : ReaderCall} {why : CborError} (herror : call.run r = .error why) :
    askAll (call :: calls) r = .error why := by
  rw [askAll, bind_apply, herror]

theorem Warned.askAll (h : r.Warned) (call : ReaderCall) (calls : List ReaderCall) :
    askAll (call :: calls) r = .error .repeatedKey := askAll_error (h.run call)

def Reported (calls : List ReaderCall) (r : CborReader) : Prop :=
  (∀ call, askAll (calls ++ [call]) r = .error .repeatedKey) ∧
    (do let (_, r') ← askAll calls r; r'.finish) = .error .repeatedKey

theorem Reported.cons {call : ReaderCall} (hok : call.run r = .ok ((), r')) (h : Reported calls r') :
    Reported (call :: calls) r := by
  refine ⟨fun next => ?_, ?_⟩
  · rw [List.cons_append, askAll_cons hok]
    exact h.1 next
  · rw [askAll_cons hok]
    exact h.2

theorem Reported.error {call : ReaderCall} (herror : call.run r = .error .repeatedKey) :
    Reported (call :: calls) r := by
  refine ⟨fun next => askAll_error herror, ?_⟩
  rw [askAll_error herror]
  rfl

theorem Warned.reported (h : r.Warned) (calls : List ReaderCall) : Reported calls r := by
  cases calls with
  | nil => exact ⟨fun next => h.askAll next [], h.finish⟩
  | cons call calls => exact .error (h.run call)

theorem Follows.reported (h : Follows last calls marks r) (n : ℕ) (hm : true ∈ marks.take n) :
    Reported (calls.take n) r := by
  induction h generalizing n with
  | done _ => simp at hm
  | passed hok _ _ ih =>
    cases n with
    | zero => simp at hm
    | succ n => exact .cons hok (ih n (by simpa using hm))
  | warned hok hwarned =>
    cases n with
    | zero => simp at hm
    | succ n => exact .cons hok (hwarned.reported _)
  | refused herror =>
    cases n with
    | zero => simp at hm
    | succ n => exact .error herror

theorem Follows.quiet (h : Follows last calls marks r) (hr : r.Calm) (n : ℕ) (hm : true ∉ marks.take n) :
    ∃ r', askAll (calls.take n) r = .ok ((), r') ∧ r'.Calm := by
  induction h generalizing n with
  | done _ => exact ⟨_, by simp [askAll]; rfl, hr⟩
  | passed hok hcalm _ ih =>
    cases n with
    | zero => exact ⟨_, rfl, hr⟩
    | succ n =>
      obtain ⟨r', hrun, hr'⟩ := ih hcalm n (by simpa using hm)
      exact ⟨r', by rw [List.take_succ_cons, askAll_cons hok, hrun], hr'⟩
  | warned _ _ | refused _ =>
    cases n with
    | zero => exact ⟨_, rfl, hr⟩
    | succ n => exact absurd (by simp) hm

theorem Follows.whole (h : Follows last calls marks r) (hm : true ∉ marks) :
    ∃ r', askAll calls r = .ok ((), r') ∧ last r' := by
  induction h with
  | done hlast => exact ⟨_, rfl, hlast⟩
  | passed hok _ _ ih =>
    obtain ⟨r', hrun, hr'⟩ := ih (by simpa using hm)
    exact ⟨r', by rw [askAll_cons hok, hrun], hr'⟩
  | warned _ _ | refused _ => simp at hm

end

def Due (r : CborReader) (again : Bool) : Prop :=
  match r.unsettled with
  | none => again = false
  | some u => search r.bytes u = if again = true then .error .repeatedKey else .ok ()

theorem scalar_past {s : Scalar} {i : Item} {tail : Bytes} (hr : r.Ready d) (hi : i.Formed d)
    (htakes : s.takes i = true) (hrest : r.rest = i.spelling ++ tail) :
    ∃ r', s.read r = .ok ((), r') ∧ Past r r' i.spelling.length := by
  have hlegal : i.Legal d := by
    refine Item.legal_iff_formed.mpr ⟨hi, ?_⟩
    cases i with
    | unsigned | negative | bytes | text | bool => rfl
    | array | map => cases s <;> cases htakes
  have hbad : ∀ why : CborError, (fun _ : CborError => True) (FromCbor.cbor why) := fun _ => trivial
  cases s <;> cases i <;> first | cases htakes | skip
  case u64.unsigned w n => exact map_takes _ (.u64 hbad) hr hlegal hrest rfl
  case u32.unsigned w n =>
    have hn : (Item.unsigned w n).uint 0xFFFFFFFF = some n := if_pos (of_decide_eq_true htakes)
    exact map_takes _ (.u32 hbad) hr hlegal hrest (by rw [hn]; rfl)
  case u16.unsigned w n =>
    have hn : (Item.unsigned w n).uint 0xFFFF = some n := if_pos (of_decide_eq_true htakes)
    exact map_takes _ (.u16 hbad) hr hlegal hrest (by rw [hn]; rfl)
  case u8.unsigned w n =>
    have hn : (Item.unsigned w n).uint 0xFF = some n := if_pos (of_decide_eq_true htakes)
    exact map_takes _ (.u8 hbad) hr hlegal hrest (by rw [hn]; rfl)
  case i32.unsigned w n =>
    have hn : headI32 (.unsigned n) = .ok (Int32.ofInt n) := if_pos (of_decide_eq_true htakes)
    exact map_takes _ (.i32 hbad) hr hlegal hrest (by simp only [Item.leaf?, Option.bind_some, hn]; rfl)
  case i32.negative w n =>
    have hle : n ≤ 0x7FFFFFFF := of_decide_eq_true htakes
    have hn : headI32 (.negative n) = .ok (Int32.ofInt (-1 - n)) := by
      rw [headI32, negative, if_pos (by unfold i64Max; omega)]
      simp only [bind, Except.bind]
      rw [if_pos (by omega)]
    exact map_takes _ (.i32 hbad) hr hlegal hrest (by simp only [Item.leaf?, Option.bind_some, hn]; rfl)
  case bool.bool value => exact map_takes _ (.bool hbad) hr hlegal hrest rfl
  case bytes.bytes w raw => exact map_takes _ (.bytesValue hbad) hr hlegal hrest rfl
  case text.text w raw => exact map_takes _ (.text hbad) hr hlegal hrest rfl

theorem skip_follows {i : Item} {tail : Bytes} {again : Bool} (hr : r.Ready d) (hdue : r.Due again)
    (hi : i.Formed d) (hrest : r.rest = i.spelling ++ tail) :
    Follows (Past r · i.spelling.length) [.skip] [again || i.repeats] r := by
  cases hrepeats : i.repeats with
  | true =>
    rw [Bool.or_true]
    exact .refused (hr.skip_repeated hi hrest hrepeats)
  | false =>
    have hskip := hr.skip
    rw [hrest, (itemStep_exact d).read (Item.legal_iff_formed.mpr ⟨hi, hrepeats⟩) tail] at hskip
    obtain ⟨r', hok, hb, hn, hw, hc, hwalk, hdeep, hu, hsk, hst⟩ := hskip
    rw [Bool.or_false]
    cases again with
    | true =>
      cases hun : r.unsettled with
      | none => simp [Due, hun] at hdue
      | some u =>
        simp only [Due, hun, if_true] at hdue
        refine .warned hok ⟨hwalk, ?_⟩
        rw [settleSkipped_some (hsk.trans hun), hb, hdue]
        rfl
    | false =>
      have hcalm : r'.Calm := by
        cases hun : r.unsettled with
        | none => exact settleSkipped_none (hsk.trans hun)
        | some u =>
          simp only [Due, hun, Bool.false_eq_true, if_false] at hdue
          rw [Calm, settleSkipped_some (hsk.trans hun), hb, hdue]
          rfl
      exact .passed hok hcalm (.done ⟨hb, hn, ⟨hw, hc, hwalk, hdeep, hcalm⟩, hu, hst⟩)

theorem raw_run (hr : r.Ready d) : ReaderCall.raw.run r = CborReader.skip r := by
  have hraw : CborReader.raw r = passing id r := by
    rw [← hr.raw_passing, ask_cbor]
  rw [ReaderCall.run, discard_map, map_eq_pure_bind, bind_apply, hraw, passing]
  cases CborReader.skip r <;> rfl

theorem Follows.instead {last : CborReader → Prop} {call call' : ReaderCall} {mark : Bool}
    (h : Follows last [call] [mark] r) (hrun : call'.run r = call.run r) : Follows last [call'] [mark] r := by
  cases h with
  | passed hok hcalm hnext => exact .passed (hrun.trans hok) hcalm hnext
  | warned hok hwarned => exact .warned (hrun.trans hok) hwarned
  | refused herror => exact .refused (hrun.trans herror)

/-- `r'` is `r` past the rest of a container, over whose end only `base` is open. -/
structure Left (base : List Open) (length : ℕ) (r r' : CborReader) : Prop where
  bytes : r'.bytes = r.bytes
  next : r'.next = r.next + length
  live : r'.Live
  unsettled : r'.unsettled = none
  stack : r'.stack = base.dropWhile (·.remaining == 0)

/-- Where a map's pairs are read, the earlier ones free to repeat their keys. -/
structure AtKeys (d n : ℕ) (r : CborReader) (level : Open) (base : List Open) (done : List (Key × Item)) : Prop where
  live : r.Live
  unsettled : r.unsettled = none
  stack : r.stack = (level :: base).dropWhile (·.remaining == 0)
  kind : level.kind = .map
  remaining : level.remaining = n * 2
  levels : base.length + 1 + d = maxDepth
  keys : KeysPast r.bytes r.next level done

/-- Whatever is asked of a value, the calls run as they are marked and leave the reader past it. -/
def Runs (d : ℕ) : Prop :=
  ∀ (plan : Plan) (r : CborReader) (i : Item) (tail : Bytes) (again : Bool), r.Ready d → r.Due again →
    i.Formed d → plan.fits i = true → r.rest = i.spelling ++ tail →
    Follows (Past r · i.spelling.length) plan.calls (plan.marks again i) r

theorem due_none (h : r.unsettled = none) : r.Due false := by
  rw [Due, h]

theorem Runs.items (hd : Runs d) (plans : List Plan) :
    ∀ (items : List Item) (r : CborReader) (level : Open) (base : List Open) (tail : Bytes),
      AtItems d items.length r level base → (∀ i ∈ items, i.Formed d) → Plan.fitsAll plans items = true →
      r.rest = Item.spellAll items ++ tail →
      Follows (Left base (Item.spellAll items).length r) (Plan.callsAll plans) (Plan.marksAll plans items) r := by
  induction plans with
  | nil =>
    intro items r level base tail hat _ hfits _
    cases items with
    | cons => simp [Plan.fitsAll] at hfits
    | nil =>
      refine .done ⟨rfl, rfl, hat.live, hat.unsettled, ?_⟩
      rw [hat.stack, List.dropWhile_cons_of_pos (by simp [hat.remaining])]
  | cons plan plans ih =>
    intro items r level base tail hat hitems hfits hrest
    cases items with
    | nil => simp [Plan.fitsAll] at hfits
    | cons i items =>
      simp only [Plan.fitsAll, Bool.and_eq_true] at hfits
      rw [Item.spellAll, List.append_assoc] at hrest
      have hfirst := hd plan r i _ false hat.ready (due_none hat.unsettled) (hitems i (by simp)) hfits.1 hrest
      refine hfirst.append fun r' hpast => ?_
      have hrec := ih items r' _ base tail (hat.past hpast) (fun j hj => hitems j (List.mem_cons_of_mem _ hj)) hfits.2
        (hpast.rest hrest)
      refine hrec.imp fun r'' hleft => ⟨hleft.bytes.trans hpast.bytes, ?_, hleft.live, hleft.unsettled, hleft.stack⟩
      rw [hleft.next, hpast.next, Item.spellAll, List.length_append, Nat.add_assoc]

theorem AtKeys.owing {n : ℕ} {level : Open} {base : List Open} {done : List (Key × Item)}
    (h : AtKeys d (n + 1) r level base done) : r.stack = level :: base := by
  rw [h.stack, List.dropWhile_cons_of_neg (by simp [h.remaining])]

theorem AtKeys.key {n : ℕ} {level : Open} {base : List Open} {done : List (Key × Item)} {k : Key} {tail : Bytes}
    (h : AtKeys d (n + 1) r level base done) (hk : k.Legal) (hz : k.i64?.isSome = true)
    (hrest : r.rest = k.spelling ++ tail) :
    ∃ last u, Greatest last (ranks done ++ [k.rank]) ∧ ReaderCall.key.run r = .ok ((), r.atValue level base n k last u) ∧
      (r.atValue level base n k last u).Due (decide (k.rank ∈ ranks done)) := by
  have hks : keyStep r.rest = some (k, tail) := (keyStep_exact _ _ _).mpr ⟨hk, hrest⟩
  obtain ⟨last, u, hread, hgreatest, hu⟩ :=
    Nest.readKey_eq (n := r.nest.settle) h.owing h.keys.greatest k.rank r.next
  have hkey := h.live.key_noted h.owing h.kind h.remaining hks hread
  obtain ⟨z, hz⟩ := Option.isSome_iff_exists.mp hz
  rw [hz] at hkey
  refine ⟨last, u, hgreatest, map_ok _ hkey, ?_⟩
  have hunsettled : (r.atValue level base n k last u).unsettled = u := rfl
  obtain ⟨rfl, hfresh⟩ | rfl := hu
  · rw [Due, hunsettled]
    exact decide_eq_false hfresh
  · have hsearch := search_seeks r.bytes k.rank level.start r.next done h.keys.read h.keys.formed
    have hbytes : (r.atValue level base n k last (some ⟨k.rank, level.start, r.next⟩)).bytes = r.bytes := rfl
    rw [Due, hunsettled, hbytes]
    simpa only [decide_eq_true_eq] using hsearch

theorem AtKeys.past {n : ℕ} {level : Open} {base : List Open} {done : List (Key × Item)} {k : Key} {v : Item}
    {tail : Bytes} {last : Option KeyRank} {u : Option Unsettled} (h : AtKeys d (n + 1) r level base done)
    (hk : k.Legal) (hv : v.Formed d) (hrest : r.rest = k.spelling ++ (v.spelling ++ tail))
    (hlast : Greatest last (ranks done ++ [k.rank]))
    (hpast : Past (r.atValue level base n k last u) r' v.spelling.length) :
    AtKeys d n r' { level with remaining := n * 2, lastKey := last } base (done ++ [(k, v)]) := by
  have hlevels := h.levels
  have hbytes : r'.bytes = r.bytes := hpast.bytes
  have hnext : r'.next = r.next + k.spelling.length + v.spelling.length := hpast.next
  refine ⟨hpast.live, hpast.unsettled, hpast.value_stack, h.kind, rfl, h.levels, ?_⟩
  rw [hbytes, hnext]
  refine h.keys.snoc hk (hv.mono (by omega)) hlast ⟨tail, ?_⟩
  rw [show r.bytes.drop r.next = r.rest from rfl, hrest, List.append_assoc]

theorem Runs.pairs (hd : Runs d) (plans : List Plan) :
    ∀ (pairs : List (Key × Item)) (r : CborReader) (level : Open) (base : List Open) (done : List (Key × Item))
      (tail : Bytes), AtKeys d pairs.length r level base done → FormedPairs d pairs →
      Plan.fitsPairs plans pairs = true → r.rest = Item.spellPairs pairs ++ tail →
      Follows (Left base (Item.spellPairs pairs).length r) (Plan.callsPairs plans)
        (Plan.marksPairs (ranks done) plans pairs) r := by
  induction plans with
  | nil =>
    intro pairs r level base done tail hat _ hfits _
    cases pairs with
    | cons => simp [Plan.fitsPairs] at hfits
    | nil =>
      refine .done ⟨rfl, rfl, hat.live, hat.unsettled, ?_⟩
      rw [hat.stack, List.dropWhile_cons_of_pos (by simp [hat.remaining])]
  | cons plan plans ih =>
    intro pairs r level base done tail hat hpairs hfits hrest
    cases pairs with
    | nil => simp [Plan.fitsPairs] at hfits
    | cons p pairs =>
      obtain ⟨k, v⟩ := p
      obtain ⟨hkl, hvf⟩ := hpairs (k, v) (by simp)
      simp only [Plan.fitsPairs, Bool.and_eq_true] at hfits
      rw [Item.spellPairs, List.append_assoc, List.append_assoc] at hrest
      obtain ⟨last, u, hgreatest, hkey, hdue⟩ := hat.key hkl hfits.1 hrest
      have hready := hat.live.ready_value (n := pairs.length) hat.owing hat.levels (k := k) (by simp [hrest]) last u
      have hvalue : (r.atValue level base pairs.length k last u).rest = v.spelling ++ (Item.spellPairs pairs ++ tail) :=
        atValue_rest ((keyStep_exact _ _ _).mpr ⟨hkl, hrest⟩) last u
      have hfirst := hd plan _ v _ _ hready hdue hvf hfits.2.1 hvalue
      refine .passed hkey hready.live.calm (hfirst.append fun r' hpast => ?_)
      have hrec := ih pairs r' _ base (done ++ [(k, v)]) tail (hat.past hkl hvf hrest hgreatest hpast)
        (fun q hq => hpairs q (List.mem_cons_of_mem _ hq)) hfits.2.2 (hpast.rest hvalue)
      have hranks : ranks (done ++ [(k, v)]) = ranks done ++ [k.rank] := by simp [ranks]
      rw [hranks] at hrec
      have hbytes : r'.bytes = r.bytes := hpast.bytes
      have hnext : r'.next = r.next + k.spelling.length + v.spelling.length := hpast.next
      refine hrec.imp fun r'' hleft => ⟨hleft.bytes.trans hbytes, ?_, hleft.live, hleft.unsettled, hleft.stack⟩
      rw [hleft.next, hnext, Item.spellPairs, List.length_append, List.length_append]
      omega

theorem Left.box {kind : Nesting} {head length items : ℕ}
    (h : Left r.nest.settle.countItem.opened length (r.inside head kind items) r') : Past r r' (head + length) := by
  refine ⟨h.bytes, ?_, h.live, h.unsettled, h.stack⟩
  rw [h.next, ← Nat.add_assoc]
  rfl

theorem runs (d : ℕ) : Runs d := by
  induction d with
  | zero =>
    intro plan r i tail again hr hdue hi hfits hrest
    cases plan with
    | scalar s =>
      obtain ⟨r', hok, hpast⟩ := scalar_past hr hi hfits hrest
      exact .passed hok hpast.live.calm (.done hpast)
    | skip => exact skip_follows hr hdue hi hrest
    | raw => exact (skip_follows hr hdue hi hrest).instead (raw_run hr)
    | array plans | map plans => cases i <;> first | exact hi.elim | simp [Plan.fits] at hfits
  | succ d ih =>
    intro plan r i tail again hr hdue hi hfits hrest
    cases plan with
    | scalar s =>
      obtain ⟨r', hok, hpast⟩ := scalar_past hr hi hfits hrest
      exact .passed hok hpast.live.calm (.done hpast)
    | skip => exact skip_follows hr hdue hi hrest
    | raw => exact (skip_follows hr hdue hi hrest).instead (raw_run hr)
    | array plans =>
      cases i with
      | array w items =>
        rw [Plan.fits] at hfits
        rw [Item.spelling, List.append_assoc] at hrest
        have ht : tokenStep r.rest = some (Nesting.array.token w items.length, Item.spellAll items ++ tail) := by
          rw [hrest]
          exact tokenStep_exact.read (x := .array w items.length) hi.1 _
        have hroom : items.length * Nesting.array.per ≤ (Item.spellAll items ++ tail).length := by
          have hle := length_le_flatMap spelling_pos items
          rw [Item.spellAll_eq, List.length_append, Nesting.per]
          omega
        have hbox := hr.box_ok ht hroom
        have hlength : (Token.array w items.length).spelling.length ≤ r.rest.length := by simp [hrest]
        have hat := hr.at_items hlength items.length
        have hloop := ih.items plans items _ _ _ tail hat hi.2 hfits (inside_rest hrest rfl _ _)
        refine .passed (map_ok _ hbox) hat.live.calm (hloop.imp fun r' hleft => ?_)
        rw [Item.spelling, List.length_append]
        exact hleft.box
      | unsigned | negative | bytes | text | map | bool => simp [Plan.fits] at hfits
    | map plans =>
      cases i with
      | map w pairs =>
        rw [Plan.fits] at hfits
        rw [Item.spelling, List.append_assoc] at hrest
        have ht : tokenStep r.rest = some (Nesting.map.token w pairs.length, Item.spellPairs pairs ++ tail) := by
          rw [hrest]
          exact tokenStep_exact.read (x := .map w pairs.length) hi.1 _
        have hroom : pairs.length * Nesting.map.per ≤ (Item.spellPairs pairs ++ tail).length := by
          have hle := length_le_flatMap pair_pos pairs
          rw [Item.spellPairs_eq, List.length_append, Nesting.per]
          omega
        have hbox := hr.box_ok ht hroom
        have hlength : (Token.map w pairs.length).spelling.length ≤ r.rest.length := by simp [hrest]
        have hat := hr.at_pairs hlength pairs.length
        have hkeys : AtKeys d pairs.length _ _ _ [] :=
          ⟨hat.live, hat.unsettled, hat.stack, hat.kind, hat.remaining, hat.levels, .empty (hr.counted_within hlength)⟩
        have hloop := ih.pairs plans pairs _ _ _ [] tail hkeys hi.2 hfits (inside_rest hrest rfl _ _)
        refine .passed (map_ok _ hbox) hat.live.calm (hloop.imp fun r' hleft => ?_)
        rw [Item.spelling, List.length_append]
        exact hleft.box
      | unsigned | negative | bytes | text | array | bool => simp [Plan.fits] at hfits

theorem plan_follows (plan : Plan) {i : Item} (hi : i.Formed maxDepth) (hfits : plan.fits i = true) (tail : Bytes) :
    Follows (Past (new (i.spelling ++ tail)) · i.spelling.length) plan.calls (plan.marks false i)
      (new (i.spelling ++ tail)) :=
  runs maxDepth plan _ i tail false (ready_new _) (due_none rfl) hi hfits rfl

theorem finish_past {b : Bytes} {length : ℕ} (h : Past (new b) r' length) (hlength : length = b.length) :
    r'.finish = .ok () := by
  have hdepth : r'.nest.settle.depth = 0 := congrArg List.length h.stack
  have hnext : r'.next = b.length := by
    rw [h.next, hlength]
    exact Nat.zero_add _
  have hbytes : r'.bytes = b := h.bytes
  rw [CborReader.finish, h.live.calm]
  simp [bind, Except.bind, settled, hdepth, hnext, hbytes]

/-- The reader reports a repeated key exactly where one is left unread: at once, or at its next call. -/
theorem repeated_key_reported (plan : Plan) {i : Item} (hi : i.Formed maxDepth) (hfits : plan.fits i = true)
    (tail : Bytes) :
    (askTo plan.calls (i.spelling ++ tail) = .error .repeatedKey ↔ plan.Meets i) ∧
    (¬plan.Meets i → askTo plan.calls i.spelling = .ok ()) ∧
    ∀ n, (true ∈ (plan.marks false i).take n → Reported (plan.calls.take n) (new (i.spelling ++ tail))) ∧
      (true ∉ (plan.marks false i).take n →
        ∃ r, askAll (plan.calls.take n) (new (i.spelling ++ tail)) = .ok ((), r) ∧ r.finish ≠ .error .repeatedKey) := by
  have hmarks : true ∈ plan.marks false i ↔ plan.Meets i := by simpa using Plan.marks_iff plan false i hfits
  have hfollows := plan_follows plan hi hfits
  have hcalm : ∀ b, (new b).Calm := fun b => (ready_new b).live.calm
  refine ⟨⟨fun h => ?_, fun h => ?_⟩, fun h => ?_, fun n => ⟨fun h => ?_, fun h => ?_⟩⟩
  · rw [← hmarks]
    by_contra hno
    obtain ⟨r, hrun, hpast⟩ := (hfollows tail).whole hno
    have hfinish : askTo plan.calls (i.spelling ++ tail) = r.finish := by rw [askTo, hrun]; rfl
    exact Calm.finish hpast.live.calm (hfinish.symm.trans h)
  · have hall := (hfollows tail).reported (max (plan.marks false i).length plan.calls.length)
    rw [List.take_of_length_le (le_max_left _ _), List.take_of_length_le (le_max_right _ _)] at hall
    exact (hall (hmarks.mpr h)).2
  · obtain ⟨r, hrun, hpast⟩ := (hfollows []).whole (hmarks.not.mpr h)
    rw [List.append_nil] at hrun hpast
    rw [askTo, hrun]
    exact finish_past hpast rfl
  · exact (hfollows tail).reported n h
  · obtain ⟨r, hrun, hr⟩ := (hfollows tail).quiet (hcalm _) n h
    exact ⟨r, hrun, hr.finish⟩

theorem wide_key_reported :
    askTo [.map, .key, .scalar .u8, .key, .skip] [0xA2, 0x01, 0x05, 0x18, 0x01, 0xF5] = .error .repeatedKey :=
  (repeated_key_reported (.map [.scalar .u8, .skip])
    (i := .map .inline [(⟨false, .inline, 1⟩, .unsigned .inline 5), (⟨false, .one, 1⟩, .bool true)])
    (by simp [maxDepth, Item.Formed, Key.Legal, Width.Holds, Width.limit]) rfl []).1.mpr
    (.again (j := 1) rfl rfl rfl (by simp [ranks, Key.rank]))

end CborReader

end Km43.Cbor
