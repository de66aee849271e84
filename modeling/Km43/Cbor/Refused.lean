import Km43.Cbor.Calls
import Km43.Library.Machine

namespace Km43.Cbor

open Library

namespace CborWriter

abbrev Tried (α : Type) := Attempt CborError CborWriter α

namespace Tried

def refuse (why : CborError) : Tried Unit := fun w => (.error why, w)

def ensure (len : ℕ) : Tried Unit := fun w =>
  if w.out.length + len > w.capacity then (.error .destinationTooSmall, w) else (.ok (), w)

def emit (data : Bytes) : Tried Unit := fun w =>
  if w.out.length + data.length > w.capacity then (.error .destinationTooSmall, w)
  else (.ok (), { w with out := w.out ++ data })

def head (major : Major) (argument payload : ℕ) : Tried Unit := do
  let width := Width.of argument
  ensure (width.bytes + 1 + payload)
  emit [UInt8.ofNat (major.bits * 32 + width.info argument)]
  emit (BigEndian.digits width.bytes argument)

def settle : Tried Unit := fun w => (.ok (), { w with nest := w.nest.settle })

def itemPlace : Tried Unit := fun w =>
  if w.nest.atKey then (.error .misplacedKey, w)
  else if w.nest.depth = 0 ∧ w.out.length ≠ 0 then (.error .trailingItem, w)
  else (.ok (), w)

def openItem : Tried Unit := do
  settle
  itemPlace

def countItem : Tried Unit := fun w => (.ok (), { w with nest := w.nest.countItem })

def room : Tried Unit := fun w => if w.nest.hasRoom then (.ok (), w) else (.error .depthExceeded, w)

def push (kind : Nesting) (items : ℕ) : Tried Unit := fun w =>
  match w.nest.push kind items 0 with
  | .ok nest => (.ok (), { w with nest := nest })
  | .error why => (.error why, w)

def atKey : Tried Unit := fun w => if w.nest.atKey then (.ok (), w) else (.error .misplacedKey, w)

def takeKey (key : ℕ) : Tried Unit := fun w =>
  match w.nest.takeKey key with
  | .ok nest => (.ok (), { w with nest := nest })
  | .error why => (.error why, w)

def array (len : ℕ) : Tried Unit := do
  openItem
  room
  head .array len 0
  countItem
  push .array len

def usizeMax : ℕ := 2 ^ 64 - 1

def map (pairs : ℕ) : Tried Unit := do
  openItem
  room
  if pairs * 2 > usizeMax then refuse .destinationTooSmall
  else
    head .map pairs 0
    countItem
    push .map (pairs * 2)

def key (key : ℤ) : Tried Unit :=
  if key < 0 then refuse .integerOutOfRange
  else do
    settle
    atKey
    takeKey key.toNat
    head .unsigned key.toNat 0
    countItem

def u64 (value : ℕ) : Tried Unit := do
  openItem
  head .unsigned value 0
  countItem

def i32 (value : Int32) : Tried Unit := do
  openItem
  if value.toInt < 0 then head .negative (value.toInt.natAbs - 1) 0
  else head .unsigned value.toInt.natAbs 0
  countItem

def bool (value : Bool) : Tried Unit := do
  openItem
  head .simple (if value then 21 else 20) 0
  countItem

def bytes (value : Bytes) : Tried Unit := do
  openItem
  head .bytes value.length value.length
  emit value
  countItem

def position : Tried ℕ := fun w => (.ok w.out.length, w)

def bytesToFill (len : ℕ) : Tried ℕ := do
  openItem
  head .bytes len len
  let start ← position
  emit (List.replicate len 0)
  countItem
  pure start

def text (value : Bytes) : Tried Unit := do
  openItem
  if value.length > maxString then refuse .stringTooLong
  else
    head .text value.length value.length
    emit value
    countItem

def walk (item : Bytes) : Except CborError ℕ := do
  let (_, walk) ← (CborReader.new item).skip
  let deepest := walk.nest.deepest
  let _ ← walk.finish
  .ok deepest

def walked (item : Bytes) : Tried ℕ := fun w => (walk item, w)

def levels (deepest : ℕ) : Tried Unit := fun w =>
  if w.nest.depth + deepest > maxDepth then (.error .depthExceeded, w) else (.ok (), w)

def raw (item : Bytes) : Tried Unit := do
  openItem
  let deepest ← walked item
  levels deepest
  emit item
  countItem

def fillAt (start : ℕ) (value : Bytes) : Tried Unit := fun w =>
  (.ok (), { w with out := (paste w.out start value).getD w.out })

end Tried

end CborWriter

namespace Call

open CborWriter

def attempt : Call → Tried Unit
  | array len => Tried.array len.toNat
  | map pairs => Tried.map pairs.toNat
  | key k => Tried.key k.toInt
  | u64 value => Tried.u64 value.toNat
  | i32 value => Tried.i32 value
  | bool value => Tried.bool value
  | bytes value => Tried.bytes value
  | fill value => do
    let start ← Tried.bytesToFill value.length
    Tried.fillAt start value
  | text value => Tried.text value.raw
  | raw item => Tried.raw item

end Call

namespace CborWriter

/-- The writer with the containers that owe nothing closed, as every call but one with a negative key
closes them first. -/
def settled (w : CborWriter) : CborWriter := { w with nest := w.nest.settle }

theorem settled_settled (w : CborWriter) : w.settled.settled = w.settled := by
  simp only [settled, CborReader.settle_settle]

namespace Tried

variable {w w' : CborWriter} {why : CborError}

theorem position_eq (w : CborWriter) : position w = (.ok w.out.length, w) := rfl

theorem countItem_eq (w : CborWriter) : countItem w = (.ok (), { w with nest := w.nest.countItem }) := rfl

theorem emit_fits {data : Bytes} (h : w.Fits data) :
    emit data w = (.ok (), { w with out := w.out ++ data }) := if_neg (Nat.not_lt.mpr h)

theorem head_fits {major : Major} {argument payload : ℕ}
    (h : w.out.length + ((headBytes major (Width.of argument) argument).length + payload) ≤ w.capacity) :
    head major argument payload w =
      (.ok (), { w with out := w.out ++ headBytes major (Width.of argument) argument }) := by
  rw [headBytes_length] at h
  have hensure : ensure ((Width.of argument).bytes + 1 + payload) w = (.ok (), w) := if_neg (Nat.not_lt.mpr h)
  have hdigits : (BigEndian.digits (Width.of argument).bytes argument).length = (Width.of argument).bytes := by simp
  unfold head
  rw [Attempt.bind_ok hensure, Attempt.bind_ok (emit_fits ?_), emit_fits ?_]
  · simp [headBytes]
  · simp only [Fits, List.length_append, List.length_singleton, hdigits]
    omega
  · simp only [Fits, List.length_singleton]
    omega

theorem head_short {major : Major} {argument payload : ℕ}
    (h : w.capacity < w.out.length + ((headBytes major (Width.of argument) argument).length + payload)) :
    head major argument payload w = (.error .destinationTooSmall, w) := by
  rw [headBytes_length] at h
  exact Attempt.bind_error (if_pos h)

theorem head_whole (w : CborWriter) (major : Major) (argument payload : ℕ) :
    Attempt.Whole (head major argument payload) w := by
  intro why w' h
  by_cases hfits : w.out.length + ((headBytes major (Width.of argument) argument).length + payload) ≤ w.capacity
  · rw [head_fits hfits] at h
    cases h
  · rw [head_short (not_le.mp hfits)] at h
    cases h
    rfl

theorem head_room {major : Major} {argument payload : ℕ} {a : Unit}
    (h : head major argument payload w = (.ok a, w')) :
    w'.out.length + payload ≤ w'.capacity ∧ w'.nest = w.nest := by
  by_cases hfits : w.out.length + ((headBytes major (Width.of argument) argument).length + payload) ≤ w.capacity
  · rw [head_fits hfits] at h
    cases h
    refine ⟨?_, rfl⟩
    have hroom : (w.out ++ headBytes major (Width.of argument) argument).length + payload ≤ w.capacity := by
      rw [List.length_append]
      omega
    exact hroom
  · rw [head_short (not_le.mp hfits)] at h
    cases h

theorem head_only_whole (w : CborWriter) (major : Major) (argument : ℕ) :
    Attempt.Whole (do head major argument 0; countItem) w :=
  (head_whole w major argument 0).bind fun _ _ _ => .inr ⟨_, _, rfl⟩

theorem headed_whole (w : CborWriter) (major : Major) (argument : ℕ) (data : Bytes) :
    Attempt.Whole (do head major argument data.length; emit data; countItem) w := by
  apply (head_whole w major argument data.length).bind
  intro a w' h
  have hdone : (do emit data; countItem : Tried Unit) w' =
      (.ok (), { w' with out := w'.out ++ data, nest := w'.nest.countItem }) :=
    Attempt.bind_ok (emit_fits (head_room h).1)
  exact .inr ⟨_, _, hdone⟩

theorem fill_eq (value : Bytes) : (Call.fill value).attempt = (do
    openItem
    head .bytes value.length value.length
    let start ← position
    emit (List.replicate value.length 0)
    countItem
    fillAt start value) := by
  simp only [Call.attempt, bytesToFill, bind_assoc, pure_bind]

theorem fill_whole (w : CborWriter) (value : Bytes) :
    Attempt.Whole (do
      head .bytes value.length value.length
      let start ← position
      emit (List.replicate value.length 0)
      countItem
      fillAt start value) w := by
  apply (head_whole w .bytes value.length value.length).bind
  intro a w' h
  have hfits : w'.Fits (List.replicate value.length 0) := by
    rw [Fits, List.length_replicate]
    exact (head_room h).1
  refine .inr ⟨(), { w' with
    out := (paste (w'.out ++ List.replicate value.length 0) w'.out.length value).getD
      (w'.out ++ List.replicate value.length 0)
    nest := w'.nest.countItem }, ?_⟩
  rw [Attempt.bind_ok (position_eq w'), Attempt.bind_ok (emit_fits hfits)]
  rfl

theorem box_whole (w : CborWriter) (h : w.nest.hasRoom = true) (major : Major) (argument : ℕ) (kind : Nesting)
    (items : ℕ) : Attempt.Whole (do head major argument 0; countItem; push kind items) w := by
  apply (head_whole w major argument 0).bind
  intro a w' hhead
  refine .inr ⟨(), { w' with nest := ⟨⟨kind, items, none, 0⟩ :: w'.nest.countItem.opened,
    max w'.nest.countItem.deepest (w'.nest.countItem.depth + 1)⟩ }, ?_⟩
  have hcount : w'.nest.countItem.depth = w.nest.depth := by
    rw [(head_room hhead).2]
    unfold Nest.countItem Nest.depth
    split <;> simp_all
  have hpush : w'.nest.countItem.push kind items 0 =
      .ok ⟨⟨kind, items, none, 0⟩ :: w'.nest.countItem.opened,
        max w'.nest.countItem.deepest (w'.nest.countItem.depth + 1)⟩ := by
    rw [Nest.push, if_pos]
    rw [hcount]
    simpa [Nest.hasRoom] using h
  rw [Attempt.bind_ok (countItem_eq w'), push]
  simp only [hpush]

theorem openItem_eq (w : CborWriter) : ∃ result, openItem w = (result, w.settled) := by
  have hsettle : settle w = (.ok (), w.settled) := rfl
  unfold openItem
  rw [Attempt.bind_ok hsettle, itemPlace]
  split_ifs <;> exact ⟨_, rfl⟩

theorem openItem_settled (w : CborWriter) : openItem w.settled = openItem w := by
  apply Attempt.bind_congr
  simp only [settle, settled, CborReader.settle_settle]

theorem opened_refused {α : Type} {f : Unit → Tried α} (hf : Attempt.Whole (f ()) w.settled)
    (h : (openItem >>= f) w = (.error why, w')) : w' = w.settled := by
  obtain ⟨result, hopen⟩ := openItem_eq w
  cases result with
  | error first =>
    rw [Attempt.bind_error hopen] at h
    cases h
    rfl
  | ok =>
    rw [Attempt.bind_ok hopen] at h
    exact hf _ _ h

theorem guarded_whole {α β : Type} {x : Tried α} {f : α → Tried β} (hx : (x w).2 = w)
    (hf : ∀ a, (x w).1 = .ok a → Attempt.Whole (f a) w) : Attempt.Whole (x >>= f) w := by
  refine Attempt.Whole.bind (fun why w' h => ?_) fun a w' h => .inl ⟨?_, hf a ?_⟩
  · rw [← hx, h]
  · rw [← hx, h]
  · rw [h]

theorem room_guards (w : CborWriter) : (room w).2 = w ∧ ∀ a, (room w).1 = .ok a → w.nest.hasRoom = true := by
  unfold room
  split_ifs with h <;> simp [h]

theorem refuse_whole (w : CborWriter) (why : CborError) : Attempt.Whole (refuse why) w := by
  intro first w' h
  cases h
  rfl

theorem emit_whole (w : CborWriter) (data : Bytes) : Attempt.Whole (do emit data; countItem) w := by
  refine Attempt.Whole.bind (fun why w' h => ?_) fun _ w' _ => .inr ⟨_, _, countItem_eq w'⟩
  unfold emit at h
  split_ifs at h
  · cases h
    rfl
  · cases h

theorem raw_whole (w : CborWriter) (item : Bytes) :
    Attempt.Whole (do
      let deepest ← walked item
      levels deepest
      emit item
      countItem) w := by
  refine guarded_whole rfl fun deepest _ => guarded_whole ?_ fun _ _ => emit_whole w item
  unfold levels
  split_ifs <;> rfl

end Tried

/-- A key that belongs where it is written, but has no room: the writer has noted it when it is refused. -/
def Overreaches (w : CborWriter) (call : Call) : Prop :=
  ∃ k, call = .key k ∧ 0 ≤ k.toInt ∧ w.settled.nest.atKey = true ∧
    (∃ nest, w.settled.nest.takeKey k.toInt.toNat = .ok nest) ∧
    w.capacity < w.out.length + (headBytes .unsigned (Width.of k.toInt.toNat) k.toInt.toNat).length

variable {w w' : CborWriter} {call : Call} {why : CborError}

theorem key_noted {k : Int64} (h : Overreaches w (.key k)) : ∃ nest,
    w.settled.nest.takeKey k.toInt.toNat = .ok nest ∧
      (Call.key k).attempt w = (.error .destinationTooSmall, { w with nest := nest }) := by
  obtain ⟨k', hk, hsign, hat, ⟨nest, htake⟩, hshort⟩ := h
  obtain rfl := Call.key.inj hk
  refine ⟨nest, htake, ?_⟩
  have hsettle : Tried.settle w = (.ok (), w.settled) := rfl
  have hatKey : Tried.atKey w.settled = (.ok (), w.settled) := if_pos hat
  have hnoted : Tried.takeKey k.toInt.toNat w.settled = (.ok (), { w with nest := nest }) := by
    simp only [Tried.takeKey, htake]
    rfl
  have hhead : Tried.head .unsigned k.toInt.toNat 0 { w with nest := nest } =
      (.error .destinationTooSmall, { w with nest := nest }) := Tried.head_short hshort
  rw [Call.attempt, Tried.key, if_neg (not_lt.mpr hsign), Attempt.bind_ok hsettle, Attempt.bind_ok hatKey,
    Attempt.bind_ok hnoted, Attempt.bind_error hhead]

theorem key_refused {k : Int64} (h : (Call.key k).attempt w = (.error why, w'))
    (hno : ¬Overreaches w (.key k)) : w' = w ∨ w' = w.settled := by
  rw [Call.attempt, Tried.key] at h
  split_ifs at h with hsign
  · cases h
    exact .inl rfl
  right
  have hsettle : Tried.settle w = (.ok (), w.settled) := rfl
  rw [Attempt.bind_ok hsettle] at h
  by_cases hat : w.settled.nest.atKey = true
  · have hatKey : Tried.atKey w.settled = (.ok (), w.settled) := if_pos hat
    rw [Attempt.bind_ok hatKey] at h
    cases htake : w.settled.nest.takeKey k.toInt.toNat with
    | error first =>
      have hnoted : Tried.takeKey k.toInt.toNat w.settled = (.error first, w.settled) := by
        simp only [Tried.takeKey, htake]
      rw [Attempt.bind_error hnoted] at h
      cases h
      rfl
    | ok nest =>
      have hnoted : Tried.takeKey k.toInt.toNat w.settled = (.ok (), { w with nest := nest }) := by
        simp only [Tried.takeKey, htake]
        rfl
      rw [Attempt.bind_ok hnoted] at h
      have hfits : ¬w.capacity <
          w.out.length + (headBytes .unsigned (Width.of k.toInt.toNat) k.toInt.toNat).length := by
        intro hshort
        exact hno ⟨k, rfl, not_lt.mp hsign, hat, ⟨nest, htake⟩, hshort⟩
      have hhead : Tried.head .unsigned k.toInt.toNat 0 { w with nest := nest } =
          (.ok (), { w with nest := nest, out := w.out ++ headBytes .unsigned _ k.toInt.toNat }) :=
        Tried.head_fits (not_lt.mp hfits)
      rw [Attempt.bind_ok hhead] at h
      cases h
  · have hatKey : Tried.atKey w.settled = (.error .misplacedKey, w.settled) := if_neg hat
    rw [Attempt.bind_error hatKey] at h
    cases h
    rfl

theorem attempt_refused (h : call.attempt w = (.error why, w')) (hno : ¬Overreaches w call) :
    w' = w ∨ w' = w.settled := by
  cases call with
  | key k => exact key_refused h hno
  | array len =>
    right
    refine Tried.opened_refused (Tried.guarded_whole (Tried.room_guards _).1 fun a ha => ?_) h
    exact Tried.box_whole _ ((Tried.room_guards _).2 a ha) .array len.toNat .array len.toNat
  | map pairs =>
    right
    refine Tried.opened_refused (Tried.guarded_whole (Tried.room_guards _).1 fun a ha => ?_) h
    split_ifs
    · exact Tried.refuse_whole _ _
    · exact Tried.box_whole _ ((Tried.room_guards _).2 a ha) .map pairs.toNat .map (pairs.toNat * 2)
  | u64 value => exact .inr (Tried.opened_refused (Tried.head_only_whole _ .unsigned value.toNat) h)
  | i32 value =>
    right
    refine Tried.opened_refused ?_ h
    split_ifs
    · exact Tried.head_only_whole _ .negative _
    · exact Tried.head_only_whole _ .unsigned _
  | bool value => exact .inr (Tried.opened_refused (Tried.head_only_whole _ .simple _) h)
  | bytes value => exact .inr (Tried.opened_refused (Tried.headed_whole _ .bytes _ value) h)
  | fill value =>
    rw [Tried.fill_eq] at h
    exact .inr (Tried.opened_refused (Tried.fill_whole _ value) h)
  | text value =>
    right
    refine Tried.opened_refused ?_ h
    split_ifs
    · exact Tried.refuse_whole _ _
    · exact Tried.headed_whole _ .text _ value.raw
  | raw item => exact .inr (Tried.opened_refused (Tried.raw_whole _ item) h)

theorem opens_first (call : Call) : (∃ k, call = .key k) ∨ ∃ f, call.attempt = Tried.openItem >>= f := by
  cases call with
  | key k => exact .inl ⟨k, rfl⟩
  | fill value => exact .inr ⟨_, Tried.fill_eq value⟩
  | array | map | u64 | i32 | bool | bytes | text | raw => exact .inr ⟨_, rfl⟩

theorem attempt_settled (w : CborWriter) (call : Call) :
    (call.attempt w.settled).1 = (call.attempt w).1 ∧
      (call.attempt w.settled).2.settled = (call.attempt w).2.settled := by
  obtain ⟨k, rfl⟩ | ⟨f, hf⟩ := opens_first call
  · simp only [Call.attempt, Tried.key]
    split_ifs
    · exact ⟨rfl, settled_settled w⟩
    · have hsettle : Tried.settle w.settled = Tried.settle w := by
        simp only [Tried.settle, settled, CborReader.settle_settle]
      rw [Attempt.bind_congr hsettle]
      exact ⟨rfl, rfl⟩
  · rw [hf, Attempt.bind_congr (Tried.openItem_settled w)]
    exact ⟨rfl, rfl⟩

theorem key_again {k : Int64} {nest : Nest} (h : Overreaches w (.key k))
    (htake : w.settled.nest.takeKey k.toInt.toNat = .ok nest) :
    ((Call.key k).attempt { w with nest := nest }).1 = .error .keysNotAscending := by
  obtain ⟨k', hk, hsign, hat, -, -⟩ := h
  obtain rfl := Call.key.inj hk
  cases hopened : w.settled.nest.opened with
  | nil => simp [Nest.atKey, hopened] at hat
  | cons top rest =>
    have hremaining : top.remaining ≠ 0 := owing_head hopened
    have hnest : nest =
        ⟨{ top with lastKey := some ⟨false, k.toInt.toNat⟩ } :: rest, w.settled.nest.deepest⟩ := by
      simp only [Nest.takeKey, hopened] at htake
      cases hlast : top.lastKey with
      | none =>
        rw [hlast] at htake
        cases htake
        rfl
      | some last =>
        simp only [hlast] at htake
        split_ifs at htake
        cases htake
        rfl
    have hclosed : nest.settle = nest := by
      rw [hnest, Nest.settle]
      simp [hremaining]
    have hatKey : nest.atKey = true := by
      rw [hnest]
      simpa [Nest.atKey, hopened] using hat
    have hsettle : Tried.settle { w with nest := nest } = (.ok (), { w with nest := nest }) := by
      simp only [Tried.settle, hclosed]
    have hkeyed : Tried.atKey { w with nest := nest } = (.ok (), { w with nest := nest }) := if_pos hatKey
    have hrefused : Tried.takeKey k.toInt.toNat { w with nest := nest } =
        (.error .keysNotAscending, { w with nest := nest }) := by
      simp only [Tried.takeKey, Nest.takeKey, hnest, KeyRank.le_refl, if_true]
    rw [Call.attempt, Tried.key, if_neg (not_lt.mpr hsign), Attempt.bind_ok hsettle, Attempt.bind_ok hkeyed,
      Attempt.bind_error hrefused]

def serve : Machine CborWriter Call (Except CborError Unit) := fun w call =>
  ((call.attempt w).2, (call.attempt w).1)

def finished (w : CborWriter) : Except CborError ℕ := (finish w).map Prod.fst

/-- No byte was added, and every sequence of calls is answered, and writes, as without the call. -/
def AsIfNotMade (w w' : CborWriter) : Prop :=
  w'.out = w.out ∧ ∀ calls : List Call, Machine.outputs serve w' calls = Machine.outputs serve w calls ∧
    (Machine.final serve w' calls).out = (Machine.final serve w calls).out ∧
    (Machine.final serve w' calls).finished = (Machine.final serve w calls).finished

theorem settled_goes_on {w w' : CborWriter} (h : w'.settled = w.settled) : AsIfNotMade w w' := by
  have hout (v : CborWriter) : v.settled.out = v.out := rfl
  refine ⟨by rw [← hout, h, hout], fun calls => ?_⟩
  have step : ∀ (v v' : CborWriter) (call : Call), v.settled = v'.settled → True →
      (serve v call).2 = (serve v' call).2 ∧ (serve v call).1.settled = (serve v' call).1.settled := by
    intro v v' call hv _
    obtain ⟨hanswer, hnext⟩ := attempt_settled v call
    obtain ⟨hanswer', hnext'⟩ := attempt_settled v' call
    rw [hv] at hanswer hnext
    exact ⟨hanswer.symm.trans hanswer', hnext.symm.trans hnext'⟩
  obtain ⟨houts, hend⟩ := Machine.run_simulates step h fun call (_ : call ∈ calls) => trivial
  refine ⟨houts, by rw [← hout, hend, hout], ?_⟩
  have hfinished (v : CborWriter) : v.settled.finished = v.finished := by
    simp only [finished, finish, settled, CborReader.settle_settle]
  rw [← hfinished, hend, hfinished]

/-- A refused call is as if it had not been made, unless it is a key in its place that has no room. -/
theorem refused_iff (w : CborWriter) (call : Call) :
    (∀ why, (serve w call).2 = .error why → AsIfNotMade w (serve w call).1) ↔ ¬Overreaches w call := by
  constructor
  · rintro hkept hover
    obtain ⟨k, rfl, hsign, hat, -, hshort⟩ := id hover
    obtain ⟨nest, htake, hattempt⟩ := key_noted hover
    have hrefused : (serve w (.key k)).2 = .error .destinationTooSmall := congrArg Prod.fst hattempt
    have hafter : (serve w (.key k)).1 = { w with nest := nest } := congrArg Prod.snd hattempt
    obtain ⟨-, hgoes⟩ := hkept _ hrefused
    have hagain := (hgoes [.key k]).1
    simp only [Machine.outputs_cons, Machine.outputs_nil, List.cons.injEq, and_true] at hagain
    rw [hrefused, hafter] at hagain
    have hnoted : (serve { w with nest := nest } (.key k)).2 = .error .keysNotAscending := key_again hover htake
    rw [hnoted] at hagain
    cases hagain
  · intro hno why hrefused
    apply settled_goes_on
    have hmade : call.attempt w = (.error why, (serve w call).1) := Prod.ext hrefused rfl
    obtain hsame | hsame := attempt_refused hmade hno
    · rw [hsame]
    · rw [hsame, settled_settled]

theorem key_refused_noted :
    ¬∀ (w : CborWriter) (call : Call) (why : CborError), (serve w call).2 = .error why →
      AsIfNotMade w (serve w call).1 := by
  intro hkept
  let w := Machine.final serve (new 2) [.map 1]
  have hrefused : (serve w (.key 1000)).2 = .error .destinationTooSmall := by decide
  have hlater := ((hkept w (.key 1000) _ hrefused).2 [.key 1]).1
  have hwith : Machine.outputs serve (serve w (.key 1000)).1 [.key 1] = [.error .keysNotAscending] := by
    decide
  have hwithout : Machine.outputs serve w [.key 1] = [.ok ()] := by decide
  rw [hwith, hwithout] at hlater
  cases hlater

section Outcome

open Attempt

theorem head_outcome (w : CborWriter) (major : Major) (argument payload : ℕ) :
    outcome (Tried.head major argument payload w) = head major argument payload w := by
  unfold head
  by_cases hshort :
      w.out.length + ((headBytes major (Width.of argument) argument).length + payload) > w.capacity
  · rw [Tried.head_short hshort]
    exact (if_pos hshort).symm
  · rw [Tried.head_fits (not_lt.mp hshort)]
    have hfits : w.Fits (headBytes major (Width.of argument) argument) := by
      unfold Fits
      omega
    exact ((if_neg hshort).trans (emit_ok w hfits)).symm

theorem emit_outcome (w : CborWriter) (data : Bytes) : outcome (Tried.emit data w) = emit data w := by
  unfold Tried.emit emit
  split_ifs <;> rfl

theorem room_outcome (w : CborWriter) : outcome (Tried.room w) = room w := by
  unfold Tried.room room
  split_ifs <;> rfl

theorem push_outcome (w : CborWriter) (kind : Nesting) (items : ℕ) :
    outcome (Tried.push kind items w) = push kind items w := by
  unfold Tried.push push
  cases w.nest.push kind items 0 <;> rfl

theorem openItem_outcome (w : CborWriter) : outcome (Tried.openItem w) = openItem w := by
  have hsettle : Tried.settle w = (.ok (), w.settled) := rfl
  unfold Tried.openItem openItem
  rw [bind_ok hsettle, Tried.itemPlace]
  by_cases hat : w.settled.nest.atKey = true
  · rw [if_pos hat]
    exact (if_pos hat).symm
  rw [if_neg hat]
  by_cases hsecond : w.settled.nest.depth = 0 ∧ w.settled.out.length ≠ 0
  · rw [if_pos hsecond]
    exact ((if_neg hat).trans (if_pos hsecond)).symm
  · rw [if_neg hsecond]
    exact ((if_neg hat).trans (if_neg hsecond)).symm

theorem opened_outcome {α : Type} {w : CborWriter} {f : Unit → Tried α} {g : Unit → Write α}
    (h : ∀ v, outcome (f () v) = g () v) : outcome ((Tried.openItem >>= f) w) = (openItem >>= g) w :=
  outcome_bind (openItem_outcome w) fun _ v _ => h v

theorem head_only_outcome (w : CborWriter) (major : Major) (argument : ℕ) :
    outcome ((do Tried.head major argument 0; Tried.countItem : Tried Unit) w) =
      (do head major argument 0; countItem : Write Unit) w :=
  outcome_bind (head_outcome w major argument 0) fun _ _ _ => rfl

theorem headed_outcome (w : CborWriter) (major : Major) (argument : ℕ) (data : Bytes) :
    outcome ((do Tried.head major argument data.length; Tried.emit data; Tried.countItem : Tried Unit) w) =
      (do head major argument data.length; emit data; countItem : Write Unit) w :=
  outcome_bind (head_outcome w major argument data.length) fun _ v _ =>
    outcome_bind (emit_outcome v data) fun _ _ _ => rfl

theorem box_outcome (w : CborWriter) (major : Major) (n items : ℕ) (kind : Nesting) :
    outcome ((do Tried.head major n 0; Tried.countItem; Tried.push kind items : Tried Unit) w) =
      (do head major n 0; countItem; push kind items : Write Unit) w :=
  outcome_bind (head_outcome w major n 0) fun _ v _ =>
    outcome_bind (x := Tried.countItem) (y := countItem) (s := v) rfl fun _ u _ => push_outcome u kind items

theorem taken_outcome (w : CborWriter) (k : ℕ) :
    outcome ((do Tried.settle; Tried.atKey; Tried.takeKey k : Tried Unit) w) = takeKey k w := by
  have hsettle : Tried.settle w = (.ok (), w.settled) := rfl
  rw [bind_ok hsettle]
  unfold takeKey
  by_cases hat : w.settled.nest.atKey = true
  · have hatKey : Tried.atKey w.settled = (.ok (), w.settled) := if_pos hat
    rw [bind_ok hatKey, Tried.takeKey]
    refine Eq.trans ?_ (if_pos hat).symm
    cases hmade : w.settled.nest.takeKey k with
    | error why =>
      have hmade' : w.nest.settle.takeKey k = .error why := hmade
      rw [hmade']
      rfl
    | ok nest =>
      have hmade' : w.nest.settle.takeKey k = .ok nest := hmade
      rw [hmade']
      rfl
  · have hatKey : Tried.atKey w.settled = (.error .misplacedKey, w.settled) := if_neg hat
    rw [bind_error hatKey]
    exact (if_neg hat).symm

theorem key_outcome (w : CborWriter) (k : ℤ) : outcome (Tried.key k w) = key k w := by
  unfold Tried.key key
  split_ifs
  · rfl
  have hlast (v : CborWriter) := head_only_outcome v .unsigned k.toNat
  have hchain := outcome_bind (taken_outcome w k.toNat) fun _ v _ => hlast v
  simpa only [bind_assoc] using hchain

theorem levels_outcome (w : CborWriter) (deepest : ℕ) (item : Bytes) :
    outcome ((do Tried.levels deepest; Tried.emit item; Tried.countItem : Tried Unit) w) =
      (do
        if (← get).nest.depth + deepest > maxDepth then throw .depthExceeded
        else
          emit item
          countItem : Write Unit) w := by
  by_cases hdeep : w.nest.depth + deepest > maxDepth
  · have hlevels : Tried.levels deepest w = (.error .depthExceeded, w) := if_pos hdeep
    have hget (f : CborWriter → Write Unit) : ((get : Write CborWriter) >>= f) w = f w w := rfl
    rw [bind_error hlevels, hget, if_pos hdeep]
    rfl
  · have hlevels : Tried.levels deepest w = (.ok (), w) := if_neg hdeep
    have hget (f : CborWriter → Write Unit) : ((get : Write CborWriter) >>= f) w = f w w := rfl
    rw [bind_ok hlevels, hget, if_neg hdeep]
    exact outcome_bind (emit_outcome w item) fun _ _ _ => rfl

theorem raw_outcome (w : CborWriter) (item : Bytes) : outcome (Tried.raw item w) = raw item w := by
  refine opened_outcome fun v => ?_
  have hlift {α : Type} (x : Except CborError α) (f : α → Write Unit) :
      ((liftM x : Write α) >>= f) v = x >>= fun a => f a v := by cases x <;> rfl
  rw [hlift]
  cases hskip : (CborReader.new item).skip with
  | error why =>
    have hwalk : Tried.walked item v = (.error why, v) := by
      rw [Tried.walked, Tried.walk, hskip]
      rfl
    rw [bind_error hwalk]
    rfl
  | ok skipped =>
    obtain ⟨⟨⟩, walk⟩ := skipped
    refine Eq.trans ?_ (hlift walk.finish fun _ => (do
      if (← get).nest.depth + walk.nest.deepest > maxDepth then throw .depthExceeded
      else
        emit item
        countItem : Write Unit)).symm
    cases hfinish : walk.finish with
    | error why =>
      have hwalk : Tried.walked item v = (.error why, v) := by
        simp [Tried.walked, Tried.walk, hskip, hfinish, bind, Except.bind]
      rw [bind_error hwalk]
      rfl
    | ok =>
      have hwalk : Tried.walked item v = (.ok walk.nest.deepest, v) := by
        simp [Tried.walked, Tried.walk, hskip, hfinish, bind, Except.bind]
      rw [bind_ok hwalk]
      exact levels_outcome v _ item

theorem fill_outcome (w : CborWriter) (value : Bytes) :
    outcome ((Call.fill value).attempt w) = (Call.fill value).write w := by
  have hfill : (Call.fill value).write = (do
      openItem
      head .bytes value.length value.length
      let start := (← get).out.length
      emit (List.replicate value.length 0)
      countItem
      Call.fillAt start value) := by
    simp only [Call.write, bytesToFill, bind_assoc, pure_bind]
  rw [Tried.fill_eq, hfill]
  refine opened_outcome fun v => outcome_bind (head_outcome v .bytes _ _) fun _ u _ => ?_
  have hget (f : CborWriter → Write Unit) : ((get : Write CborWriter) >>= f) u = f u u := rfl
  rw [Attempt.bind_ok (Tried.position_eq u), hget]
  exact outcome_bind (emit_outcome u _) fun _ _ _ => rfl

theorem attempt_outcome (w : CborWriter) (call : Call)
    (h : ∀ pairs, call = .map pairs → pairs.toNat * 2 ≤ Tried.usizeMax) :
    outcome (call.attempt w) = call.write w := by
  cases call with
  | array len =>
    refine opened_outcome fun v => outcome_bind (room_outcome v) fun _ u _ => ?_
    exact box_outcome u .array len.toNat len.toNat .array
  | map pairs =>
    refine opened_outcome fun v => outcome_bind (room_outcome v) fun _ u _ => ?_
    rw [if_neg (not_lt.mpr (h pairs rfl))]
    exact box_outcome u .map pairs.toNat (pairs.toNat * 2) .map
  | key k => exact key_outcome w k.toInt
  | u64 value => exact opened_outcome fun v => head_only_outcome v .unsigned value.toNat
  | i32 value =>
    refine opened_outcome fun v => ?_
    split_ifs
    · exact head_only_outcome v .negative _
    · exact head_only_outcome v .unsigned _
  | bool value => exact opened_outcome fun v => head_only_outcome v .simple _
  | bytes value => exact opened_outcome fun v => headed_outcome v .bytes _ value
  | fill value => exact fill_outcome w value
  | text value =>
    refine opened_outcome fun v => ?_
    split_ifs
    · rfl
    · exact headed_outcome v .text _ value.raw
  | raw item => exact raw_outcome w item

end Outcome

end CborWriter

end Km43.Cbor
