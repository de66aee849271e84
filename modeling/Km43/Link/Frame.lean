import Km43.Cbor.Codec
import Km43.Link.Envelope

namespace Km43.Link

open Library Library.StepParser Cbor CborReader Sealed

structure FrameHead where
  opcode : UInt8
  session : SessionId
  reqId : UInt32
  deriving DecidableEq

def LinkEnvelope.head (e : LinkEnvelope) : FrameHead := ⟨e.opcode, e.session, e.reqId⟩

def LinkHeader.head (header : LinkHeader) : FrameHead := ⟨header.kind.byte, header.session, header.reqId⟩

structure Frame where
  width : Width
  opcode : Item
  session : Item
  reqId : Item
  mapWidth : Width
  pairs : List (Key × Item)

namespace Frame

def item (f : Frame) : Item := .array f.width [f.opcode, f.session, f.reqId, .map f.mapWidth f.pairs]

def Scalars (f : Frame) (head : FrameHead) : Prop :=
  u8Of f.opcode = some head.opcode ∧ (u16Of f.session).map .ofRaw = some head.session ∧
    u32Of f.reqId = some head.reqId

end Frame

inductive FrameState (σ : Type)
  | start
  | opcode (opcode : UInt8)
  | session (opcode : UInt8) (session : SessionId)
  | reqId (head : FrameHead)
  | body (head : FrameHead) (s : σ)

namespace FrameState

variable {σ : Type}

def read : FrameState σ → ℕ
  | start => 0
  | opcode _ => 1
  | session _ _ => 2
  | reqId _ => 3
  | body _ _ => 4

end FrameState

section

variable {ε κ : Type} [DecidableEq κ] [BodyKey κ] [FromCbor ε] (t : Table ε κ)

def bodySlots (e : LinkEnvelope) : Except ε t.Slots := do
  let (s, body) ← t.pairs e.keys e.body
  body.finish.mapError FromCbor.cbor
  .ok s

end

section

variable {ε σ : Type} [FromCbor ε]

def boxed (pairs : ℕ → Read ε σ) : Read ε σ := do
  let n ← ask map
  pairs n

def bodyPairs (pairs : ℕ → Read ε σ) (e : LinkEnvelope) : Except ε σ := do
  let (s, body) ← pairs e.keys e.body
  body.finish.mapError FromCbor.cbor
  .ok s

def frameStep (slots : Read ε σ) : FrameState σ → Read ε (FrameState σ)
  | .start => do
    let opcode ← ask u8
    pure (.opcode opcode)
  | .opcode opcode => do
    let raw ← ask u16
    pure (.session opcode (.ofRaw raw))
  | .session opcode session => do
    let reqId ← ask u32
    pure (.reqId ⟨opcode, session, reqId⟩)
  | .reqId front => do
    let s ← slots
    pure (.body front s)
  | .body _ _ => throw (FromCbor.cbor .wrongType)

def readFrame (slots : Read ε σ) : Read ε (FrameState σ) := do
  let n ← ask array
  itemLoop (frameStep slots) n .start

def frameTake (take : Item → Option σ) : FrameState σ → Item → Option (FrameState σ)
  | .start, i => (u8Of i).map .opcode
  | .opcode opcode, i => (u16Of i).map fun raw => .session opcode (.ofRaw raw)
  | .session opcode session, i => (u32Of i).map fun reqId => .reqId ⟨opcode, session, reqId⟩
  | .reqId front, i => (take i).map (.body front)
  | .body _ _, _ => none

variable {slots : Read ε σ} {pairs : ℕ → Read ε σ} {take : List (Key × Item) → Option σ} {head : FrameHead} {s : σ}

theorem frameStep_reads {box : Item → Option σ} (hslots : Reads (fun _ => True) 7 slots box) (st : FrameState σ) :
    Reads (fun _ => True) 7 (frameStep slots st) (frameTake box st) := by
  cases st with
  | start =>
    have hread : Reads (fun _ : ε => True) 7 (ask u8) u8Of := .u8 fun _ => trivial
    exact hread.mapped _
  | opcode opcode =>
    have hread : Reads (fun _ : ε => True) 7 (ask u16) u16Of := .u16 fun _ => trivial
    exact hread.mapped _
  | session opcode session =>
    have hread : Reads (fun _ : ε => True) 7 (ask u32) u32Of := .u32 fun _ => trivial
    exact hread.mapped _
  | reqId front => exact hslots.mapped _
  | body front s => exact ⟨fun _ _ => trivial, fun _ _ => .inr ⟨fun _ _ _ => rfl, trivial⟩⟩

theorem frameTake_body {items : List Item} :
    foldItems (frameTake fun i => i.pairs?.bind take) items .start = some (.body head s) ↔
      ∃ opcode session reqId w ps, items = [opcode, session, reqId, .map w ps] ∧
        u8Of opcode = some head.opcode ∧ (u16Of session).map .ofRaw = some head.session ∧
        u32Of reqId = some head.reqId ∧ take ps = some s := by
  constructor
  · intro h
    rcases items with _ | ⟨opcode, items⟩
    · cases h
    obtain ⟨_, h₁, h⟩ := Option.bind_eq_some_iff.mp h
    obtain ⟨opcode', hopcode, rfl⟩ := Option.map_eq_some_iff.mp h₁
    rcases items with _ | ⟨session, items⟩
    · cases h
    obtain ⟨_, h₂, h⟩ := Option.bind_eq_some_iff.mp h
    obtain ⟨raw, hraw, rfl⟩ := Option.map_eq_some_iff.mp h₂
    rcases items with _ | ⟨reqId, items⟩
    · cases h
    obtain ⟨_, h₃, h⟩ := Option.bind_eq_some_iff.mp h
    obtain ⟨reqId', hreq, rfl⟩ := Option.map_eq_some_iff.mp h₃
    rcases items with _ | ⟨body, items⟩
    · cases h
    obtain ⟨_, h₄, h⟩ := Option.bind_eq_some_iff.mp h
    obtain ⟨s', hs, rfl⟩ := Option.map_eq_some_iff.mp h₄
    rcases items with _ | ⟨more, items⟩
    · cases h
      cases body with
      | map w pairs => exact ⟨opcode, session, reqId, w, pairs, rfl, hopcode, by rw [hraw]; rfl, hreq, hs⟩
      | unsigned | negative | bytes | text | array | bool => cases hs
    · cases h
  · rintro ⟨opcode, session, reqId, w, ps, rfl, hopcode, hsession, hreq, hfold⟩
    obtain ⟨raw, hraw, hsession⟩ := Option.map_eq_some_iff.mp hsession
    simp [foldItems, frameTake, hopcode, hraw, hsession, hreq, hfold, Item.pairs?]

theorem frame_item (hslots : Reads (fun _ => True) 7 slots fun i => i.pairs?.bind take) {payload : Bytes} :
    decodeBody (readFrame slots) payload = .ok (.body head s) ↔
      ∃ f : Frame, f.item.Legal maxDepth ∧ f.item.spelling = payload ∧ f.Scalars head ∧ take f.pairs = some s := by
  have hframe := Reads.array (fun _ => trivial) (frameStep_reads hslots) .start
  rw [readFrame, decodeBody_ok hframe]
  constructor
  · rintro ⟨i, hi, rfl, h⟩
    obtain ⟨items, hitems, h⟩ := Option.bind_eq_some_iff.mp h
    obtain ⟨opcode, session, reqId, m, ps, rfl, hopcode, hsession, hreq, hfold⟩ := frameTake_body.mp h
    cases i with
    | array w items =>
      obtain rfl := Option.some.inj hitems
      exact ⟨⟨w, opcode, session, reqId, m, ps⟩, hi, rfl, ⟨hopcode, hsession, hreq⟩, hfold⟩
    | unsigned | negative | bytes | text | map | bool => cases hitems
  · rintro ⟨f, hf, rfl, ⟨hopcode, hsession, hreq⟩, hfold⟩
    exact ⟨f.item, hf, rfl, frameTake_body.mpr ⟨_, _, _, _, _, rfl, hopcode, hsession, hreq, hfold⟩⟩

theorem ask_ok {α : Type} {m : Read CborError α} {r r' : CborReader} {a : α} :
    (ask m : Read ε α) r = .ok (a, r') ↔ m r = .ok (a, r') := by
  unfold ask
  cases m r with
  | error why => simp
  | ok p => simp

theorem frameStep_count {n : ℕ} {st st' : FrameState σ} {r r' : CborReader}
    (h : itemLoop (frameStep slots) n st r = .ok (st', r')) : st'.read = st.read + n := by
  induction n generalizing st r with
  | zero =>
    cases h
    rfl
  | succ n ih =>
    obtain ⟨mid, r₁, hstep, h⟩ := bind_run_ok.mp h
    have hmid : mid.read = st.read + 1 := by
      cases st with
      | start | opcode | session | reqId =>
        obtain ⟨_, _, -, hpure⟩ := bind_run_ok.mp hstep
        cases hpure
        rfl
      | body head s => cases hstep
    rw [ih h, hmid]
    omega

theorem frame_run {bytes : Bytes} : decodeBody (readFrame (boxed pairs)) bytes = .ok (.body head s) ↔
    ∃ e, LinkEnvelope.decode bytes = .ok e ∧ e.head = head ∧ bodyPairs pairs e = .ok s := by
  unfold decodeBody readFrame
  simp only [bind_ok, bind_run_ok, Prod.exists, ask_ok]
  constructor
  · rintro ⟨st, r, ⟨n, r₁, harray, hloop⟩, u, hfinish, h⟩
    cases h
    have hcount := frameStep_count hloop
    obtain rfl : n = elements := by
      simp only [FrameState.read, Nat.zero_add] at hcount
      exact hcount.symm
    obtain ⟨_, r₂, h₁, hloop⟩ := bind_run_ok.mp hloop
    obtain ⟨opcode, _, hopcode, ⟨⟩⟩ := bind_run_ok.mp h₁
    obtain ⟨_, r₃, h₂, hloop⟩ := bind_run_ok.mp hloop
    obtain ⟨raw, _, hraw, ⟨⟩⟩ := bind_run_ok.mp h₂
    obtain ⟨_, r₄, h₃, hloop⟩ := bind_run_ok.mp hloop
    obtain ⟨reqId, _, hreq, ⟨⟩⟩ := bind_run_ok.mp h₃
    obtain ⟨_, r₅, h₄, hloop⟩ := bind_run_ok.mp hloop
    obtain ⟨s', _, hslots, ⟨⟩⟩ := bind_run_ok.mp h₄
    cases hloop
    obtain ⟨keys, body, hmap, hpairs⟩ := bind_run_ok.mp hslots
    have hfour : Envelope.fourElements (.new bytes) = .ok ((), r₁) := by rw [fourElements_apply harray, if_pos rfl]
    have hscalars : scalars r₁ = .ok ((opcode, .ofRaw raw, reqId, keys), body) :=
      scalars_ok.mpr ⟨raw, r₂, r₃, r₄, ask_ok.mpr (ask_ok.mp hopcode), ask_ok.mpr (ask_ok.mp hraw), rfl,
        ask_ok.mpr (ask_ok.mp hreq), ask_ok.mpr (ask_ok.mp hmap)⟩
    exact ⟨_, bind_ok.mpr ⟨_, hfour, bind_ok.mpr ⟨_, hscalars, rfl⟩⟩, rfl,
      bind_ok.mpr ⟨_, hpairs, bind_ok.mpr ⟨u, hfinish, rfl⟩⟩⟩
  · rintro ⟨e, he, rfl, hslots⟩
    obtain ⟨⟨⟨⟩, r₁⟩, hfour, he⟩ := bind_ok.mp he
    obtain ⟨⟨⟨opcode, session, reqId, keys⟩, body⟩, hscalars, ⟨⟩⟩ := bind_ok.mp he
    obtain ⟨raw, r₂, r₃, r₄, hopcode, hraw, rfl, hreq, hmap⟩ := scalars_ok.mp hscalars
    obtain ⟨⟨s', r⟩, hpairs, hslots⟩ := bind_ok.mp hslots
    obtain ⟨u, hfinish, ⟨⟩⟩ := bind_ok.mp hslots
    have harray : CborReader.array (.new bytes) = .ok (elements, r₁) := by
      cases harray : CborReader.array (.new bytes) with
      | error why =>
        rw [Envelope.fourElements, bind_apply, ask, harray] at hfour
        cases hfour
      | ok p =>
        obtain ⟨n, r'⟩ := p
        rw [fourElements_apply harray] at hfour
        split_ifs at hfour with hn
        cases hfour
        rw [hn]
    have hslots : boxed pairs r₄ = .ok (s, r) :=
      bind_run_ok.mpr ⟨keys, body, ask_ok.mpr (ask_ok.mp hmap), hpairs⟩
    refine ⟨_, r, ⟨elements, r₁, harray, ?_⟩, u, hfinish, rfl⟩
    exact bind_run_ok.mpr ⟨_, r₂, bind_run_ok.mpr ⟨opcode, r₂, ask_ok.mpr (ask_ok.mp hopcode), rfl⟩,
      bind_run_ok.mpr ⟨_, r₃, bind_run_ok.mpr ⟨raw, r₃, ask_ok.mpr (ask_ok.mp hraw), rfl⟩,
        bind_run_ok.mpr ⟨_, r₄, bind_run_ok.mpr ⟨reqId, r₄, ask_ok.mpr (ask_ok.mp hreq), rfl⟩,
          bind_run_ok.mpr ⟨_, r, bind_run_ok.mpr ⟨s, r, hslots, rfl⟩, rfl⟩⟩⟩⟩

theorem pairs_received (hreads : Reads (fun _ => True) 7 (boxed pairs) fun i => i.pairs?.bind take) {bytes : Bytes} :
    (∃ e, LinkEnvelope.decode bytes = .ok e ∧ e.head = head ∧ bodyPairs pairs e = .ok s) ↔
      ∃ f : Frame, f.item.Legal maxDepth ∧ f.item.spelling = bytes ∧ f.Scalars head ∧ take f.pairs = some s :=
  frame_run.symm.trans (frame_item hreads)

end

end Km43.Link
