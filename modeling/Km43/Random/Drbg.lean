import Km43.Library.Machine
import Km43.Library.Ratchet

namespace Km43.Random

open Library Library.Ratchet

abbrev Bytes := List UInt8

def keyBytes : ℕ := 32
def blockBytes : ℕ := 64

abbrev Key := Vector UInt8 keyBytes

abbrev Hmac := Bytes → Bytes → Key

def out : Bytes := "km43/v1/drbg-out".toUTF8.toList
def next : Bytes := "km43/v1/drbg-next".toUTF8.toList

def keyed (hmac : Hmac) (state : Key) (parts : List Bytes) : Key :=
  hmac (state.toList ++ List.replicate (blockBytes - keyBytes) 0) parts.flatten

structure Drbg where
  state : Key

def Drbg.fromStored (state : Key) : Drbg := ⟨state⟩

structure Draw where
  state : Key
  next : Key
  out : Key
  deriving DecidableEq

def Drbg.drawMixing (hmac : Hmac) (drbg : Drbg) (extra : Bytes) : Draw :=
  ⟨drbg.state, keyed hmac drbg.state [next, extra], keyed hmac drbg.state [out]⟩

inductive DrbgError
  | notStored
  deriving DecidableEq

inductive Phase
  | gone
  | idle (drbg : Drbg)
  | writing (draw : Draw)
  | reading (draw : Draw)

structure Device where
  /-- What the last durable write left in the store. -/
  held : Key
  phase : Phase

inductive Event
  | restart (readable : Bool)
  | draw (extra : Bytes)
  /-- The write reaches durable storage, whatever the call then answers. -/
  | land
  | wrote (ok : Bool)
  | readBack (ok : Bool)
  | cancel

inductive Answer
  | none
  | released (draw : Draw)
  | withheld (why : DrbgError)

def Event.extra? : Event → Option Bytes
  | draw extra => some extra
  | _ => Option.none

def Answer.released? : Answer → Option Draw
  | released draw => some draw
  | _ => Option.none

namespace Device

def restart (d : Device) (readable : Bool) : Device :=
  { d with phase := if readable then .idle (.fromStored d.held) else .gone }

def start (hmac : Hmac) (d : Device) (extra : Bytes) : Device :=
  match d.phase with
  | .idle drbg => { d with phase := .writing (drbg.drawMixing hmac extra) }
  | _ => d

def land (d : Device) : Device :=
  match d.phase with
  | .writing draw | .reading draw => { d with held := draw.next }
  | _ => d

def wrote (d : Device) (ok : Bool) : Device × Answer :=
  match d.phase with
  | .writing draw =>
    if ok then ({ d with phase := .reading draw }, .none)
    else ({ d with phase := .gone }, .withheld .notStored)
  | _ => (d, .none)

def readBack (d : Device) (ok : Bool) : Device × Answer :=
  match d.phase with
  | .reading draw =>
    if ok ∧ draw.next = d.held then ({ d with phase := .idle ⟨draw.next⟩ }, .released draw)
    else ({ d with phase := .gone }, .withheld .notStored)
  | _ => (d, .none)

def cancel (d : Device) : Device :=
  match d.phase with
  | .writing _ | .reading _ => { d with phase := .gone }
  | _ => d

def step (hmac : Hmac) : Machine Device Event Answer
  | d, .restart readable => (d.restart readable, .none)
  | d, .draw extra => (d.start hmac extra, .none)
  | d, .land => (d.land, .none)
  | d, .wrote ok => d.wrote ok
  | d, .readBack ok => d.readBack ok
  | d, .cancel => (d.cancel, .none)

def new (stored : Key) : Device := ⟨stored, .gone⟩

end Device

def advance (hmac : Hmac) (state : Key) (extra : Bytes) : Key := keyed hmac state [next, extra]

/-- The draw that the generator goes through from where the draws `before` left it. -/
structure Draw.After (hmac : Hmac) (stored : Key) (before : List Bytes) (extra : Bytes) (draw : Draw) :
    Prop where
  state : draw.state = before.foldl (advance hmac) stored
  next : draw.next = advance hmac draw.state extra
  out : draw.out = keyed hmac draw.state [Random.out]

/-- The store holds what the draws that `landed` made of its first state, one draw under way
perhaps among them, and every block let out was of a state left behind. -/
def Device.Kept (hmac : Hmac) (stored : Key) (d : Device) (drawn : List Bytes) (used : List Key) :
    Prop :=
  ∃ landed, landed.Sublist drawn ∧ d.held = landed.foldl (advance hmac) stored ∧
    match d.phase with
    | .gone => used.Sublist (passed (advance hmac) stored landed)
    | .idle drbg => drbg.state = d.held ∧ used.Sublist (passed (advance hmac) stored landed)
    | .writing draw | .reading draw =>
      ∃ before extra, draw.After hmac stored before extra ∧ (before ++ [extra]).Sublist drawn ∧
        used.Sublist (passed (advance hmac) stored before) ∧
        (landed = before ∨ landed = before ++ [extra])

namespace Device

variable {hmac : Hmac} {stored : Key} {d : Device} {drawn : List Bytes} {used : List Key}

theorem kept_new (hmac : Hmac) (stored : Key) : (new stored).Kept hmac stored [] [] :=
  ⟨[], .slnil, rfl, .slnil⟩

theorem Kept.more (h : d.Kept hmac stored drawn used) (extra : Bytes) :
    d.Kept hmac stored (drawn ++ [extra]) used := by
  obtain ⟨landed, hl, hh, hp⟩ := h
  have hlonger : drawn.Sublist (drawn ++ [extra]) := List.sublist_append_left _ _
  refine ⟨landed, hl.trans hlonger, hh, ?_⟩
  cases hd : d.phase with
  | gone | idle =>
    rw [hd] at hp
    exact hp
  | writing draw | reading draw =>
    rw [hd] at hp
    obtain ⟨before, e, ha, hb, hu, hor⟩ := hp
    exact ⟨before, e, ha, hb.trans hlonger, hu, hor⟩

theorem Kept.past (h : d.Kept hmac stored drawn used) :
    ∃ landed, landed.Sublist drawn ∧ d.held = landed.foldl (advance hmac) stored ∧
      used.Sublist (passed (advance hmac) stored landed) := by
  obtain ⟨landed, hl, hh, hp⟩ := h
  refine ⟨landed, hl, hh, ?_⟩
  cases hd : d.phase with
  | gone =>
    rw [hd] at hp
    exact hp
  | idle drbg =>
    rw [hd] at hp
    exact hp.2
  | writing draw | reading draw =>
    rw [hd] at hp
    obtain ⟨before, e, -, -, hu, rfl | rfl⟩ := hp
    · exact hu
    · rw [passed_snoc]
      exact hu.trans (List.sublist_append_left _ _)

theorem Kept.dropped (h : d.Kept hmac stored drawn used) :
    ({ d with phase := .gone } : Device).Kept hmac stored drawn used := by
  obtain ⟨landed, hl, hh, hu⟩ := h.past
  exact ⟨landed, hl, hh, hu⟩

theorem Kept.restart (h : d.Kept hmac stored drawn used) (readable : Bool) :
    (d.restart readable).Kept hmac stored drawn used := by
  cases readable with
  | false => exact h.dropped
  | true =>
    obtain ⟨landed, hl, hh, hu⟩ := h.past
    exact ⟨landed, hl, hh, rfl, hu⟩

theorem Kept.start (h : d.Kept hmac stored drawn used) (extra : Bytes) :
    (d.start hmac extra).Kept hmac stored (drawn ++ [extra]) used := by
  unfold Device.start
  cases hd : d.phase with
  | gone | writing | reading => exact h.more extra
  | idle drbg =>
    obtain ⟨landed, hl, hh, hp⟩ := h
    rw [hd] at hp
    obtain ⟨hstate, hu⟩ := hp
    refine ⟨landed, hl.trans (List.sublist_append_left _ _), hh, landed, extra, ?_, ?_, hu, .inl rfl⟩
    · exact ⟨hstate.trans hh, rfl, rfl⟩
    · exact hl.append_right [extra]

theorem Kept.land (h : d.Kept hmac stored drawn used) : d.land.Kept hmac stored drawn used := by
  unfold Device.land
  cases hd : d.phase with
  | gone | idle => exact h
  | writing draw | reading draw =>
    obtain ⟨landed, hl, hh, hp⟩ := h
    rw [hd] at hp
    obtain ⟨before, extra, ha, hb, hu, -⟩ := hp
    refine ⟨before ++ [extra], hb, ?_, before, extra, ha, hb, hu, .inr rfl⟩
    rw [List.foldl_append, List.foldl_cons, List.foldl_nil, ← ha.state, ← ha.next]

theorem Kept.wrote (h : d.Kept hmac stored drawn used) (ok : Bool) :
    (d.wrote ok).1.Kept hmac stored drawn used ∧ (d.wrote ok).2.released? = none := by
  unfold Device.wrote
  cases hd : d.phase with
  | gone | idle | reading => exact ⟨h, rfl⟩
  | writing draw =>
    cases ok with
    | false => exact ⟨h.dropped, rfl⟩
    | true =>
      obtain ⟨landed, hl, hh, hp⟩ := h
      rw [hd] at hp
      exact ⟨⟨landed, hl, hh, hp⟩, rfl⟩

theorem Kept.readBack (h : d.Kept hmac stored drawn used) (ok : Bool) :
    (d.readBack ok).1.Kept hmac stored drawn
      (used ++ ((d.readBack ok).2.released?.map Draw.state).toList) := by
  unfold Device.readBack
  cases hd : d.phase with
  | gone | idle | writing => simpa [Answer.released?] using h
  | reading draw =>
    simp only
    split_ifs with hok
    · obtain ⟨landed, hl, hh, hp⟩ := h
      rw [hd] at hp
      obtain ⟨before, extra, ha, hb, hu, -⟩ := hp
      refine ⟨before ++ [extra], hb, ?_, hok.2, ?_⟩
      · rw [List.foldl_append, List.foldl_cons, List.foldl_nil, ← ha.state, ← ha.next]
        exact hok.2.symm
      · rw [passed_snoc, ← ha.state]
        exact hu.append_right _
    · simpa [Answer.released?] using h.dropped

theorem Kept.cancel (h : d.Kept hmac stored drawn used) : d.cancel.Kept hmac stored drawn used := by
  unfold Device.cancel
  cases hd : d.phase with
  | gone | idle => exact h
  | writing | reading => exact h.dropped

theorem Kept.step (h : d.Kept hmac stored drawn used) (event : Event) :
    (step hmac d event).1.Kept hmac stored (drawn ++ event.extra?.toList)
      (used ++ ((step hmac d event).2.released?.map Draw.state).toList) := by
  cases event with
  | restart readable => simpa [Device.step, Event.extra?, Answer.released?] using h.restart readable
  | draw extra => simpa [Device.step, Event.extra?, Answer.released?] using h.start extra
  | land => simpa [Device.step, Event.extra?, Answer.released?] using h.land
  | wrote ok => simpa [Device.step, Event.extra?, (h.wrote ok).2] using (h.wrote ok).1
  | readBack ok => simpa [Device.step, Event.extra?] using h.readBack ok
  | cancel => simpa [Device.step, Event.extra?, Answer.released?] using h.cancel

theorem Kept.released (h : d.Kept hmac stored drawn used) {event : Event} {draw : Draw}
    (hr : (Device.step hmac d event).2 = .released draw) :
    d.held = draw.next ∧ draw.out = keyed hmac draw.state [out] ∧
      ∃ extra ∈ drawn, draw.next = advance hmac draw.state extra := by
  obtain ⟨landed, hl, hh, hp⟩ := h
  cases event with
  | restart | draw | land | cancel => cases hr
  | wrote ok =>
    simp only [Device.step, Device.wrote] at hr
    split at hr
    · split_ifs at hr
    · cases hr
  | readBack ok =>
    simp only [Device.step, Device.readBack] at hr
    cases hd : d.phase with
    | gone | idle | writing =>
      rw [hd] at hr
      cases hr
    | reading draw' =>
      rw [hd] at hr hp
      simp only at hr
      split_ifs at hr with hok
      cases hr
      obtain ⟨before, extra, ha, hb, -, -⟩ := hp
      exact ⟨hok.2.symm, ha.out, extra, hb.subset (by simp), ha.next⟩

theorem kept_run (hmac : Hmac) (stored : Key) (events : List Event) :
    (Machine.final (step hmac) (new stored) events).Kept hmac stored (events.filterMap Event.extra?)
      (((Machine.outputs (step hmac) (new stored) events).filterMap Answer.released?).map Draw.state) := by
  have hrun := Machine.final_history (m := step hmac)
    (fun d given answers => d.Kept hmac stored (given.filterMap Event.extra?)
      ((answers.filterMap Answer.released?).map Draw.state))
    (fun d given answers event hd => by
      simpa only [filterMap_snoc, List.map_append, Option.toList_map] using hd.step event)
    [] [] (kept_new hmac stored) events
  simpa using hrun

/-- Over draws whose writes and reads fail, are lost or are cancelled, and restarts from what the
store holds, no state's block is let out twice, and each only with its successor held. -/
theorem releases_once (hmac : Hmac) (stored : Key) (events : List Event)
    (h : NeverRepeats (advance hmac) stored (events.filterMap Event.extra?)) :
    (((Machine.outputs (step hmac) (new stored) events).filterMap Answer.released?).map
      Draw.state).Nodup ∧
    ∀ before event after draw, events = before ++ event :: after →
      (step hmac (Machine.final (step hmac) (new stored) before) event).2 = .released draw →
      (Machine.final (step hmac) (new stored) before).held = draw.next ∧
        draw.out = keyed hmac draw.state [out] ∧
        ∃ extra, .draw extra ∈ before ∧ draw.next = advance hmac draw.state extra := by
  constructor
  · obtain ⟨landed, hl, -, hu⟩ := (kept_run hmac stored events).past
    exact h.used_nodup hl hu
  · rintro before event after draw - hr
    obtain ⟨hheld, hout, extra, he, hnext⟩ := (kept_run hmac stored before).released hr
    obtain ⟨given, hg, hx⟩ := List.mem_filterMap.mp he
    cases given with
    | draw extra' =>
      cases hx
      exact ⟨hheld, hout, extra, hg, hnext⟩
    | restart | land | wrote | readBack | cancel => cases hx

/-- A draw let out, one whose write was lost, and one dropped after its write landed. -/
theorem releases_once_lost :
    let hmac : Hmac := fun key _ => Vector.replicate keyBytes (key.headD 0 + 1)
    let events : List Event := [.restart true, .draw [], .land, .wrote true, .readBack true, .draw [],
      .wrote true, .readBack true, .restart true, .draw [], .land, .cancel, .restart true]
    (((Machine.outputs (step hmac) (new (Vector.replicate keyBytes 0)) events).filterMap
      Answer.released?).map Draw.state).Nodup := by
  intro hmac events
  refine (releases_once hmac (Vector.replicate keyBytes 0) events ?_).1
  intro taken ht
  have hall : ∀ taken ∈ [[], [], []].sublists,
      (List.scanl (advance hmac) (Vector.replicate keyBytes 0) taken).Nodup := by decide +kernel
  exact hall taken (List.mem_sublists.mpr ht)

end Device

end Km43.Random
