import Km43.Ble.Twin

namespace Km43.Ble

open Library

structure Fragment where
  id : UInt8
  index : UInt8
  last : Bool
  data : Bytes
  atMs : ℕ

namespace Fragment

def of (value : Bytes) (nowMs : ℕ) : Option Fragment :=
  match value with
  | id :: flags :: data => some ⟨id, flags &&& indexMask, decide (flags &&& lastFlag ≠ 0), data, nowMs⟩
  | _ => none

def bodies (fragments : List Fragment) : Bytes := fragments.flatMap data

theorem bodies_snoc (fragments : List Fragment) (f : Fragment) : bodies (fragments ++ [f]) = bodies fragments ++ f.data := by
  simp [bodies]

def Prompt (f g : Fragment) : Prop := f.atMs ≤ g.atMs ∧ g.atMs < f.atMs + timeoutMs

end Fragment

def ReceiverOp.received : ReceiverOp → List (Option Fragment)
  | .receive value _ nowMs => [Fragment.of value nowMs]
  | .expire _ | .reset => []

/-- These calls handed over these fragments of one message and nothing else. -/
structure Gathers (ops : List ReceiverOp) (id : UInt8) (fragments : List Fragment) : Prop where
  received : ops.flatMap ReceiverOp.received = fragments.map some
  unbroken : .reset ∉ ops
  one : ∀ f ∈ fragments, f.id = id
  indices : ∀ (k : ℕ) (h : k < fragments.length), fragments[k].index.toNat = k
  prompt : fragments.IsChain Fragment.Prompt

namespace Gathers

variable {ops : List ReceiverOp} {id : UInt8} {fragments : List Fragment}

theorem expire (h : Gathers ops id fragments) (nowMs : ℕ) : Gathers (ops ++ [.expire nowMs]) id fragments := by
  refine ⟨?_, ?_, h.one, h.indices, h.prompt⟩
  · rw [List.flatMap_append, h.received]
    simp [ReceiverOp.received]
  · simp [h.unbroken]

theorem start {op : ReceiverOp} {f : Fragment} (hop : op.received = [some f]) (hindex : f.index = 0) :
    Gathers [op] f.id [f] := by
  refine ⟨by simp [hop], ?_, by simp, ?_, List.isChain_singleton f⟩
  · rw [List.mem_singleton]
    rintro rfl
    cases hop
  · intro k hk
    obtain rfl : k = 0 := Nat.lt_one_iff.mp hk
    simp [hindex]

theorem snoc (h : Gathers ops id fragments) {op : ReceiverOp} {f : Fragment} (hop : op.received = [some f])
    (hid : f.id = id) (hindex : f.index.toNat = fragments.length)
    (hprompt : ∀ g ∈ fragments.getLast?, Fragment.Prompt g f) : Gathers (ops ++ [op]) id (fragments ++ [f]) := by
  refine ⟨?_, ?_, ?_, ?_, ?_⟩
  · rw [List.flatMap_append, h.received, List.map_append]
    simp [hop]
  · rw [List.mem_append, List.mem_singleton, not_or]
    refine ⟨h.unbroken, ?_⟩
    rintro rfl
    cases hop
  · intro g hg
    rcases List.mem_append.mp hg with hg | hg
    · exact h.one g hg
    · rw [List.mem_singleton.mp hg, hid]
  · intro k hk
    rw [List.length_append, List.length_singleton] at hk
    by_cases hlast : k < fragments.length
    · rw [List.getElem_append_left hlast]
      exact h.indices k hlast
    · obtain rfl : k = fragments.length := by omega
      simp [hindex]
  · rw [List.isChain_append]
    refine ⟨h.prompt, List.isChain_singleton f, ?_⟩
    intro g hg f' hf'
    obtain rfl := Option.some.inj hf'
    exact hprompt g hg

end Gathers

/-- A message is the bodies of the fragments the last of these calls handed over, of which only the last says so. -/
def Message (ops : List ReceiverOp) (message : Bytes) : Prop :=
  ∃ before window id fragments last, ops = before ++ window ∧ Gathers window id (fragments ++ [last]) ∧
    (∀ f ∈ fragments, f.last = false) ∧ last.last = true ∧ message = Fragment.bodies (fragments ++ [last]) ∧
    message.length ≤ maxPayload

namespace BleReceiver

/-- The assembly under way is that of the fragments the last of these calls handed over. -/
structure Assembles (r : BleReceiver) (ops : List ReceiverOp) (fragments : List Fragment) (last : Fragment) : Prop where
  window : ∃ before window, ops = before ++ window ∧ Gathers window last.id (fragments ++ [last])
  more : ∀ f ∈ fragments ++ [last], f.last = false
  active : ∃ next, r.active = some ⟨last.id, next, last.atMs⟩ ∧ next.toNat = (fragments ++ [last]).length
  len : r.len = (Fragment.bodies (fragments ++ [last])).length
  fits : r.len ≤ maxPayload
  held : r.bytes.held r.len = Fragment.bodies (fragments ++ [last])

def Kept (r : BleReceiver) (ops : List ReceiverOp) : Prop :=
  r.active = none ∨ ∃ fragments last, r.Assembles ops fragments last

/-- What one value did: it was refused, or it was a fragment that starts a message or goes on with one. -/
structure Took (r : BleReceiver) (f : Fragment) (sofar : Bytes) (result : Except BleError (Option Bytes))
    (r' : BleReceiver) : Prop where
  continues : (f.index = 0 ∧ sofar = []) ∨
    ∃ a, (r.expire f.atMs).active = some a ∧ a.id = f.id ∧ a.expected = f.index ∧ sofar = r.bytes.held r.len
  fits : (sofar ++ f.data).length ≤ maxPayload
  outcome : (f.last = true ∧ result = .ok (some (sofar ++ f.data)) ∧ r'.active = none) ∨
    (f.last = false ∧ result = .ok none ∧ r'.len = (sofar ++ f.data).length ∧ r'.bytes.held r'.len = sofar ++ f.data ∧
      ∃ next, nextIndex f.index = some next ∧ r'.active = some ⟨f.id, next, f.atMs⟩)

variable {r r' : BleReceiver} {value : Bytes} {mtu : BleMtu} {nowMs : ℕ} {result : Except BleError (Option Bytes)}

theorem expire_cases (r : BleReceiver) (nowMs : ℕ) :
    (r.expire nowMs).active = none ∨
      r.expire nowMs = r ∧ ∀ a, r.active = some a → a.lastMs ≤ nowMs ∧ nowMs < a.lastMs + timeoutMs := by
  unfold expire
  cases h : r.active with
  | none => exact .inl h
  | some a =>
    by_cases hold : nowMs < a.lastMs ∨ nowMs - a.lastMs ≥ timeoutMs
    · simp only [if_pos hold]
      exact .inl rfl
    · simp only [if_neg hold, true_and]
      refine .inr fun b hb => ?_
      cases hb
      omega

theorem expecting_some {index : UInt8} {r₁ : BleReceiver} (h : r.expecting index = some r₁) :
    (index = 0 ∧ r.active = none ∧ r₁ = { r with len := 0 }) ∨ ∃ a, r.active = some a ∧ a.expected = index ∧ r₁ = r := by
  unfold expecting at h
  cases ha : r.active with
  | none =>
    rw [ha] at h
    by_cases hindex : index ≠ 0
    · simp [hindex] at h
    · simp only [if_neg hindex, Option.some.injEq] at h
      exact .inl ⟨not_not.mp hindex, rfl, h.symm⟩
  | some a =>
    rw [ha] at h
    by_cases hindex : a.expected ≠ index
    · simp [hindex] at h
    · simp only [if_neg hindex, Option.some.injEq] at h
      exact .inr ⟨a, rfl, not_not.mp hindex, h.symm⟩

theorem forId_cases (r : BleReceiver) (id : UInt8) :
    (r.forId id).active = none ∨ r.forId id = r ∧ ∀ a, r.active = some a → a.id = id := by
  unfold forId
  cases h : r.active with
  | none => exact .inl h
  | some a =>
    by_cases hid : a.id ≠ id
    · simp only [if_pos hid]
      exact .inl rfl
    · simp only [if_neg hid, true_and]
      refine .inr fun b hb => ?_
      cases hb
      exact not_not.mp hid

theorem store_ok {id index : UInt8} {last : Bool} {data : Bytes} {done : Bool}
    (h : r.store id index last data nowMs = (.ok done, r')) : done = last ∧ r.len + data.length ≤ maxPayload ∧
      r'.len = r.len + data.length ∧ r'.bytes.held r'.len = r.bytes.held r.len ++ data ∧
      (last = true → r'.active = none) ∧
      (last = false → ∃ next, nextIndex index = some next ∧ r'.active = some ⟨id, next, nowMs⟩) := by
  unfold store at h
  by_cases hroom : last = false ∧ (index = indexMask ∨ r.len + data.length ≥ maxPayload)
  · simp [hroom] at h
  · rw [if_neg hroom] at h
    by_cases hfits : r.len + data.length ≤ maxPayload
    · obtain ⟨bytes, hset, hheld⟩ := r.bytes.set_held r.len data hfits
      rw [hset] at h
      cases last with
      | true =>
        cases h
        exact ⟨rfl, hfits, rfl, hheld, fun _ => rfl, nofun⟩
      | false =>
        dsimp only at h
        cases hnext : nextIndex index with
        | none => simp [hnext] at h
        | some next =>
          simp only [hnext, Bool.false_eq_true, if_false, Prod.mk.injEq, Except.ok.injEq] at h
          obtain ⟨rfl, rfl⟩ := h
          exact ⟨rfl, hfits, rfl, hheld, nofun, fun _ => ⟨next, rfl, rfl⟩⟩
    · rw [r.bytes.set_none r.len data (by omega)] at h
      cases h

theorem append_ok {done : Bool} (h : r.append value mtu nowMs = (.ok done, r')) :
    ∃ f r₁, Fragment.of value nowMs = some f ∧ f.atMs = nowMs ∧ (r.forId f.id).expecting f.index = some r₁ ∧
      r₁.store f.id f.index f.last f.data nowMs = (.ok done, r') := by
  unfold append at h
  split_ifs at h with hlength
  · cases h
  match value, h with
  | id :: flags :: data, h =>
    dsimp only at h
    cases hexpecting : (r.forId id).expecting (flags &&& indexMask) with
    | none => simp [hexpecting] at h
    | some r₁ =>
      rw [hexpecting] at h
      exact ⟨_, r₁, rfl, rfl, hexpecting, h⟩
  | [id], h => cases h
  | [], h => cases h

theorem receive_took (h : r.receive value mtu nowMs = (result, r')) :
    (∃ why, result = .error why ∧ r'.active = none ∧ r'.len = 0) ∨
      ∃ f sofar, Fragment.of value nowMs = some f ∧ f.atMs = nowMs ∧ r.Took f sofar result r' := by
  unfold receive at h
  cases happ : (r.expire nowMs).append value mtu nowMs with
  | mk answer r₂ =>
    rw [happ] at h
    cases answer with
    | error why =>
      cases h
      exact .inl ⟨why, rfl, rfl, rfl⟩
    | ok done =>
      obtain ⟨f, r₁, hf, hat, hexpecting, hstore⟩ := append_ok happ
      obtain ⟨rfl, hfits, hlen, hheld, hlast, hmore⟩ := store_ok hstore
      have hlength : (r₁.bytes.held r₁.len).length = r₁.len := Buffer.held_length (by omega)
      refine .inr ⟨f, r₁.bytes.held r₁.len, hf, hat, ?_, ?_, ?_⟩
      · rcases expecting_some hexpecting with ⟨hindex, -, rfl⟩ | ⟨a, ha, hexpected, rfl⟩
        · exact .inl ⟨hindex, rfl⟩
        · rcases forId_cases (r.expire nowMs) f.id with hnone | ⟨hsame, hid⟩
          · rw [hnone] at ha
            cases ha
          · rw [hsame] at ha ⊢
            rcases expire_cases r nowMs with hnone | ⟨hkept, -⟩
            · rw [hnone] at ha
              cases ha
            · refine .inr ⟨a, by rw [hat]; exact ha, hid a ha, hexpected, by rw [hkept]⟩
      · rw [List.length_append, hlength]
        exact hfits
      · cases hl : f.last with
        | true =>
          rw [hl] at h
          simp only [Prod.mk.injEq] at h
          obtain ⟨rfl, rfl⟩ := h
          refine .inl ⟨rfl, ?_, hlast hl⟩
          rw [Buffer.get_held (Nat.zero_le _) (by omega), hheld, List.drop_zero]
        | false =>
          rw [hl] at h
          simp only [Prod.mk.injEq] at h
          obtain ⟨rfl, rfl⟩ := h
          obtain ⟨next, hnext, hactive⟩ := hmore hl
          refine .inr ⟨rfl, rfl, ?_, hheld, next, hnext, by rw [hat]; exact hactive⟩
          rw [hlen, List.length_append, hlength]

theorem Took.gathers {ops : List ReceiverOp} {f : Fragment} {sofar : Bytes} (mtu : BleMtu) (h : r.Took f sofar result r')
    (hf : Fragment.of value nowMs = some f) (hk : r.Kept ops) :
    ∃ before window fragments, ops ++ [.receive value mtu nowMs] = before ++ window ∧
      Gathers window f.id (fragments ++ [f]) ∧ (∀ g ∈ fragments, g.last = false) ∧
      sofar = Fragment.bodies fragments ∧ f.index.toNat = fragments.length := by
  have hop : (ReceiverOp.receive value mtu nowMs).received = [some f] := congrArg (fun x => [x]) hf
  rcases h.continues with ⟨hindex, rfl⟩ | ⟨a, ha, hid, hexpected, rfl⟩
  · refine ⟨ops, _, [], rfl, .start hop hindex, by simp, rfl, ?_⟩
    rw [hindex]
    rfl
  · rcases expire_cases r f.atMs with hnone | ⟨hsame, hfresh⟩
    · rw [hnone] at ha
      cases ha
    · rw [hsame] at ha
      rcases hk with hnone | ⟨fragments, last, hassembles⟩
      · rw [hnone] at ha
        cases ha
      · obtain ⟨next, hactive, hnext⟩ := hassembles.active
        rw [hactive] at ha
        cases ha
        obtain ⟨before, window, rfl, hgathers⟩ := hassembles.window
        obtain ⟨hlow, hhigh⟩ := hfresh _ hactive
        dsimp only at hid hexpected hlow hhigh
        have hindex : f.index.toNat = (fragments ++ [last]).length := by rw [← hexpected, hnext]
        refine ⟨before, window ++ [.receive value mtu nowMs], fragments ++ [last], by simp, ?_, hassembles.more,
          hassembles.held, hindex⟩
        rw [← hid]
        apply hgathers.snoc hop hid.symm hindex
        intro g hg
        rw [List.getLast?_concat] at hg
        obtain rfl := Option.some.inj hg
        exact ⟨hlow, hhigh⟩

theorem receive_kept {ops : List ReceiverOp} (hk : r.Kept ops) (h : r.receive value mtu nowMs = (result, r')) :
    r'.Kept (ops ++ [.receive value mtu nowMs]) ∧
      ∀ message, result = .ok (some message) → Message (ops ++ [.receive value mtu nowMs]) message := by
  rcases receive_took h with ⟨why, rfl, hnone, -⟩ | ⟨f, sofar, hf, -, htook⟩
  · exact ⟨.inl hnone, nofun⟩
  · obtain ⟨before, window, fragments, hops, hgathers, hmore, rfl, hindex⟩ := htook.gathers mtu hf hk
    have hbodies := Fragment.bodies_snoc fragments f
    have hfits := htook.fits
    rw [← hbodies] at hfits
    rcases htook.outcome with ⟨hlast, rfl, hnone⟩ | ⟨hlast, rfl, hlen, hheld, next, hnext, hactive⟩
    · refine ⟨.inl hnone, fun message hmessage => ?_⟩
      obtain rfl := Option.some.inj (Except.ok.inj hmessage)
      exact ⟨before, window, f.id, fragments, f, hops, hgathers, hmore, hlast, hbodies.symm, hbodies ▸ hfits⟩
    · rw [← hbodies] at hlen hheld
      refine ⟨.inr ⟨fragments, f, ⟨before, window, hops, hgathers⟩, ?_, ⟨next, hactive, ?_⟩, hlen, hlen ▸ hfits, hheld⟩,
        nofun⟩
      · intro g hg
        rcases List.mem_append.mp hg with hg | hg
        · exact hmore g hg
        · rw [List.mem_singleton.mp hg, hlast]
      · have hne : f.index ≠ 255 := by
          intro h255
          simp [nextIndex, h255] at hnext
        have hlt : f.index.toNat < 255 := by
          have hbound := f.index.toNat_lt
          have hne' : f.index.toNat ≠ 255 := fun h => hne (UInt8.toNat_inj.mp h)
          omega
        obtain ⟨next', hnext', hnat⟩ := nextIndex_some hlt
        rw [hnext] at hnext'
        obtain rfl := Option.some.inj hnext'
        rw [hnat, hindex, List.length_append, List.length_singleton]

theorem expire_kept {ops : List ReceiverOp} (hk : r.Kept ops) (nowMs : ℕ) :
    (r.expire nowMs).Kept (ops ++ [.expire nowMs]) := by
  rcases expire_cases r nowMs with hnone | ⟨hsame, -⟩
  · exact .inl hnone
  · rw [hsame]
    refine hk.imp_right ?_
    rintro ⟨fragments, last, h⟩
    obtain ⟨before, window, rfl, hgathers⟩ := h.window
    exact ⟨fragments, last, ⟨before, window ++ [.expire nowMs], by simp, hgathers.expire nowMs⟩, h.more, h.active, h.len,
      h.fits, h.held⟩

theorem step_kept {ops : List ReceiverOp} (hk : r.Kept ops) (op : ReceiverOp) : (step r op).1.Kept (ops ++ [op]) := by
  cases op with
  | receive value mtu nowMs => exact (receive_kept hk rfl).1
  | expire nowMs => exact expire_kept hk nowMs
  | reset => exact .inl rfl

theorem run_kept (hidle : r.active = none) (ops : List ReceiverOp) : (Machine.final step r ops).Kept ops := by
  have h := Machine.final_history (m := step) (fun r ops _ => r.Kept ops) (fun r ops _ op hk => step_kept hk op) [] []
    (.inl hidle) ops
  exact h

/-- Whatever values and clock readings come: a message is one run of fragments, and a value that
is refused leaves a receiver from which later messages are runs of later fragments alone. -/
theorem messages_whole (ops : List ReceiverOp) (value : Bytes) (mtu : BleMtu) (nowMs : ℕ) :
    let r := Machine.final step new ops
    (∀ message, (r.receive value mtu nowMs).1 = .ok (some message) →
      Message (ops ++ [.receive value mtu nowMs]) message) ∧
    ∀ why, (r.receive value mtu nowMs).1 = .error why →
      (r.receive value mtu nowMs).2.active = none ∧ (r.receive value mtu nowMs).2.len = 0 ∧
      ∀ (later : List ReceiverOp) (value' : Bytes) (mtu' : BleMtu) (nowMs' : ℕ) (message : Bytes),
        ((Machine.final step (r.receive value mtu nowMs).2 later).receive value' mtu' nowMs').1 = .ok (some message) →
          Message (later ++ [.receive value' mtu' nowMs']) message := by
  have hmessage : ∀ (r : BleReceiver) (ops : List ReceiverOp) (value : Bytes) (mtu : BleMtu) (nowMs : ℕ) (message : Bytes),
      r.active = none → ((Machine.final step r ops).receive value mtu nowMs).1 = .ok (some message) →
        Message (ops ++ [.receive value mtu nowMs]) message := fun r ops value mtu nowMs message hidle h =>
    (receive_kept (run_kept hidle ops) rfl).2 message h
  intro r
  refine ⟨fun message h => hmessage new ops value mtu nowMs message rfl h, fun why h => ?_⟩
  rcases receive_took (Prod.mk.eta (p := r.receive value mtu nowMs)) with ⟨_, -, hnone, hlen⟩ | ⟨f, sofar, -, -, htook⟩
  · exact ⟨hnone, hlen, fun later value' mtu' nowMs' message hm => hmessage _ later value' mtu' nowMs' message hnone hm⟩
  · rcases htook.outcome with ⟨-, hok, -⟩ | ⟨-, hok, -⟩
    · cases h.symm.trans hok
    · cases h.symm.trans hok

end BleReceiver

end Km43.Ble
