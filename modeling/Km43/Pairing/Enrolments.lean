import Km43.Identity.Crypto
import Km43.Library.Lists

namespace Km43.Pairing

open Library Identity

structure Occupant where
  key : PublicKey
  label : Bytes
  role : Role
  deriving DecidableEq

structure SlotView where
  clientId : ClientId
  held : Option Occupant
  deriving DecidableEq

structure Placement where
  clientId : ClientId
  role : Role
  deriving DecidableEq

inductive Allocation
  | sameKey (placement : Placement)
  | free (placement : Placement)
  | reclaim (placement : Placement)
  | full
  deriving DecidableEq

def occupants (slots : List SlotView) : List (ClientId × Occupant) :=
  slots.filterMap fun slot => slot.held.map fun occupant => (slot.clientId, occupant)

def lowest (slots : List SlotView) (pick : Occupant → Bool) : Option (ClientId × Occupant) :=
  ((occupants slots).filter fun p => pick p.2).argmin fun p => p.1.get.toNat

def holding (slots : List SlotView) (role : Role) : ℕ :=
  ((occupants slots).filter fun p => decide (p.2.role = role)).length

def newcomer (slots : List SlotView) : Role × Bool :=
  if holding slots .owner = 0 then (.owner, true) else (.admin, decide (holding slots .admin < maxAdmins))

def freeSlot (slots : List SlotView) : Option ClientId :=
  ((slots.filter fun slot => slot.held.isNone).map SlotView.clientId).argmin fun id => id.get.toNat

def seat (slots : List SlotView) : Option Placement :=
  if (newcomer slots).2 then (freeSlot slots).map fun id => ⟨id, (newcomer slots).1⟩ else none

namespace Allocation

def choose (slots : List SlotView) (key : Option PublicKey) (label : Bytes) : Allocation :=
  match key.bind fun key => lowest slots fun occupant => occupant.key.matches key with
  | some (clientId, occupant) => .sameKey ⟨clientId, occupant.role⟩
  | none =>
    match seat slots with
    | some placement => .free placement
    | none =>
      match lowest slots fun occupant => decide (occupant.role = .admin ∧ occupant.label = label) with
      | some (clientId, _) => .reclaim ⟨clientId, .admin⟩
      | none => .full

def placement? : Allocation → Option Placement
  | sameKey placement => some placement
  | free placement => some placement
  | reclaim placement => some placement
  | full => none

end Allocation

structure Enrolment where
  key : PublicKey
  label : Bytes
  deriving DecidableEq

def write (slots : List SlotView) (placement : Placement) (e : Enrolment) : List SlotView :=
  slots.map fun slot =>
    if slot.clientId = placement.clientId then { slot with held := some ⟨e.key, e.label, placement.role⟩ } else slot

def enrol (slots : List SlotView) (e : Enrolment) : List SlotView :=
  match (Allocation.choose slots (some e.key) e.label).placement? with
  | some placement => write slots placement e
  | none => slots

def enrolAll (slots : List SlotView) (run : List Enrolment) : List SlotView := run.foldl enrol slots

variable {slots slots' : List SlotView} {key : Option PublicKey} {label : Bytes} {e : Enrolment}

def Holds (P : Occupant → Prop) (slot : SlotView) : Prop := ∃ occupant, slot.held = some occupant ∧ P occupant

def Lowest (slots : List SlotView) (P : SlotView → Prop) (slot : SlotView) : Prop :=
  slot ∈ slots ∧ P slot ∧ ∀ other ∈ slots, P other → slot.clientId.get ≤ other.clientId.get

theorem mem_occupants {id : ClientId} {occupant : Occupant} :
    (id, occupant) ∈ occupants slots ↔ ∃ slot ∈ slots, slot.held = some occupant ∧ slot.clientId = id := by
  simp only [occupants, List.mem_filterMap, Option.map_eq_some_iff, Prod.mk.injEq]
  constructor
  · rintro ⟨slot, hs, o, ho, rfl, rfl⟩
    exact ⟨slot, hs, ho, rfl⟩
  · rintro ⟨slot, hs, ho, rfl⟩
    exact ⟨slot, hs, occupant, ho, rfl, rfl⟩

theorem lowest_some {pick : Occupant → Bool} {id : ClientId} {occupant : Occupant}
    (h : lowest slots pick = some (id, occupant)) :
    ∃ slot, Lowest slots (Holds fun o => pick o = true) slot ∧ slot.held = some occupant ∧ slot.clientId = id := by
  obtain ⟨hmem, hlow⟩ := argmin_lowest h
  obtain ⟨hocc, hpick⟩ := List.mem_filter.mp hmem
  obtain ⟨slot, hs, ho, rfl⟩ := mem_occupants.mp hocc
  refine ⟨slot, ⟨hs, ⟨occupant, ho, hpick⟩, ?_⟩, ho, rfl⟩
  rintro other hother ⟨o, hoo, hpo⟩
  apply UInt32.le_iff_toNat_le.mpr
  exact hlow (other.clientId, o) (List.mem_filter.mpr ⟨mem_occupants.mpr ⟨other, hother, hoo, rfl⟩, hpo⟩)

theorem lowest_none {pick : Occupant → Bool} (h : lowest slots pick = none) :
    ∀ slot ∈ slots, ¬Holds (fun o => pick o = true) slot := by
  rintro slot hs ⟨o, ho, hpick⟩
  have hmem : (slot.clientId, o) ∈ (occupants slots).filter fun p => pick p.2 :=
    List.mem_filter.mpr ⟨mem_occupants.mpr ⟨slot, hs, ho, rfl⟩, hpick⟩
  rw [List.argmin_eq_none.mp h] at hmem
  cases hmem

theorem freeSlot_some {id : ClientId} (h : freeSlot slots = some id) :
    ∃ slot, Lowest slots (fun s => s.held = none) slot ∧ slot.clientId = id := by
  obtain ⟨hmem, hlow⟩ := argmin_lowest h
  obtain ⟨slot, hs, rfl⟩ := List.mem_map.mp hmem
  obtain ⟨hs, hnone⟩ := List.mem_filter.mp hs
  refine ⟨slot, ⟨hs, Option.isNone_iff_eq_none.mp hnone, ?_⟩, rfl⟩
  intro other hother ho
  apply UInt32.le_iff_toNat_le.mpr
  exact hlow _ (List.mem_map_of_mem (List.mem_filter.mpr ⟨hother, by rw [ho]; rfl⟩))

theorem freeSlot_none (h : freeSlot slots = none) : ∀ slot ∈ slots, slot.held ≠ none := by
  intro slot hs hheld
  have hmem : slot.clientId ∈ (slots.filter fun slot => slot.held.isNone).map SlotView.clientId :=
    List.mem_map_of_mem (List.mem_filter.mpr ⟨hs, by rw [hheld]; rfl⟩)
  rw [List.argmin_eq_none.mp h] at hmem
  cases hmem

theorem seat_some {placement : Placement} (h : seat slots = some placement) :
    (newcomer slots).2 = true ∧
      ∃ slot, Lowest slots (fun s => s.held = none) slot ∧ placement = ⟨slot.clientId, (newcomer slots).1⟩ := by
  unfold seat at h
  split_ifs at h with hroom
  obtain ⟨id, hfree, rfl⟩ := Option.map_eq_some_iff.mp h
  obtain ⟨slot, hlow, rfl⟩ := freeSlot_some hfree
  exact ⟨hroom, slot, hlow, rfl⟩

theorem choose_cases (slots : List SlotView) (key : Option PublicKey) (label : Bytes) :
    (∃ k slot occupant, key = some k ∧ Lowest slots (Holds fun o => o.key = k) slot ∧ slot.held = some occupant ∧
        Allocation.choose slots key label = .sameKey ⟨slot.clientId, occupant.role⟩) ∨
      (∀ k, key = some k → ∀ slot ∈ slots, ¬Holds (fun o => o.key = k) slot) ∧
        ((∃ slot, (newcomer slots).2 = true ∧ Lowest slots (fun s => s.held = none) slot ∧
            Allocation.choose slots key label = .free ⟨slot.clientId, (newcomer slots).1⟩) ∨
          seat slots = none ∧
            ((∃ slot, Lowest slots (Holds fun o => o.role = .admin ∧ o.label = label) slot ∧
                Allocation.choose slots key label = .reclaim ⟨slot.clientId, .admin⟩) ∨
              (∀ slot ∈ slots, ¬Holds (fun o => o.role = .admin ∧ o.label = label) slot) ∧
                Allocation.choose slots key label = .full)) := by
  unfold Allocation.choose
  cases hsame : key.bind fun key => lowest slots fun occupant => occupant.key.matches key with
  | some found =>
    obtain ⟨id, occupant⟩ := found
    obtain ⟨k, rfl, hfound⟩ := Option.bind_eq_some_iff.mp hsame
    obtain ⟨slot, hlow, ho, rfl⟩ := lowest_some hfound
    simp only [PublicKey.matches, decide_eq_true_eq] at hlow
    exact .inl ⟨k, slot, occupant, rfl, hlow, ho, rfl⟩
  | none =>
    refine .inr ⟨?_, ?_⟩
    · rintro k rfl
      have hnone := lowest_none (show lowest slots (fun occupant => occupant.key.matches k) = none from hsame)
      simpa only [PublicKey.matches, decide_eq_true_eq] using hnone
    · cases hseat : seat slots with
      | some placement =>
        obtain ⟨hroom, slot, hlow, rfl⟩ := seat_some hseat
        exact .inl ⟨slot, hroom, hlow, rfl⟩
      | none =>
        refine .inr ⟨rfl, ?_⟩
        cases hlabel : lowest slots fun occupant => decide (occupant.role = .admin ∧ occupant.label = label) with
        | some found =>
          obtain ⟨id, occupant⟩ := found
          obtain ⟨slot, hlow, -, rfl⟩ := lowest_some hlabel
          simp only [decide_eq_true_eq] at hlow
          exact .inl ⟨slot, hlow, rfl⟩
        | none => exact .inr ⟨by simpa only [decide_eq_true_eq] using lowest_none hlabel, rfl⟩

/-- A client table: no number and no key twice, and no more admins than may be. -/
structure Sound (slots : List SlotView) : Prop where
  ids : (slots.map SlotView.clientId).Nodup
  keys : ((occupants slots).map fun p => p.2.key).Nodup
  admins : holding slots .admin ≤ maxAdmins

theorem occupants_perm (h : slots.Perm slots') : (occupants slots).Perm (occupants slots') := h.filterMap _

theorem holding_perm (h : slots.Perm slots') (role : Role) : holding slots role = holding slots' role :=
  ((occupants_perm h).filter _).length_eq

theorem Sound.perm (h : Sound slots) (hperm : slots.Perm slots') : Sound slots' :=
  ⟨(hperm.map _).nodup_iff.mp h.ids, ((occupants_perm hperm).map _).nodup_iff.mp h.keys,
    (holding_perm hperm .admin).symm.trans_le h.admins⟩

theorem occupants_held {slot : SlotView} {occupant : Occupant} (h : slot.held = some occupant) :
    occupants (slot :: slots) = (slot.clientId, occupant) :: occupants slots := by
  simp [occupants, h]

theorem occupants_free {slot : SlotView} (h : slot.held = none) : occupants (slot :: slots) = occupants slots := by
  simp [occupants, h]

theorem holding_held {slot : SlotView} {occupant : Occupant} (h : slot.held = some occupant) (role : Role) :
    holding (slot :: slots) role = holding slots role + if occupant.role = role then 1 else 0 := by
  rw [holding, occupants_held h, List.filter_cons]
  by_cases hrole : occupant.role = role
  · simp [hrole, holding]
  · simp [hrole, holding]

theorem holding_free {slot : SlotView} (h : slot.held = none) (role : Role) :
    holding (slot :: slots) role = holding slots role := by
  rw [holding, occupants_free h]
  rfl

def SlotView.taken (slot : SlotView) (e : Enrolment) (role : Role) : SlotView :=
  { slot with held := some ⟨e.key, e.label, role⟩ }

theorem write_perm {slot : SlotView} (role : Role) (hids : (slots.map SlotView.clientId).Nodup)
    (hs : slot ∈ slots) :
    ∃ rest, slots.Perm (slot :: rest) ∧ (write slots ⟨slot.clientId, role⟩ e).Perm (slot.taken e role :: rest) := by
  have hperm := List.perm_cons_erase hs
  refine ⟨slots.erase slot, hperm, ?_⟩
  have hnodup := (hperm.map SlotView.clientId).nodup_iff.mp hids
  rw [List.map_cons, List.nodup_cons] at hnodup
  apply (hperm.map _).trans
  rw [List.map_cons, if_pos rfl]
  apply List.Perm.cons
  apply List.Perm.of_eq
  conv_rhs => rw [← List.map_id (slots.erase slot)]
  apply List.map_congr_left
  intro other hother
  apply if_neg
  intro hid
  exact hnodup.1 (List.mem_map.mpr ⟨other, hother, hid⟩)

/-- What an enrolment does to a table: nothing, or one slot written, which held its own key, nothing, or an
admin under its label. -/
theorem enrol_cases (h : Sound slots) (e : Enrolment) :
    enrol slots e = slots ∨ ∃ slot rest role, slots.Perm (slot :: rest) ∧
      enrol slots e = write slots ⟨slot.clientId, role⟩ e ∧
      (enrol slots e).Perm (slot.taken e role :: rest) ∧
      ((∃ o, slot.held = some o ∧ o.key = e.key ∧ role = o.role) ∨
        (∀ s ∈ slots, ¬Holds (fun o => o.key = e.key) s) ∧
          (slot.held = none ∧ newcomer slots = (role, true) ∨
            ∃ o, slot.held = some o ∧ o.role = .admin ∧ o.label = e.label ∧ role = .admin ∧ seat slots = none)) := by
  have hwrite : ∀ placement, (Allocation.choose slots (some e.key) e.label).placement? = some placement →
      enrol slots e = write slots placement e := by
    intro placement hp
    rw [enrol, hp]
  rcases choose_cases slots (some e.key) e.label with
    ⟨k, slot, o, hk, ⟨hs, ⟨o', ho', hkey⟩, -⟩, ho, hchoose⟩ |
    ⟨hfresh, ⟨slot, hroom, ⟨hs, hnone, -⟩, hchoose⟩ | ⟨hseat, ⟨slot, ⟨hs, ⟨o, ho, hrole, hlabel⟩, -⟩, hchoose⟩ | ⟨-, hchoose⟩⟩⟩
  · cases hk
    rw [ho, Option.some.injEq] at ho'
    subst ho'
    have henrol := hwrite ⟨slot.clientId, o.role⟩ (by rw [hchoose]; rfl)
    obtain ⟨rest, hperm, hwritten⟩ := write_perm (e := e) o.role h.ids hs
    exact .inr ⟨slot, rest, o.role, hperm, henrol, henrol ▸ hwritten, .inl ⟨o, ho, hkey, rfl⟩⟩
  · have henrol := hwrite ⟨slot.clientId, (newcomer slots).1⟩ (by rw [hchoose]; rfl)
    obtain ⟨rest, hperm, hwritten⟩ := write_perm (e := e) (newcomer slots).1 h.ids hs
    exact .inr ⟨slot, rest, _, hperm, henrol, henrol ▸ hwritten,
      .inr ⟨hfresh e.key rfl, .inl ⟨hnone, Prod.ext rfl hroom⟩⟩⟩
  · have henrol := hwrite ⟨slot.clientId, .admin⟩ (by rw [hchoose]; rfl)
    obtain ⟨rest, hperm, hwritten⟩ := write_perm (e := e) .admin h.ids hs
    exact .inr ⟨slot, rest, .admin, hperm, henrol, henrol ▸ hwritten,
      .inr ⟨hfresh e.key rfl, .inr ⟨o, ho, hrole, hlabel, rfl, hseat⟩⟩⟩
  · left
    rw [enrol, hchoose]
    rfl

theorem newcomer_cases {role : Role} (h : newcomer slots = (role, true)) :
    role = .owner ∧ holding slots .owner = 0 ∨
      role = .admin ∧ holding slots .owner ≠ 0 ∧ holding slots .admin < maxAdmins := by
  unfold newcomer at h
  split_ifs at h with hnone
  · cases h
    exact .inl ⟨rfl, hnone⟩
  · obtain ⟨rfl, hroom⟩ := Prod.mk.inj h
    exact .inr ⟨rfl, hnone, of_decide_eq_true hroom⟩

theorem fresh_rest {slot : SlotView} {rest : List SlotView} {k : PublicKey} (hperm : slots.Perm (slot :: rest))
    (hfresh : ∀ s ∈ slots, ¬Holds (fun o => o.key = k) s) : k ∉ (occupants rest).map fun p => p.2.key := by
  intro hk
  obtain ⟨⟨id, o⟩, hmem, hkey⟩ := List.mem_map.mp hk
  obtain ⟨s, hs, ho, -⟩ := mem_occupants.mp hmem
  exact hfresh s (hperm.mem_iff.mpr (List.mem_cons_of_mem _ hs)) ⟨o, ho, hkey⟩

theorem enrol_sound (h : Sound slots) (e : Enrolment) :
    Sound (enrol slots e) ∧ (holding (enrol slots e) .owner = holding slots .owner ∨
      holding slots .owner = 0 ∧ holding (enrol slots e) .owner = 1) := by
  rcases enrol_cases h e with hsame | ⟨slot, rest, role, hperm, -, hwritten, hcase⟩
  · rw [hsame]
    exact ⟨h, .inl rfl⟩
  have hsound := h.perm hperm
  have hids := hsound.ids
  have hkeys := hsound.keys
  have hadmins := hsound.admins
  have hheld : (slot.taken e role).held = some ⟨e.key, e.label, role⟩ := rfl
  suffices hgoal : ((occupants (slot.taken e role :: rest)).map fun p => p.2.key).Nodup ∧
      holding (slot.taken e role :: rest) .admin ≤ maxAdmins ∧
      (holding (slot.taken e role :: rest) .owner = holding (slot :: rest) .owner ∨
        holding (slot :: rest) .owner = 0 ∧ holding (slot.taken e role :: rest) .owner = 1) by
    obtain ⟨hk, ha, ho⟩ := hgoal
    have htaken : Sound (slot.taken e role :: rest) := ⟨hids, hk, ha⟩
    refine ⟨htaken.perm hwritten.symm, ?_⟩
    rw [holding_perm hwritten, holding_perm hperm]
    exact ho
  rw [holding_held hheld, holding_held hheld, occupants_held hheld, List.map_cons, List.nodup_cons]
  rcases hcase with ⟨o, ho, hkey, rfl⟩ | ⟨hfresh, ⟨hnone, hrole⟩ | ⟨o, ho, hadmin, -, rfl, -⟩⟩
  · rw [occupants_held ho, List.map_cons, List.nodup_cons] at hkeys
    rw [holding_held ho] at hadmins ⊢
    exact ⟨hkey ▸ hkeys, hadmins, .inl rfl⟩
  · rw [occupants_free hnone] at hkeys
    rw [holding_free hnone] at hadmins ⊢
    refine ⟨⟨fresh_rest hperm hfresh, hkeys⟩, ?_⟩
    have howner := holding_perm hperm .owner
    have hcount := holding_perm hperm .admin
    rw [holding_free hnone] at howner hcount
    rcases newcomer_cases hrole with ⟨rfl, hzero⟩ | ⟨rfl, hsome, hroom⟩
    · simp only [if_true, reduceCtorEq, if_false]
      omega
    · simp only [if_true, reduceCtorEq, if_false]
      omega
  · rw [occupants_held ho, List.map_cons, List.nodup_cons] at hkeys
    rw [holding_held ho, hadmin] at hadmins
    rw [holding_held ho, hadmin]
    exact ⟨⟨fresh_rest hperm hfresh, hkeys.2⟩, hadmins, .inl rfl⟩

theorem enrolAll_snoc (slots : List SlotView) (run : List Enrolment) (e : Enrolment) :
    enrolAll slots (run ++ [e]) = enrol (enrolAll slots run) e := List.foldl_concat ..

theorem enrolAll_sound (h : Sound slots) (run : List Enrolment) :
    Sound (enrolAll slots run) ∧ holding slots .owner ≤ holding (enrolAll slots run) .owner ∧
      holding (enrolAll slots run) .owner ≤ max 1 (holding slots .owner) := by
  induction run using List.reverseRecOn with
  | nil => exact ⟨h, le_rfl, le_max_right _ _⟩
  | append_singleton run e ih =>
    rw [enrolAll_snoc]
    obtain ⟨hsound, hlow, hhigh⟩ := ih
    obtain ⟨hkept, howner⟩ := enrol_sound hsound e
    refine ⟨hkept, ?_⟩
    omega

theorem Sound.same_slot (h : Sound slots) {a b : SlotView} (ha : a ∈ slots) (hb : b ∈ slots)
    (hid : a.clientId = b.clientId) : a = b := List.inj_on_of_nodup_map h.ids ha hb hid

theorem enrol_overwrites (h : Sound slots) (e : Enrolment) {k : ℕ} {slot : SlotView} {o : Occupant}
    (hk : slots[k]? = some slot) (ho : slot.held = some o) :
    (enrol slots e)[k]? = some slot ∨ (enrol slots e)[k]? = some (slot.taken e o.role) ∧
      (o.key = e.key ∨ o.role = .admin ∧ o.label = e.label ∧ seat slots = none ∧
        ∀ s ∈ slots, ¬Holds (fun o => o.key = e.key) s) := by
  have hs := List.mem_of_getElem? hk
  rcases enrol_cases h e with hsame | ⟨other, rest, role, hperm, henrol, -, hcase⟩
  · rw [hsame]
    exact .inl hk
  have hother : other ∈ slots := hperm.mem_iff.mpr List.mem_cons_self
  by_cases hid : slot.clientId = other.clientId
  · obtain rfl := h.same_slot hs hother hid
    right
    rw [henrol, write, List.getElem?_map, hk, Option.map_some, if_pos rfl]
    rcases hcase with ⟨o', ho', hkey, rfl⟩ | ⟨hfresh, ⟨hnone, -⟩ | ⟨o', ho', hadmin, hlabel, rfl, hseat⟩⟩
    · obtain rfl : o = o' := Option.some.inj (ho.symm.trans ho')
      exact ⟨rfl, .inl hkey⟩
    · rw [ho] at hnone
      cases hnone
    · obtain rfl : o = o' := Option.some.inj (ho.symm.trans ho')
      exact ⟨by rw [hadmin]; rfl, .inr ⟨hadmin, hlabel, hseat, hfresh⟩⟩
  · left
    rw [henrol, write, List.getElem?_map, hk, Option.map_some, if_neg hid]

theorem choose_perm (h : Sound slots) (hperm : slots.Perm slots') (key : Option PublicKey) (label : Bytes) :
    Allocation.choose slots' key label = Allocation.choose slots key label := by
  have hget : ∀ a ∈ slots, ∀ b ∈ slots, a.clientId.get.toNat = b.clientId.get.toNat → a = b := by
    intro a ha b hb hid
    exact h.same_slot ha hb (NonZeroU32.ext (UInt32.toNat_inj.mp hid))
  have hlowest : ∀ pick, lowest slots' pick = lowest slots pick := by
    intro pick
    apply Eq.symm
    apply argmin_perm ((occupants_perm hperm).filter _)
    rintro ⟨i, o⟩ hi ⟨j, o'⟩ hj hij
    obtain ⟨a, ha, hao, rfl⟩ := mem_occupants.mp (List.mem_filter.mp hi).1
    obtain ⟨b, hb, hbo, rfl⟩ := mem_occupants.mp (List.mem_filter.mp hj).1
    obtain rfl := hget a ha b hb hij
    rw [Option.some.inj (hao.symm.trans hbo)]
  have hfree : freeSlot slots' = freeSlot slots := by
    apply Eq.symm
    apply argmin_perm ((hperm.filter _).map _)
    intro i hi j hj hij
    exact NonZeroU32.ext (UInt32.toNat_inj.mp hij)
  have hnewcomer : newcomer slots' = newcomer slots := by
    rw [newcomer, newcomer, holding_perm hperm, holding_perm hperm]
  unfold Allocation.choose seat
  rw [hnewcomer, hfree, hlowest]
  simp only [hlowest]

theorem holding_all (slots : List SlotView) :
    (occupants slots).length = holding slots .owner + holding slots .admin + holding slots .viewer := by
  unfold holding
  induction occupants slots with
  | nil => rfl
  | cons p rest ih =>
    simp only [List.filter_cons, List.length_cons, ih]
    cases p.2.role <;> simp <;> omega

theorem occupants_length (h : ∀ slot ∈ slots, slot.held ≠ none) : (occupants slots).length = slots.length := by
  induction slots with
  | nil => rfl
  | cons slot rest ih =>
    obtain ⟨hslot, hrest⟩ := List.forall_mem_cons.mp h
    obtain ⟨o, ho⟩ := Option.ne_none_iff_exists'.mp hslot
    rw [occupants_held ho, List.length_cons, List.length_cons, ih hrest]

theorem choose_owner (h : Sound slots) (hlen : slots.length = maxClients)
    (hviewers : holding slots .viewer ≤ maxViewers) (hnone : holding slots .owner = 0) {k : PublicKey}
    (hfresh : ∀ s ∈ slots, ¬Holds (fun o => o.key = k) s) (label : Bytes) :
    ∃ id, Allocation.choose slots (some k) label = .free ⟨id, .owner⟩ := by
  have hnewcomer : newcomer slots = (.owner, true) := if_pos hnone
  cases hfree : freeSlot slots with
  | none =>
    have hfull := occupants_length (freeSlot_none hfree)
    have hadmins := h.admins
    rw [holding_all, hnone, hlen] at hfull
    unfold maxClients at hfull
    unfold maxAdmins at hadmins
    unfold maxViewers at hviewers
    omega
  | some id =>
    have hseat : seat slots = some ⟨id, .owner⟩ := by
      rw [seat, hnewcomer, hfree]
      rfl
    rcases choose_cases slots (some k) label with
      ⟨k', slot, o, hk, ⟨hs, hkey, -⟩, -, -⟩ | ⟨-, ⟨slot, -, -, hchoose⟩ | ⟨hno, -⟩⟩
    · cases hk
      exact absurd hkey (hfresh slot hs)
    · rw [hnewcomer] at hchoose
      exact ⟨_, hchoose⟩
    · rw [hseat] at hno
      cases hno

theorem choose_not_full (h : Allocation.choose slots none label ≠ .full) (k : PublicKey) :
    Allocation.choose slots (some k) label ≠ .full := by
  intro hfull
  apply h
  rw [← hfull]
  unfold Allocation.choose at hfull ⊢
  cases hsame : (some k).bind fun key => lowest slots fun occupant => occupant.key.matches key with
  | some found =>
    rw [hsame] at hfull
    cases hfull
  | none => rfl

def MaySeat (slots : List SlotView) : Prop := (newcomer slots).2 = true ∧ ∃ slot ∈ slots, slot.held = none

theorem not_maySeat (h : seat slots = none) : ¬MaySeat slots := by
  rintro ⟨hroom, slot, hs, hnone⟩
  rw [seat, if_pos hroom, Option.map_eq_none_iff] at h
  exact freeSlot_none h slot hs hnone

/-- What each answer says of the table: the lowest slot that qualifies, and no better answer. -/
def Qualifies (slots : List SlotView) (key : Option PublicKey) (label : Bytes) : Allocation → Prop
  | .sameKey placement => ∃ k slot occupant, key = some k ∧ Lowest slots (Holds fun o => o.key = k) slot ∧
      slot.held = some occupant ∧ placement = ⟨slot.clientId, occupant.role⟩
  | .free placement => (∀ k, key = some k → ∀ slot ∈ slots, ¬Holds (fun o => o.key = k) slot) ∧
      (newcomer slots).2 = true ∧ ∃ slot, Lowest slots (fun s => s.held = none) slot ∧
        placement = ⟨slot.clientId, (newcomer slots).1⟩
  | .reclaim placement => (∀ k, key = some k → ∀ slot ∈ slots, ¬Holds (fun o => o.key = k) slot) ∧
      ¬MaySeat slots ∧ ∃ slot, Lowest slots (Holds fun o => o.role = .admin ∧ o.label = label) slot ∧
        placement = ⟨slot.clientId, .admin⟩
  | .full => (∀ k, key = some k → ∀ slot ∈ slots, ¬Holds (fun o => o.key = k) slot) ∧
      ¬MaySeat slots ∧ ∀ slot ∈ slots, ¬Holds (fun o => o.role = .admin ∧ o.label = label) slot

theorem choose_qualifies (slots : List SlotView) (key : Option PublicKey) (label : Bytes) :
    Qualifies slots key label (Allocation.choose slots key label) := by
  rcases choose_cases slots key label with
    ⟨k, slot, o, hk, hlow, ho, hchoose⟩ |
    ⟨hfresh, ⟨slot, hroom, hlow, hchoose⟩ | ⟨hseat, ⟨slot, hlow, hchoose⟩ | ⟨hno, hchoose⟩⟩⟩
  · rw [hchoose]
    exact ⟨k, slot, o, hk, hlow, ho, rfl⟩
  · rw [hchoose]
    exact ⟨hfresh, hroom, slot, hlow, rfl⟩
  · rw [hchoose]
    exact ⟨hfresh, not_maySeat hseat, slot, hlow, rfl⟩
  · rw [hchoose]
    exact ⟨hfresh, not_maySeat hseat, hno⟩

/-- Enrolments over a whole run: who holds the table after it, which slot the next one takes and what it may
overwrite. -/
theorem enrolments_placed (h : Sound slots) (run : List Enrolment) :
    Sound (enrolAll slots run) ∧
    (holding slots .owner ≤ holding (enrolAll slots run) .owner ∧
      holding (enrolAll slots run) .owner ≤ max 1 (holding slots .owner)) ∧
    (∀ (e : Enrolment) (k : ℕ) (slot : SlotView) (o : Occupant),
      (enrolAll slots run)[k]? = some slot → slot.held = some o →
      (enrolAll slots (run ++ [e]))[k]? = some slot ∨
        (enrolAll slots (run ++ [e]))[k]? = some (slot.taken e o.role) ∧
          (o.key = e.key ∨ o.role = .admin ∧ o.label = e.label ∧ ¬MaySeat (enrolAll slots run))) ∧
    (∀ key label, Qualifies (enrolAll slots run) key label (Allocation.choose (enrolAll slots run) key label) ∧
      ∀ slots', (enrolAll slots run).Perm slots' →
        Allocation.choose slots' key label = Allocation.choose (enrolAll slots run) key label) ∧
    (∀ k label, (enrolAll slots run).length = maxClients → holding (enrolAll slots run) .viewer ≤ maxViewers →
      holding (enrolAll slots run) .owner = 0 → (∀ s ∈ enrolAll slots run, ¬Holds (fun o => o.key = k) s) →
        ∃ id, Allocation.choose (enrolAll slots run) (some k) label = .free ⟨id, .owner⟩) ∧
    ∀ label, Allocation.choose (enrolAll slots run) none label ≠ .full →
      ∀ k, Allocation.choose (enrolAll slots run) (some k) label ≠ .full := by
  obtain ⟨hsound, howners⟩ := enrolAll_sound h run
  refine ⟨hsound, howners, ?_, ?_, ?_, ?_⟩
  · intro e k slot o hk ho
    rw [enrolAll_snoc]
    rcases enrol_overwrites hsound e hk ho with hsame | ⟨htaken, hkey | ⟨hadmin, hlabel, hseat, -⟩⟩
    · exact .inl hsame
    · exact .inr ⟨htaken, .inl hkey⟩
    · exact .inr ⟨htaken, .inr ⟨hadmin, hlabel, not_maySeat hseat⟩⟩
  · intro key label
    exact ⟨choose_qualifies _ key label, fun slots' hperm => choose_perm hsound hperm key label⟩
  · intro k label hlen hviewers hnone hfresh
    exact choose_owner hsound hlen hviewers hnone hfresh label
  · intro label hnot k
    exact choose_not_full hnot k

theorem one_nonZero : (1 : UInt32) ≠ 0 := by decide

theorem two_nonZero : (2 : UInt32) ≠ 0 := by decide

theorem three_nonZero : (3 : UInt32) ≠ 0 := by decide

def threeSlots : List SlotView :=
  [⟨⟨3, three_nonZero⟩, some ⟨.replicate 32 7, [112], .admin⟩⟩,
    ⟨⟨1, one_nonZero⟩, some ⟨.replicate 32 4, [112], .owner⟩⟩, ⟨⟨2, two_nonZero⟩, none⟩]

theorem enrolments_placed_three :
    Sound threeSlots ∧ Sound (enrolAll threeSlots [⟨.replicate 32 9, [112]⟩, ⟨.replicate 32 8, [112]⟩]) := by
  have hsound : Sound threeSlots := ⟨by decide, by decide, by decide⟩
  exact ⟨hsound, (enrolments_placed hsound _).1⟩

end Km43.Pairing
