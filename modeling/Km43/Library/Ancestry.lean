import Mathlib.Tactic

namespace Km43.Library

variable {α κ : Type} [DecidableEq κ]

structure Ancestry (α κ : Type) where
  rows : List α
  key : α → Option κ
  parent : α → Option κ

namespace Ancestry

variable (t : Ancestry α κ)

def find (k : κ) : Option α := t.rows.find? fun a => t.key a = some k

/-- `b` is the row that `a` names as its parent. -/
def Above (a b : α) : Prop := b ∈ t.rows ∧ ∃ k, t.parent a = some k ∧ t.key b = some k

def KeysApart : Prop := t.rows.Pairwise fun a b => ∀ k, t.key a = some k → t.key b ≠ some k

/-- The rows passed from a parent's key up to one that names none. -/
inductive Climbs : Option κ → List α → Prop
  | top : Climbs none []
  | link {k : κ} {a : α} {as : List α} (found : t.find k = some a) (rest : Climbs (t.parent a) as) :
      Climbs (some k) (a :: as)

variable {t} {a b : α} {as bs : List α} {k : κ} {from? : Option κ}

theorem mem_of_find (h : t.find k = some a) : a ∈ t.rows ∧ t.key a = some k :=
  ⟨List.mem_of_find?_eq_some h, by simpa using List.find?_some h⟩

omit [DecidableEq κ] in
theorem KeysApart.same (h : t.KeysApart) (ha : a ∈ t.rows) (hb : b ∈ t.rows) (hak : t.key a = some k)
    (hbk : t.key b = some k) : a = b := by
  unfold KeysApart at h
  generalize t.rows = rows at h ha hb
  induction rows with
  | nil => cases ha
  | cons c rows ih =>
    obtain ⟨hc, hrest⟩ := List.pairwise_cons.mp h
    rcases List.mem_cons.mp ha with rfl | ha'
    · rcases List.mem_cons.mp hb with rfl | hb'
      · rfl
      · exact absurd hbk (hc b hb' k hak)
    · rcases List.mem_cons.mp hb with rfl | hb'
      · exact absurd hak (hc a ha' k hbk)
      · exact ih hrest ha' hb'

theorem KeysApart.find (h : t.KeysApart) (ha : a ∈ t.rows) (hk : t.key a = some k) : t.find k = some a := by
  cases hf : t.find k with
  | none =>
    have hnone := List.find?_eq_none.mp hf a ha
    simp [hk] at hnone
  | some b =>
    obtain ⟨hb, hbk⟩ := mem_of_find hf
    rw [h.same ha hb hk hbk]

namespace Climbs

theorem mem (h : t.Climbs from? as) : ∀ a ∈ as, a ∈ t.rows ∧ (t.key a).isSome := by
  induction h with
  | top => simp
  | link found _ ih =>
    obtain ⟨hmem, hkey⟩ := mem_of_find found
    exact List.forall_mem_cons.mpr ⟨⟨hmem, by simp [hkey]⟩, ih⟩

theorem unique (h : t.Climbs from? as) (h' : t.Climbs from? bs) : as = bs := by
  induction h generalizing bs with
  | top =>
    cases h'
    rfl
  | link found _ ih =>
    cases h' with
    | link found' rest' =>
      obtain rfl := Option.some.inj (found.symm.trans found')
      rw [ih rest']

theorem chain (h : t.Climbs (t.parent a) as) : (a :: as).IsChain t.Above := by
  induction as generalizing a with
  | nil => exact .singleton a
  | cons b as ih =>
    generalize hp : t.parent a = from? at h
    cases h with
    | link found rest =>
      obtain ⟨hmem, hkey⟩ := mem_of_find found
      exact .cons_cons ⟨hmem, _, hp, hkey⟩ (ih rest)

/-- One step up leaves the rest of the climb. -/
theorem above (hkeys : t.KeysApart) (h : t.Climbs (t.parent a) as) (hab : t.Above a b) :
    ∃ bs, as = b :: bs ∧ t.Climbs (t.parent b) bs := by
  obtain ⟨hmem, k, hparent, hkey⟩ := hab
  rw [hparent] at h
  cases h with
  | link found rest =>
    obtain rfl := Option.some.inj (found.symm.trans (hkeys.find hmem hkey))
    exact ⟨_, rfl, rest⟩

/-- A chain from a row is part of the climb from it. -/
theorem of_chain (hkeys : t.KeysApart) (h : t.Climbs (t.parent a) as) (hc : (a :: bs).IsChain t.Above) :
    bs <+: as := by
  induction bs generalizing a as with
  | nil => exact List.nil_prefix
  | cons b bs ih =>
    obtain ⟨hab, hc⟩ := List.isChain_cons_cons.mp hc
    obtain ⟨cs, rfl, hcs⟩ := h.above hkeys hab
    exact List.cons_prefix_cons.mpr ⟨rfl, ih hcs hc⟩

/-- Where every row climbs to a top, none is above itself. -/
theorem no_return (hkeys : t.KeysApart) (h : t.Climbs (t.parent a) as) (hb : Relation.TransGen t.Above a b) :
    ∃ bs, t.Climbs (t.parent b) bs ∧ bs.length < as.length := by
  induction hb with
  | single hab =>
    obtain ⟨bs, rfl, hbs⟩ := h.above hkeys hab
    exact ⟨bs, hbs, Nat.lt_succ_self _⟩
  | tail _ hbc ih =>
    obtain ⟨bs, hbs, hlt⟩ := ih
    obtain ⟨cs, rfl, hcs⟩ := hbs.above hkeys hbc
    exact ⟨cs, hcs, (Nat.lt_succ_self _).trans hlt⟩

theorem acyclic (hkeys : t.KeysApart) (h : t.Climbs (t.parent a) as) : ¬Relation.TransGen t.Above a a := by
  intro hloop
  obtain ⟨bs, hbs, hlt⟩ := h.no_return hkeys hloop
  rw [h.unique hbs] at hlt
  exact lt_irrefl _ hlt

end Climbs

/-- What is listed and never goes on past a bound climbs to a top. -/
theorem climbs_of_bounded (hlisted : ∀ a ∈ t.rows, ∀ k, t.parent a = some k → ∃ b ∈ t.rows, t.key b = some k)
    (hkeys : t.KeysApart) {n : ℕ} (hbound : ∀ c : List α, (∀ a ∈ c, a ∈ t.rows) → c.IsChain t.Above → c.length ≤ n)
    (ha : a ∈ t.rows) : ∃ as, t.Climbs (t.parent a) as := by
  have hclimb : ∀ m (c : List α) a, (∀ b ∈ c ++ [a], b ∈ t.rows) → (c ++ [a]).IsChain t.Above →
      n < c.length + 1 + m → ∃ as, t.Climbs (t.parent a) as := by
    intro m
    induction m with
    | zero =>
      intro c a hmem hc hn
      have hlen := hbound _ hmem hc
      rw [List.length_append, List.length_singleton] at hlen
      omega
    | succ m ih =>
      intro c a hmem hc hn
      cases hp : t.parent a with
      | none => exact ⟨[], .top⟩
      | some k =>
        obtain ⟨b, hb, hkey⟩ := hlisted a (hmem a (by simp)) k hp
        have hmem' : ∀ x ∈ c ++ [a] ++ [b], x ∈ t.rows := by
          intro x hx
          rcases List.mem_append.mp hx with hx | hx
          · exact hmem x hx
          · rw [List.mem_singleton.mp hx]
            exact hb
        have hc' : (c ++ [a] ++ [b]).IsChain t.Above := by
          refine hc.append (.singleton b) ?_
          intro x hx y hy
          rw [List.getLast?_append_of_ne_nil _ (by simp), List.getLast?_singleton, Option.mem_some_iff] at hx
          rw [List.head?_singleton, Option.mem_some_iff] at hy
          subst hx hy
          exact ⟨hb, k, hp, hkey⟩
        obtain ⟨as, has⟩ := ih (c ++ [a]) b hmem' hc' (by
          rw [List.length_append, List.length_singleton]
          omega)
        exact ⟨b :: as, .link (hkeys.find hb hkey) has⟩
  exact hclimb n [] a (by simpa using ha) (.singleton a) (by
    rw [List.length_nil]
    omega)

/-- A climb passes no key twice, and never the row it started from. -/
theorem Climbs.nodup (hkeys : t.KeysApart) (h : t.Climbs (t.parent a) as) (ha : a ∈ t.rows) :
    ((a :: as).Nodup) := by
  have hpair := (List.isChain_iff_pairwise (R := Relation.TransGen t.Above)).mp
    ((h.chain).imp fun _ _ => Relation.TransGen.single)
  have hmem := h.mem
  have hall : ∀ b ∈ a :: as, ∃ bs, t.Climbs (t.parent b) bs := by
    intro b hb
    rcases List.mem_cons.mp hb with rfl | hb
    · exact ⟨as, h⟩
    · have hab := (List.pairwise_cons.mp hpair).1 b hb
      obtain ⟨bs, hbs, -⟩ := h.no_return hkeys hab
      exact ⟨bs, hbs⟩
  refine hpair.imp_of_mem fun hx _ hxy => ?_
  rintro rfl
  obtain ⟨bs, hbs⟩ := hall _ hx
  exact hbs.acyclic hkeys hxy

end Ancestry

end Km43.Library
