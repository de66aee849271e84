import Km43.Concerns.Row
import Km43.Inventory.Row

namespace Km43.Inventory

open Library Concerns

namespace ElementLabels

def labelOf (labels : ElementLabels) (place : ElementAt) : Except InventoryError UInt16 :=
  if place.raw > labels.elements then .error (.positionPastSeries place.raw labels.elements)
  else if labels.base.toNat + (place.raw.toNat - 1) < 2 ^ 16 then
    .ok (labels.base + UInt16.ofNat (place.raw.toNat - 1))
  else .error (.labelPastRange labels.base place.raw)

def InRange (labels : ElementLabels) : Prop := labels.base.toNat + (labels.elements.toNat - 1) < 2 ^ 16

variable {labels : ElementLabels} {place : ElementAt}

theorem labelOf_past (h : labels.elements < place.raw) :
    labels.labelOf place = .error (.positionPastSeries place.raw labels.elements) := if_pos h

theorem labelOf_within (hrange : labels.InRange) (h : place.raw ≤ labels.elements) :
    ∃ label, labels.labelOf place = .ok label ∧ label.toNat = labels.base.toNat + place.raw.toNat - 1 := by
  have hzero : place.raw.toNat ≠ 0 := fun he => place.nonzero (UInt8.toNat_inj.mp he)
  have hle : place.raw.toNat ≤ labels.elements.toNat := UInt8.le_iff_toNat_le.mp h
  have hsum : labels.base.toNat + (place.raw.toNat - 1) < 2 ^ 16 := by
    unfold InRange at hrange
    omega
  refine ⟨labels.base + UInt16.ofNat (place.raw.toNat - 1), ?_, ?_⟩
  · rw [labelOf, if_neg (UInt8.not_lt.mpr h), if_pos hsum]
  · rw [UInt16.toNat_add, UInt16.toNat_ofNat']
    omega

theorem labelOf_inj {a b : ElementAt} {label : UInt16} (hrange : labels.InRange) (ha : labels.labelOf a = .ok label)
    (hb : labels.labelOf b = .ok label) : a.raw = b.raw := by
  have hsum : ∀ {place : ElementAt}, labels.labelOf place = .ok label →
      label.toNat = labels.base.toNat + place.raw.toNat - 1 := by
    intro place h
    by_cases hpast : place.raw > labels.elements
    · rw [labelOf_past hpast] at h
      cases h
    · obtain ⟨_, hok, hsum⟩ := labelOf_within hrange (UInt8.not_lt.mp hpast)
      rw [h] at hok
      cases hok
      exact hsum
  have hzero : ∀ place : ElementAt, place.raw.toNat ≠ 0 := fun place he => place.nonzero (UInt8.toNat_inj.mp he)
  apply UInt8.toNat_inj.mp
  have hna := hzero a
  have hnb := hzero b
  have hsa := hsum ha
  have hsb := hsum hb
  omega

end ElementLabels

def RowValues.IsSeries (row : RowValues) : Prop := row.kind = .signal ∧ row.number shapeKey = some When.series

namespace Row

variable {row : Row} {labels : ElementLabels}

theorem conditionsHold (row : Row) : row.toRowValues.conditionsHold = .ok () := by
  obtain ⟨-, h⟩ := seq_ok.mp row.legal
  obtain ⟨-, h⟩ := seq_ok.mp h
  obtain ⟨-, h⟩ := seq_ok.mp h
  obtain ⟨-, h⟩ := seq_ok.mp h
  exact (seq_ok.mp h).1

theorem elementsNamed (row : Row) : row.toRowValues.everyElementCanBeNamed = .ok () := by
  obtain ⟨-, h⟩ := seq_ok.mp row.legal
  obtain ⟨-, h⟩ := seq_ok.mp h
  obtain ⟨-, h⟩ := seq_ok.mp h
  obtain ⟨-, h⟩ := seq_ok.mp h
  obtain ⟨-, h⟩ := seq_ok.mp h
  exact (seq_ok.mp h).1

theorem labels_inRange (h : row.labels = some labels) : labels.elements.toNat ≤ maxSeriesLen ∧ labels.InRange := by
  have hnamed := row.elementsNamed
  simp only [RowValues.everyElementCanBeNamed, h] at hnamed
  split_ifs at hnamed with hshort hlong hpast
  exact ⟨Nat.not_lt.mp hlong, Nat.not_le.mp hpast⟩

theorem get_of_condition {row : RowValues} {key : UInt8} {when_ : When} (hholds : row.conditionsHold = .ok ())
    (hmem : (key, when_) ∈ row.kind.conditional) (h : row.holds when_ = true) :
    ∃ value, row.value key = some value ∧ value.isAbsent = false := by
  have hthis := (forM_ok _ _).mp hholds _ hmem
  simp only [h, true_and, not_true_eq_false, false_and, if_false] at hthis
  split_ifs at hthis with hthere
  simp only [RowValues.get] at hthere
  split at hthere
  · rename_i held hvalue
    refine ⟨held, hvalue, ?_⟩
    by_contra habsent
    rw [if_pos (Bool.eq_true_of_not_eq_false habsent)] at hthere
    cases hthere
  · cases hthere

theorem series_count (h : row.IsSeries) : ∃ n, row.value nKey = some (.u8 n) := by
  obtain ⟨hkind, hshape⟩ := h
  have hmem : (nKey, .shapeIsASeries) ∈ row.kind.conditional := by
    rw [hkind]
    exact List.mem_cons_self
  obtain ⟨value, hvalue, hthere⟩ := get_of_condition row.conditionsHold hmem (by simpa [RowValues.holds] using hshape)
  have hplace : row.values[9]? = some value := by
    rw [← hvalue, RowValues.value, hkind]
    rfl
  have hfield : (opt 10 .u8, value) ∈ row.kind.fields.zip row.values := by
    apply List.mem_of_getElem? (i := 9)
    rw [List.getElem?_zip_eq_some]
    exact ⟨by rw [hkind]; rfl, hplace⟩
  have hholds := row.fieldHolds _ hfield
  simp only [RowValues.fieldHolds, hthere, Bool.false_eq_true, if_false] at hholds
  split_ifs at hholds with hfits
  cases value with
  | u8 n => exact ⟨n, hvalue⟩
  | _ => cases hfits

theorem member_toUInt16 (n : UInt8) : RowValues.member n.toUInt16 = some n := by
  have hlt := n.toNat_lt
  rw [RowValues.member, if_pos (by rw [UInt8.toNat_toUInt16]; omega), UInt8.toUInt8_toUInt16]

theorem series_labels (h : row.IsSeries) : ∃ n, row.value nKey = some (.u8 n) ∧
    row.labels = some ⟨(row.number ebaseKey).getD ElementLabels.unlabelled, n⟩ := by
  obtain ⟨n, hn⟩ := series_count h
  refine ⟨n, hn, ?_⟩
  have hnumber : row.number nKey = some n.toUInt16 := by rw [RowValues.number, hn]
  rw [RowValues.labels, if_neg (by simp [h.1, h.2]), hnumber]
  simp only [bind, Option.bind, member_toUInt16]

/-- Every element of a series has a label of its own, the base plus its position less one, and nothing past it has. -/
theorem series_labelled (row : Row) (h : row.IsSeries) : ∃ n labels, row.value nKey = some (.u8 n) ∧
    row.labels = some labels ∧ labels.base = (row.number ebaseKey).getD 1 ∧ labels.elements = n ∧
    (∀ position : UInt8, position ≠ 0 → position ≤ n → ∃ place label, newElement position = .ok place ∧
      place.raw = position ∧ labels.labelOf place = .ok label ∧
      label.toNat = labels.base.toNat + position.toNat - 1) ∧
    (∀ a b label, labels.labelOf a = .ok label → labels.labelOf b = .ok label → a.raw = b.raw) ∧
    ∀ place : ElementAt, n < place.raw → labels.labelOf place = .error (.positionPastSeries place.raw n) := by
  obtain ⟨n, hn, hlabels⟩ := series_labels h
  obtain ⟨hlong, hrange⟩ := labels_inRange hlabels
  refine ⟨n, _, hn, hlabels, rfl, rfl, ?_, ?_, ?_⟩
  · intro position hzero hwithin
    have hle : position.toNat ≤ maxSeriesLen := (UInt8.le_iff_toNat_le.mp hwithin).trans hlong
    let place : ElementAt := ⟨position, hzero, hle⟩
    have hplace : place.raw ≤ _ := hwithin
    obtain ⟨label, hlabel, hsum⟩ := ElementLabels.labelOf_within hrange hplace
    refine ⟨place, label, ?_, rfl, hlabel, hsum⟩
    rw [newElement, dif_neg hzero, dif_pos hle]
  · intro a b label ha hb
    exact ElementLabels.labelOf_inj hrange ha hb
  · intro place hpast
    exact ElementLabels.labelOf_past hpast

def packValues : RowValues := ⟨.signal, [.u16 3, .u16 1, .u16 1, .u16 2, .u8 2, .u8 1, .u8 1, .absent, .absent, .u8 16, .absent,
  .u16 17, .absent, .absent, .absent, .absent, .absent, .absent]⟩

theorem packValues_legal : packValues.check = .ok () := by decide

def pack : Row := ⟨packValues, packValues_legal⟩

theorem pack_series : pack.IsSeries := ⟨rfl, by decide⟩

theorem series_labelled_pack : ∃ labels place, pack.labels = some labels ∧ newElement 7 = .ok place ∧
    labels.labelOf place = .ok 23 := by
  obtain ⟨n, labels, hn, hlabels, hbase, -, heach, -⟩ := series_labelled pack pack_series
  have hcount : pack.value nKey = some (.u8 16) := rfl
  have hsixteen : n = 16 := Value.u8.inj (Option.some.inj (hn.symm.trans hcount))
  obtain ⟨place, label, hplace, -, hlabel, hsum⟩ := heach 7 (by decide) (by subst hsixteen; decide)
  have hseventeen : labels.base = 17 := hbase.trans (by decide)
  refine ⟨labels, place, hlabels, hplace, hlabel.trans (congrArg _ (UInt16.toNat_inj.mp ?_))⟩
  rw [hsum, hseventeen]
  rfl

end Row

end Km43.Inventory
