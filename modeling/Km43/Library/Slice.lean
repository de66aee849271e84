import Mathlib.Tactic

namespace Km43.Library

variable {α : Type}

/-- The items of `xs` from `start` up to `stop`, where they are all there. -/
def slice (xs : List α) (start stop : ℕ) : Option (List α) :=
  if start ≤ stop ∧ stop ≤ xs.length then some ((xs.drop start).take (stop - start)) else none

/-- `xs` with `ys` written over it from `start` on, where that fits. -/
def paste (xs : List α) (start : ℕ) (ys : List α) : Option (List α) :=
  if start + ys.length ≤ xs.length then
    some (xs.take start ++ ys ++ xs.drop (start + ys.length))
  else none

theorem slice_self {xs : List α} {pos : ℕ} (h : pos ≤ xs.length) : slice xs pos pos = some [] := by
  simp [slice, h]

theorem slice_some {xs : List α} {start stop : ℕ} (h : start ≤ stop) (hs : stop ≤ xs.length) :
    slice xs start stop = some ((xs.take stop).drop start) := by
  rw [slice, if_pos ⟨h, hs⟩, List.drop_take]

theorem slice_extend {xs ys zs : List α} {start pos : ℕ} (h : slice xs start pos = some ys)
    (hz : zs <+: xs.drop pos) : slice xs start (pos + zs.length) = some (ys ++ zs) := by
  unfold slice at h ⊢
  split_ifs at h with hr
  obtain ⟨tail, ht⟩ := hz
  have hlen := congrArg List.length ht
  simp only [List.length_append, List.length_drop] at hlen
  simp only [Option.some.injEq] at h
  rw [if_pos (by omega), Option.some.injEq, ← h]
  have hsplit : start + (pos - start) = pos := by omega
  rw [show pos + zs.length - start = (pos - start) + zs.length by omega, List.take_add,
    List.drop_drop, hsplit, ← ht, List.take_left]

theorem paste_some (xs : List α) (start : ℕ) (ys : List α) (h : start + ys.length ≤ xs.length) :
    paste xs start ys = some (xs.take start ++ ys ++ xs.drop (start + ys.length)) := if_pos h

theorem paste_none (xs : List α) (start : ℕ) (ys : List α) (h : xs.length < start + ys.length) :
    paste xs start ys = none := if_neg (Nat.not_le.mpr h)

theorem paste_length {xs ys zs : List α} {start : ℕ} (h : paste xs start ys = some zs) :
    zs.length = xs.length := by
  unfold paste at h
  split_ifs at h with hfit
  cases h
  simp only [List.length_append, List.length_take, List.length_drop]
  omega

theorem paste_over (xs ys zs rest : List α) (h : zs.length = ys.length) :
    paste (xs ++ zs ++ rest) xs.length ys = some (xs ++ ys ++ rest) := by
  have hfits : xs.length + ys.length ≤ (xs ++ zs ++ rest).length := by
    simp only [List.length_append]
    omega
  have hlen : xs.length + ys.length = (xs ++ zs).length := by rw [List.length_append, h]
  rw [paste_some _ _ _ hfits, hlen, List.drop_left, List.append_assoc xs zs, List.take_left]

theorem paste_append {xs ys zs : List α} {start : ℕ} (h : paste xs start ys = some zs) (rest : List α) :
    paste (xs ++ rest) start ys = some (zs ++ rest) := by
  unfold paste at h ⊢
  split_ifs at h with hfit
  cases h
  rw [if_pos (by rw [List.length_append]; omega), List.take_append_of_le_length (by omega),
    List.drop_append_of_le_length hfit, List.append_assoc _ _ rest]

/-- Writing two runs one after the other is writing them at once. -/
theorem paste_paste (xs ys zs : List α) :
    ((paste xs 0 ys).bind fun out => paste out ys.length zs) = paste xs 0 (ys ++ zs) := by
  by_cases h : ys.length + zs.length ≤ xs.length
  · rw [paste_some xs 0 ys (by omega), paste_some xs 0 (ys ++ zs) (by simpa using h), Option.bind_some,
      paste_some]
    · simp [List.drop_append]
    · simp
      omega
  · rw [paste_none xs 0 (ys ++ zs) (by simp; omega)]
    cases hp : paste xs 0 ys with
    | none => rfl
    | some out =>
      rw [Option.bind_some, paste_none]
      rw [paste_length hp]
      omega

structure Buffer (α : Type) (n : ℕ) where
  items : List α
  size : items.length = n
  deriving DecidableEq

namespace Buffer

variable {n : ℕ}

def fill (n : ℕ) (x : α) : Buffer α n := ⟨List.replicate n x, List.length_replicate⟩

def get (b : Buffer α n) (start stop : ℕ) : Option (List α) := slice b.items start stop

def set (b : Buffer α n) (start : ℕ) (xs : List α) : Option (Buffer α n) :=
  match h : paste b.items start xs with
  | some items => some ⟨items, (paste_length h).trans b.size⟩
  | none => none

def held (b : Buffer α n) (k : ℕ) : List α := b.items.take k

theorem get_held {b : Buffer α n} {start stop : ℕ} (h : start ≤ stop) (hs : stop ≤ n) :
    b.get start stop = some ((b.held stop).drop start) := slice_some h (hs.trans_eq b.size.symm)

@[simp] theorem held_zero (b : Buffer α n) : b.held 0 = [] := rfl

theorem held_length {b : Buffer α n} {k : ℕ} (h : k ≤ n) : (b.held k).length = k := by
  simp [held, b.size, h]

theorem held_held (b : Buffer α n) {j k : ℕ} (h : j ≤ k) : (b.held k).take j = b.held j := by
  simp [held, List.take_take, h]

theorem set_none (b : Buffer α n) (start : ℕ) (xs : List α) (h : n < start + xs.length) :
    b.set start xs = none := by
  have hp := paste_none b.items start xs (by rwa [b.size])
  unfold set
  split
  · rename_i hs
    rw [hp] at hs
    cases hs
  · rfl

theorem set_held (b : Buffer α n) (start : ℕ) (xs : List α) (h : start + xs.length ≤ n) :
    ∃ b', b.set start xs = some b' ∧ b'.held (start + xs.length) = b.held start ++ xs := by
  have hp := paste_some b.items start xs (by rwa [b.size])
  unfold set
  split
  · rename_i items hs
    rw [hp] at hs
    cases hs
    refine ⟨_, rfl, ?_⟩
    have hl : (b.items.take start ++ xs).length = start + xs.length := by
      rw [List.length_append, List.length_take, b.size]
      omega
    exact List.take_left' hl
  · rename_i hs
    rw [hp] at hs
    cases hs

end Buffer

end Km43.Library
