import Km43.Cbor.Calls

namespace Km43.Cbor

open Library CborWriter

inductive Call.Narrower : Call → Call → Prop
  | same (c : Call) : Narrower c c
  | u64 {a b : UInt64} (h : a ≤ b) : Narrower (.u64 a) (.u64 b)
  | bool (a b : Bool) : Narrower (.bool a) (.bool b)

/-- A relation between writers that every call keeps: what a call asks is where it stands, whether it
is the first one, and its room. -/
structure Steady (R : CborWriter → CborWriter → Prop) : Prop where
  nest : ∀ {w w'}, R w w' → w'.nest = w.nest
  first : ∀ {w w'}, R w w' → (w'.out.length = 0 ↔ w.out.length = 0)
  room : ∀ {w w'}, R w w' → w'.out.length + w.capacity ≤ w.out.length + w'.capacity
  turned : ∀ {w w'} (n : Nest), R w w' → R { w with nest := n } { w' with nest := n }
  grown : ∀ {w w'} (data : Bytes), R w w' →
    R { w with out := w.out ++ data } { w' with out := w'.out ++ data }

def Eases {α : Type} (R : CborWriter → CborWriter → Prop) (m m' : Write α) : Prop :=
  ∀ (w w₁ w' : CborWriter) (a : α), m w = .ok (a, w₁) → R w w' → ∃ w₁', m' w' = .ok (a, w₁') ∧ R w₁ w₁'

namespace Eases

variable {α β : Type} {R : CborWriter → CborWriter → Prop}

theorem pure (a : α) : Eases R (Pure.pure a) (Pure.pure a) := by
  intro w w₁ w' b h hr
  cases h
  exact ⟨w', rfl, hr⟩

theorem bind {m m' : Write α} {k k' : α → Write β} (h : Eases R m m') (hk : ∀ a, Eases R (k a) (k' a)) :
    Eases R (m >>= k) (m' >>= k') := by
  intro w w₂ w' b hw hr
  obtain ⟨a, w₁, h₁, h₂⟩ := bind_run_ok.mp hw
  obtain ⟨w₁', h₁', hr₁⟩ := h w w₁ w' a h₁ hr
  obtain ⟨w₂', h₂', hr₂⟩ := hk a w₁ w₂ w₁' b h₂ hr₁
  exact ⟨w₂', bind_run_ok.mpr ⟨a, w₁', h₁', h₂'⟩, hr₂⟩

theorem lift (x : Except CborError α) : Eases R (liftM x : Write α) (liftM x) := by
  intro w w₁ w' a h hr
  obtain ⟨rfl, rfl⟩ := liftM_inv h
  exact ⟨w', rfl, hr⟩

section

variable (hR : Steady R)

include hR

theorem asking {k : Nest → Write β} (hk : ∀ nest, Eases R (k nest) (k nest)) :
    Eases R (do k (← get).nest) (do k (← get).nest) := by
  intro w w₁ w' b h hr
  obtain ⟨w₁', h', hr'⟩ := hk w.nest w w₁ w' b h hr
  rw [← hR.nest hr] at h'
  exact ⟨w₁', h', hr'⟩

theorem openItem : Eases R openItem openItem := by
  intro w w₁ w' _ h hr
  simp only [CborWriter.openItem] at h ⊢
  split_ifs at h with hkey htrailing
  cases h
  have hno : ¬(w'.nest.settle.depth = 0 ∧ w'.out.length ≠ 0) := by
    rw [hR.nest hr, ne_eq, hR.first hr]
    exact htrailing
  rw [hR.nest hr] at hno ⊢
  rw [if_neg hkey, if_neg hno]
  exact ⟨_, rfl, hR.turned _ hr⟩

theorem countItem : Eases R countItem countItem := by
  intro w w₁ w' _ h hr
  cases h
  refine ⟨_, rfl, ?_⟩
  rw [hR.nest hr]
  exact hR.turned _ hr

theorem room : Eases R room room := by
  intro w w₁ w' _ h hr
  simp only [CborWriter.room] at h ⊢
  split_ifs at h with hroom
  cases h
  rw [hR.nest hr, if_pos hroom]
  exact ⟨w', rfl, hr⟩

theorem push (kind : Nesting) (items : ℕ) : Eases R (push kind items) (push kind items) := by
  intro w w₁ w' _ h hr
  obtain ⟨nest, hpush, h⟩ := bind_ok.mp h
  cases h
  refine ⟨{ w' with nest := nest }, bind_ok.mpr ⟨nest, ?_, rfl⟩, hR.turned _ hr⟩
  rw [hR.nest hr]
  exact hpush

theorem takeKey (k : ℕ) : Eases R (takeKey k) (takeKey k) := by
  intro w w₁ w' _ h hr
  simp only [CborWriter.takeKey] at h ⊢
  split_ifs at h with hat
  obtain ⟨nest, htake, h⟩ := bind_ok.mp h
  cases h
  rw [hR.nest hr, if_pos hat]
  exact ⟨{ w' with nest := nest }, bind_ok.mpr ⟨nest, htake, rfl⟩, hR.turned _ hr⟩

theorem emit (data : Bytes) : Eases R (emit data) (emit data) := by
  intro w w₁ w' _ h hr
  obtain ⟨rfl, hfits⟩ := emit_inv h
  have hroom := hR.room hr
  unfold Fits at hfits
  exact ⟨_, emit_ok w' (by unfold Fits; omega), hR.grown data hr⟩

theorem head (major : Major) (n payload : ℕ) : Eases R (head major n payload) (head major n payload) := by
  intro w w₁ w' _ h hr
  have hroom := hR.room hr
  simp only [CborWriter.head] at h ⊢
  split_ifs at h with hfits
  rw [if_neg (by omega)]
  exact emit hR _ w w₁ w' () h hr

end

end Eases

structure Roomier (w w' : CborWriter) : Prop where
  nest : w'.nest = w.nest
  first : w'.out.length = 0 ↔ w.out.length = 0
  room : w'.out.length + w.capacity ≤ w.out.length + w'.capacity

theorem roomier_steady : Steady Roomier where
  nest h := h.nest
  first h := h.first
  room h := h.room
  turned _ h := ⟨rfl, h.first, h.room⟩
  grown data h := by
    have hfirst := h.first
    have hroom := h.room
    refine ⟨h.nest, ?_, ?_⟩
    · simp only [List.length_append]
      omega
    · simp only [List.length_append]
      omega

theorem Width.of_mono {a b : ℕ} (h : a ≤ b) : (Width.of a).bytes ≤ (Width.of b).bytes := by
  unfold Width.of
  split_ifs <;> simp only [Width.bytes] <;> omega

theorem head_apply {w : CborWriter} {major : Major} {n payload : ℕ} :
    CborWriter.head major n payload w =
      if w.out.length + ((headBytes major (Width.of n) n).length + payload) > w.capacity then
        .error .destinationTooSmall
      else .ok ((), { w with out := w.out ++ headBytes major (Width.of n) n }) := by
  simp only [CborWriter.head]
  split_ifs with hfits
  · rfl
  · apply emit_ok
    unfold Fits
    omega

theorem Call.fill_write (value : Bytes) : (Call.fill value).write = (Call.bytes value).write := by
  funext w
  simp only [write, bytesToFill, CborWriter.bytes, bind_assoc, pure_bind]
  simp only [bind_apply]
  cases openItem w with
  | error why => rfl
  | ok p =>
    obtain ⟨⟨⟩, w₁⟩ := p
    simp only [head_apply]
    split_ifs with hfits
    · rfl
    · have hpaste := paste_over (w₁.out ++ headBytes .bytes (Width.of value.length) value.length) value
        (List.replicate value.length 0) [] List.length_replicate
      simp only [List.append_nil] at hpaste
      have hemit : ∀ data : Bytes, data.length = value.length →
          Fits { w₁ with out := w₁.out ++ headBytes .bytes (Width.of value.length) value.length } data := by
        intro data hdata
        simp only [Fits, List.length_append]
        omega
      simp only [show ∀ w : CborWriter, (get : Write CborWriter) w = .ok (w, w) from fun _ => rfl,
        emit_ok _ (hemit _ List.length_replicate), emit_ok _ (hemit value rfl), CborWriter.countItem,
        fillAt, hpaste, Option.getD_some]

theorem Call.eases {R : CborWriter → CborWriter → Prop} (hR : Steady R) (c : Call) :
    Eases R c.write c.write := by
  have hopen := Eases.openItem hR
  have hcount := Eases.countItem hR
  have hhead : ∀ {major : Major} {n payload : ℕ},
      Eases R (CborWriter.head major n payload) (CborWriter.head major n payload) := .head hR _ _ _
  have hemit := fun data => Eases.emit hR data
  have hbytes : ∀ value, Eases R (CborWriter.bytes value) (CborWriter.bytes value) := fun value =>
    hopen.bind fun _ => hhead.bind fun _ => (hemit value).bind fun _ => hcount
  cases c with
  | array n =>
    exact hopen.bind fun _ => (Eases.room hR).bind fun _ => hhead.bind fun _ => hcount.bind fun _ => .push hR _ _
  | map n =>
    exact hopen.bind fun _ => (Eases.room hR).bind fun _ => hhead.bind fun _ => hcount.bind fun _ => .push hR _ _
  | key k =>
    simp only [write, CborWriter.key]
    split_ifs
    · exact .lift (.error .integerOutOfRange)
    · exact (Eases.takeKey hR _).bind fun _ => hhead.bind fun _ => hcount
  | u64 value => exact hopen.bind fun _ => hhead.bind fun _ => hcount
  | i32 value =>
    refine hopen.bind fun _ => ?_
    split_ifs
    · exact hhead.bind fun _ => hcount
    · exact hhead.bind fun _ => hcount
  | bool value => exact hopen.bind fun _ => hhead.bind fun _ => hcount
  | bytes value => exact hbytes value
  | fill value =>
    rw [fill_write]
    exact hbytes value
  | text value =>
    refine hopen.bind fun _ => ?_
    split_ifs
    · exact .lift (.error .stringTooLong)
    · exact hhead.bind fun _ => (hemit value.raw).bind fun _ => hcount
  | raw item =>
    refine hopen.bind fun _ => (Eases.lift _).bind fun walked => (Eases.lift _).bind fun _ => ?_
    apply Eases.asking hR (k := fun nest => if nest.depth + walked.2.nest.deepest > maxDepth then
      throw .depthExceeded else do
        CborWriter.emit item
        CborWriter.countItem)
    intro nest
    split_ifs
    · exact .lift (.error .depthExceeded)
    · exact (hemit item).bind fun _ => hcount

theorem writeAll_steady {R : CborWriter → CborWriter → Prop} (hR : Steady R) (calls : List Call) :
    Eases R (writeAll calls) (writeAll calls) := by
  induction calls with
  | nil => exact .pure ()
  | cons call calls ih => exact (call.eases hR).bind fun _ => ih

theorem Eases.narrowerHead {major : Major} {n n' : ℕ} (h : (Width.of n').bytes ≤ (Width.of n).bytes) :
    Eases Roomier (CborWriter.head major n 0) (CborWriter.head major n' 0) := by
  intro w w₁ w' _ hw hr
  rw [head_apply] at hw
  split_ifs at hw with hfits
  cases hw
  have hfirst := hr.first
  have hroom := hr.room
  simp only [headBytes_length] at hfits
  rw [head_apply, if_neg (by rw [headBytes_length]; omega)]
  refine ⟨_, rfl, hr.nest, ?_, ?_⟩
  · simp
  · simp only [List.length_append, headBytes_length]
    omega

theorem Call.Narrower.eases {c c' : Call} (h : c'.Narrower c) : Eases Roomier c.write c'.write := by
  have hopen := Eases.openItem roomier_steady
  have hcount := Eases.countItem roomier_steady
  cases h with
  | same c => exact c.eases roomier_steady
  | u64 hle => exact hopen.bind fun _ => (Eases.narrowerHead (Width.of_mono hle)).bind fun _ => hcount
  | bool a b =>
    refine hopen.bind fun _ => (Eases.narrowerHead ?_).bind fun _ => hcount
    cases a <;> cases b <;> decide

theorem writeAll_narrower {calls calls' : List Call} (h : List.Forall₂ Call.Narrower calls' calls) :
    Eases Roomier (writeAll calls) (writeAll calls') := by
  induction h with
  | nil => exact .pure ()
  | cons hcall _ ih => exact hcall.eases.bind fun _ => ih

theorem writeAll_roomier {calls calls' : List Call} (h : List.Forall₂ Call.Narrower calls' calls)
    {room room' : ℕ} (hroom : room ≤ room') {w : CborWriter}
    (hw : writeAll calls (.new room) = .ok ((), w)) :
    ∃ w', writeAll calls' (.new room') = .ok ((), w') ∧ w'.nest = w.nest := by
  have hnew : Roomier (.new room) (.new room') := ⟨rfl, Iff.rfl, by simpa [CborWriter.new] using hroom⟩
  obtain ⟨w', hw', hr⟩ := writeAll_narrower h _ _ _ _ hw hnew
  exact ⟨w', hw', hr.nest⟩

structure Patched (before xs ys : Bytes) (w w' : CborWriter) : Prop where
  nest : w'.nest = w.nest
  capacity : w'.capacity = w.capacity
  out : ∃ after, w.out = before ++ xs ++ after ∧ w'.out = before ++ ys ++ after

theorem Patched.length {before xs ys : Bytes} {w w' : CborWriter} (h : Patched before xs ys w w')
    (hlen : xs.length = ys.length) : w'.out.length = w.out.length := by
  obtain ⟨after, hw, hw'⟩ := h.out
  rw [hw, hw']
  simp only [List.length_append, hlen]

theorem patched_steady {before xs ys : Bytes} (hlen : xs.length = ys.length) :
    Steady (Patched before xs ys) where
  nest h := h.nest
  first h := by rw [h.length hlen]
  room h := by rw [h.length hlen, h.capacity]
  turned _ h := ⟨rfl, h.capacity, h.out⟩
  grown data h := by
    obtain ⟨after, hw, hw'⟩ := h.out
    refine ⟨h.nest, h.capacity, after ++ data, ?_, ?_⟩
    · rw [hw, List.append_assoc]
    · rw [hw', List.append_assoc]

theorem fill_late {value : Bytes} {calls : List Call} {w w₁ w₂ : CborWriter} {start : ℕ}
    (hfill : bytesToFill value.length w = .ok (start, w₁)) (hrest : writeAll calls w₁ = .ok ((), w₂)) :
    ∃ w', writeAll (.fill value :: calls) w = .ok ((), w') ∧ w'.nest = w₂.nest ∧
      start + value.length ≤ w₂.out.length ∧ paste w₂.out start value = some w'.out := by
  obtain ⟨-, rfl, rfl, -⟩ := bytesToFill_wrote hfill
  have hpaste := fun after => paste_over (w.out ++ headBytes .bytes (Width.of value.length) value.length) value
    (List.replicate value.length 0) after List.length_replicate
  have hzeros : (List.replicate value.length (0 : UInt8)).length = value.length := List.length_replicate
  have hpatched : Patched (w.out ++ headBytes .bytes (Width.of value.length) value.length)
      (List.replicate value.length 0) value
      { w with
        out := w.out ++ headBytes .bytes (Width.of value.length) value.length ++ List.replicate value.length 0
        nest := w.nest.settle.countItem }
      { w with
        out := w.out ++ headBytes .bytes (Width.of value.length) value.length ++ value
        nest := w.nest.settle.countItem } := ⟨rfl, rfl, [], (List.append_nil _).symm, (List.append_nil _).symm⟩
  obtain ⟨w', hw', hp⟩ := writeAll_steady (patched_steady hzeros) calls _ _ _ _ hrest hpatched
  obtain ⟨after, hout, hout'⟩ := hp.out
  refine ⟨w', ?_, hp.nest, ?_, ?_⟩
  · refine bind_run_ok.mpr ⟨(), _, bind_run_ok.mpr ⟨_, _, hfill, ?_⟩, hw'⟩
    have hnow := hpaste []
    rw [List.append_nil, List.append_nil] at hnow
    simp only [Call.fillAt, hnow, Option.getD_some]
  · rw [hout]
    simp only [List.length_append, hzeros]
    omega
  · rw [hout, hout']
    exact hpaste after

end Km43.Cbor
