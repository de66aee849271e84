import Km43.Library.Machine
import Km43.Library.SlidingBits
import Km43.Sealed.Seal

namespace Km43.Sealed

open Library SlidingBits

structure Window where
  highest : Option ℕ
  seen : BitVec 64
  span : ℕ

namespace Window

def new (span : ℕ) : Window := ⟨none, 0, span⟩

def admits (w : Window) (nonce : ℕ) : Except SealError Unit :=
  match w.highest with
  | none => .ok ()
  | some highest =>
    if highest < nonce then .ok ()
    else
      let age := highest - nonce
      if w.span ≤ age then .error (.tooOld nonce)
      else
        match bit? 64 age with
        | none => .error (.tooOld nonce)
        | some bit => if w.seen &&& bit = 0#64 then .ok () else .error (.replayed nonce)

def accept (w : Window) (nonce : ℕ) : Window :=
  match w.highest with
  | none => { w with highest := some nonce, seen := 1 }
  | some highest =>
    if highest < nonce then
      { w with highest := some nonce, seen := (shift? w.seen (nonce - highest)).getD 0 ||| 1 }
    else
      match bit? 64 (highest - nonce) with
      | none => w
      | some bit => { w with seen := w.seen ||| bit }

end Window

structure Opener where
  key : Bytes
  window : Window

/-- The one that opens messages of a direction: the controller requests, the client the rest. -/
def Opener.new (key : Bytes) : Direction → Opener
  | .request => ⟨key, .new (maxInflight + 1)⟩
  | .controller => ⟨key, .new maxReplayWindow⟩

structure SealedFrame where
  header : Header
  nonce : UInt64
  ciphertext : Bytes

structure Opened where
  header : Header
  inner : Bytes

structure Opening where
  nonce : UInt64
  result : Except SealError Opened
  dst : Bytes

def Opening.accepted : Opening → List ℕ
  | ⟨nonce, .ok _, _⟩ => [nonce.toNat]
  | _ => []

def SealedFrame.open (frame : SealedFrame) (aead : Aead) (rx : Opener) (dst : Bytes) : Opener × Opening :=
  let refused why dst := (rx, ⟨frame.nonce, .error why, dst⟩)
  if frame.nonce = lastNonce then refused .reserved dst
  else
    match rx.window.admits frame.nonce.toNat with
    | .error why => refused why dst
    | .ok () =>
      if frame.ciphertext.length < tagBytes then refused (.open .truncated) dst
      else
        let bodyLen := frame.ciphertext.length - tagBytes
        if dst.length < bodyLen then refused .destinationTooSmall dst
        else
          match openInPlace aead rx.key frame.nonce.toNat (ad frame.header)
            (frame.ciphertext.take bodyLen) (frame.ciphertext.drop bodyLen) with
          | .error why => refused (.open why) (List.replicate bodyLen 0 ++ dst.drop bodyLen)
          | .ok inner =>
            ({ rx with window := rx.window.accept frame.nonce.toNat },
              ⟨frame.nonce, .ok ⟨frame.header, inner⟩, inner ++ dst.drop bodyLen⟩)

def Opener.receive (aead : Aead) : Machine Opener (SealedFrame × Bytes) Opening :=
  fun rx (frame, dst) => frame.open aead rx dst

def Window.Holds (w : Window) (past : List ℕ) : Prop :=
  match w.highest with
  | none => past = []
  | some highest => Tracks w.seen highest past

namespace Window

variable {w : Window} {past : List ℕ} {n : ℕ}

theorem Holds.admits_iff (h : w.Holds past) (hspan : w.span ≤ 64) :
    w.admits n = .ok () ↔ (∀ m ∈ past, m < n) ∨
      ∃ top ∈ past, (∀ m ∈ past, m ≤ top) ∧ n ≤ top ∧ top - n < w.span ∧ n ∉ past := by
  unfold Holds at h
  unfold admits
  split at h
  · simp [h]
  · rename_i top _
    dsimp only
    split_ifs with hlt hold
    · simp only [true_iff]
      exact .inl fun m hm => (h.le m hm).trans_lt hlt
    · simp only [false_iff, not_or, not_exists]
      refine ⟨fun hall => hlt (hall top h.mem), ?_⟩
      rintro top' ⟨hmem', hle', -, hage, -⟩
      have := hle' top h.mem
      have := h.le top' hmem'
      omega
    · have hage : top - n < 64 := by omega
      have hfree := h.free (n := n) (by omega) hage
      simp only [bit?, hage, if_true]
      constructor
      · intro hok
        refine .inr ⟨top, h.mem, h.le, by omega, by omega, hfree.mp ?_⟩
        by_contra hne
        simp [hne] at hok
      · rintro (hall | ⟨-, -, -, -, -, hnot⟩)
        · exact absurd (hall top h.mem) hlt
        · rw [if_pos (hfree.mpr hnot)]

theorem Holds.accept (h : w.Holds past) (hspan : w.span ≤ 64) (hok : w.admits n = .ok ()) :
    (w.accept n).Holds (past ++ [n]) := by
  have hadmits := (h.admits_iff hspan).mp hok
  unfold Holds at h
  unfold Window.accept
  split at h
  · simp only [h, List.nil_append]
    exact .first (by norm_num) n
  · rename_i top htop
    split_ifs with hlt
    · exact h.slide (by norm_num) hlt
    · obtain hall | ⟨top', hmem, hle, -, hage, -⟩ := hadmits
      · exact absurd (hall top h.mem) hlt
      · have : top' ≤ top := h.le top' hmem
        have : top ≤ top' := hle top h.mem
        have hreach : top - n < 64 := by omega
        simp only [bit?, hreach, if_true, Holds, htop]
        exact h.mark (by omega) hreach

@[simp] theorem accept_span : (w.accept n).span = w.span := by
  unfold accept
  split
  · rfl
  · split_ifs
    · rfl
    · split <;> rfl

end Window

namespace Opener

theorem receive_cases (aead : Aead) (rx : Opener) (frame : SealedFrame) (dst : Bytes) :
    (∃ why dst', rx.receive aead (frame, dst) = (rx, ⟨frame.nonce, .error why, dst'⟩) ∧
      (frame.nonce = lastNonce → why = .reserved) ∧
      (frame.nonce ≠ lastNonce → ∀ stale, rx.window.admits frame.nonce.toNat = .error stale →
        why = stale)) ∨
    (∃ opened dst', frame.nonce ≠ lastNonce ∧ rx.window.admits frame.nonce.toNat = .ok () ∧
      rx.receive aead (frame, dst) =
        ({ rx with window := rx.window.accept frame.nonce.toNat },
          ⟨frame.nonce, .ok opened, dst'⟩)) := by
  unfold receive SealedFrame.open
  dsimp only
  by_cases hlast : frame.nonce = lastNonce
  · rw [if_pos hlast]
    exact .inl ⟨_, _, rfl, fun _ => rfl, fun hne => absurd hlast hne⟩
  · rw [if_neg hlast]
    cases hadmits : rx.window.admits frame.nonce.toNat with
    | error stale =>
      refine .inl ⟨_, _, rfl, fun h => absurd h hlast, fun _ why hwhy => ?_⟩
      exact Except.error.inj hwhy
    | ok =>
      dsimp only
      split_ifs
      · exact .inl ⟨_, _, rfl, fun h => absurd h hlast, fun _ _ h => h.elim⟩
      · exact .inl ⟨_, _, rfl, fun h => absurd h hlast, fun _ _ h => h.elim⟩
      · split
        · exact .inl ⟨_, _, rfl, fun h => absurd h hlast, fun _ _ h => h.elim⟩
        · exact .inr ⟨_, _, hlast, rfl, rfl⟩

theorem receive_holds (aead : Aead) (rx : Opener) (span : ℕ) (hspan : span ≤ 64)
    (hrx : rx.window.Holds [] ∧ rx.window.span = span) (frames : List (SealedFrame × Bytes)) :
    let past := ((receive aead).outputs rx frames).flatMap Opening.accepted
    let window := ((receive aead).final rx frames).window
    window.Holds past ∧ window.span = span ∧ past.Nodup := by
  have step : ∀ (t : Opener) past i, (t.window.Holds past ∧ t.window.span = span ∧ past.Nodup) →
      (t.receive aead i).1.window.Holds (past ++ (t.receive aead i).2.accepted) ∧
        (t.receive aead i).1.window.span = span ∧
        (past ++ (t.receive aead i).2.accepted).Nodup := by
    rintro t past ⟨frame, dst⟩ ⟨hholds, ht, hnodup⟩
    rcases t.receive_cases aead frame dst with ⟨why, dst', heq, -⟩ | ⟨opened, dst', -, hadmits, heq⟩
    · rw [heq]
      simpa [Opening.accepted] using ⟨hholds, ht, hnodup⟩
    · rw [heq]
      refine ⟨hholds.accept (ht ▸ hspan) hadmits, by simpa using ht, ?_⟩
      have hnew : frame.nonce.toNat ∉ past := by
        rcases (hholds.admits_iff (ht ▸ hspan)).mp hadmits with habove | ⟨-, -, -, -, -, hnot⟩
        · exact fun hmem => lt_irrefl _ (habove _ hmem)
        · exact hnot
      exact List.nodup_append_comm.mp (List.nodup_cons.mpr ⟨hnew, hnodup⟩)
  exact Machine.final_records
    (fun (t : Opener) past => t.window.Holds past ∧ t.window.span = span ∧ past.Nodup)
    Opening.accepted step [] ⟨hrx.1, hrx.2, .nil⟩ frames

def span : Direction → ℕ
  | .request => maxInflight + 1
  | .controller => maxReplayWindow

theorem refuses_replays (aead : Aead) (key : Bytes) (direction : Direction)
    (frames : List (SealedFrame × Bytes)) :
    let rx := (receive aead).final (.new key direction) frames
    let past := ((receive aead).outputs (.new key direction) frames).flatMap Opening.accepted
    past.Nodup ∧
    (∀ n, rx.window.admits n = .ok () ↔ (∀ m ∈ past, m < n) ∨
      ∃ top ∈ past, (∀ m ∈ past, m ≤ top) ∧ n ≤ top ∧ top - n < span direction ∧ n ∉ past) ∧
    ∀ frame dst,
      (∀ why, (rx.receive aead (frame, dst)).2.result = .error why →
        (rx.receive aead (frame, dst)).1 = rx) ∧
      (∀ opened, (rx.receive aead (frame, dst)).2.result = .ok opened →
        rx.window.admits frame.nonce.toNat = .ok ()) ∧
      (frame.nonce ≠ lastNonce → ∀ why, rx.window.admits frame.nonce.toNat = .error why →
        (rx.receive aead (frame, dst)).2.result = .error why) := by
  intro rx past
  have hnew : (Opener.new key direction).window.Holds [] ∧
      (Opener.new key direction).window.span = span direction := by
    cases direction <;> exact ⟨rfl, rfl⟩
  have hspan : span direction ≤ 64 := by cases direction <;> decide
  obtain ⟨hholds, hrx, hnodup⟩ := receive_holds aead _ _ hspan hnew frames
  refine ⟨hnodup, fun n => ?_, fun frame dst => ?_⟩
  · rw [← hrx]
    exact hholds.admits_iff (hrx ▸ hspan)
  · rcases rx.receive_cases aead frame dst with
      ⟨stale, dst', heq, -, hstale⟩ | ⟨opened, dst', -, hadmits, heq⟩
    · rw [heq]
      refine ⟨fun _ _ => rfl, fun opened h => ?_, fun hne why hwhy => ?_⟩
      · cases h
      · rw [hstale hne why hwhy]
    · rw [heq]
      refine ⟨fun why h => ?_, fun _ _ => hadmits, fun _ why hwhy => ?_⟩
      · cases h
      · rw [hadmits] at hwhy
        cases hwhy

end Opener

end Km43.Sealed
