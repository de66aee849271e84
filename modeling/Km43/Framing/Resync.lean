import Km43.Library.Machine
import Km43.Framing.Frame

namespace Km43.Framing

open Library Library.Stuffing

def covered (payload : Bytes) : Bytes := payload ++ toLeBytes (crc16 payload)

def wire (payload : Bytes) : Bytes := stuff (covered payload) ++ [delimiter]

@[simp] theorem covered_length (payload : Bytes) :
    (covered payload).length = payload.length + crcBytes := by
  simp [covered, toLeBytes, crcBytes]

theorem stuff_covered_length {payload : Bytes} (h : payload.length ≤ maxPayload) :
    (stuff (covered payload)).length ≤ maxEncoded := by
  have hs := stuff_length (covered payload)
  rw [covered_length] at hs
  simp only [crcBytes, maxPayload, maxBlock, maxEncoded, maxFrame, frameDelimiterBytes] at *
  omega

theorem checked_covered (payload : Bytes) : FrameReader.checked (covered payload) = .ok payload := by
  have hl : (covered payload).length - crcBytes = payload.length := by simp
  simp only [FrameReader.checked, hl]
  simp only [covered, List.drop_left, List.take_left, toLeBytes, fromLeBytes_toLeBytes, ne_eq,
    not_true_eq_false, if_false]

namespace FrameWriter

theorem write_eq (w : FrameWriter) {payload dst : Bytes} (h : payload.length ≤ maxPayload)
    (hd : maxFrameLen payload.length ≤ dst.length) :
    ∃ w' tail, w.write payload dst = (.ok (wire payload).length, w', wire payload ++ tail) := by
  obtain ⟨body, hset, hheld⟩ := w.body.set_held 0 (covered payload)
    (by rw [covered_length]; simp only [maxDecoded]; omega)
  simp only [Nat.zero_add, Buffer.held_zero, List.nil_append, covered_length] at hheld
  have hfit : maxEncodedLen (covered payload).length + 1 ≤ dst.length := by
    simpa [maxFrameLen, frameDelimiterBytes] using hd
  obtain ⟨tail, henc, hlen⟩ := encode_eq (covered payload) dst (by omega)
  cases tail with
  | nil =>
    have hstuff := stuff_length (covered payload)
    simp only [List.append_nil, maxEncodedLen, maxBlockData, maxBlock] at *
    omega
  | cons y tail =>
    refine ⟨⟨body⟩, tail, ?_⟩
    rw [write, if_neg (Nat.not_lt.mpr hd), ← covered, hset]
    simp only [hheld, henc, paste_at, wire, List.append_assoc, List.singleton_append,
      List.length_append, List.length_singleton]

theorem write_long (w : FrameWriter) {payload : Bytes} (dst : Bytes) (h : maxPayload < payload.length) :
    ∃ why, (w.write payload dst).1 = .error why := by
  have hset := w.body.set_none 0 (covered payload)
    (by rw [covered_length]; simp only [maxDecoded]; omega)
  rw [write, ← covered, hset]
  split_ifs <;> exact ⟨_, rfl⟩

end FrameWriter

def Written (payload frame : Bytes) : Prop :=
  ∃ (w : FrameWriter) (dst : Bytes) (n : ℕ), (w.write payload dst).1 = .ok n ∧
    frame = (w.write payload dst).2.2.take n

theorem Written.wire {payload frame : Bytes} (h : Written payload frame) :
    payload.length ≤ maxPayload ∧ frame = wire payload := by
  obtain ⟨w, dst, n, hok, rfl⟩ := h
  by_cases hlong : maxPayload < payload.length
  · obtain ⟨why, he⟩ := w.write_long dst hlong
    rw [he] at hok
    cases hok
  · by_cases hshort : dst.length < maxFrameLen payload.length
    · rw [FrameWriter.write, if_pos hshort] at hok
      cases hok
    · obtain ⟨w', tail, he⟩ := w.write_eq (Nat.not_lt.mp hlong) (Nat.not_lt.mp hshort)
      rw [he] at hok ⊢
      cases hok
      exact ⟨Nat.not_lt.mp hlong, List.take_left⟩

namespace FrameReader

structure Holds (r : FrameReader) (run : Bytes) : Prop where
  overlong : r.overlong = false
  len : r.len = run.length
  encoded : r.encoded.held r.len = run

theorem take_same (r : FrameReader) (len : ℕ) :
    (r.take len).2.len = r.len ∧ (r.take len).2.overlong = r.overlong := by
  unfold take
  split
  · exact ⟨rfl, rfl⟩
  · split
    · exact ⟨rfl, rfl⟩
    · split <;> exact ⟨rfl, rfl⟩

theorem push_delimiter (r : FrameReader) : (r.push delimiter).1.Holds [] := by
  have htake := take_same { r with waiting := 0, len := 0, overlong := false } r.len
  unfold push
  rw [if_neg (not_not.mpr rfl)]
  dsimp only
  split_ifs
  · exact ⟨rfl, rfl, rfl⟩
  · exact ⟨rfl, rfl, rfl⟩
  · split <;> rename_i ht <;> rw [ht] at htake <;>
      exact ⟨htake.2, htake.1, by rw [show _ = 0 from htake.1]; rfl⟩

theorem Holds.push {r : FrameReader} {run : Bytes} (h : r.Holds run) {b : UInt8}
    (hb : b ≠ delimiter) (hroom : run.length < maxEncoded) :
    (r.push b).2 = .nothing ∧ (r.push b).1.Holds (run ++ [b]) := by
  obtain ⟨encoded, hset, hheld⟩ := r.encoded.set_held r.len [b]
    (by rw [h.len, List.length_singleton]; omega)
  rw [h.encoded, List.length_singleton] at hheld
  rw [FrameReader.push, if_pos hb, hold, hset]
  exact ⟨rfl, h.overlong, by simp [h.len], hheld⟩

theorem Holds.pushes {r : FrameReader} {run : Bytes} (body : Bytes) (h : r.Holds run)
    (hz : delimiter ∉ body) (hroom : (run ++ body).length ≤ maxEncoded) :
    (∀ o ∈ Machine.outputs FrameReader.push r body, o = .nothing) ∧
      (Machine.final FrameReader.push r body).Holds (run ++ body) := by
  induction body generalizing r run with
  | nil => exact ⟨by simp, by simpa using h⟩
  | cons b body ih =>
    simp only [List.mem_cons, not_or] at hz
    simp only [List.length_append, List.length_cons] at hroom
    obtain ⟨ho, hp⟩ := h.push (Ne.symm hz.1) (by omega)
    obtain ⟨hos, hps⟩ := ih hp hz.2 (by
      simp only [List.length_append, List.length_singleton]; omega)
    refine ⟨?_, by simpa using hps⟩
    simp only [Machine.outputs_cons, List.mem_cons, forall_eq_or_imp]
    exact ⟨ho, hos⟩

theorem take_checked {r : FrameReader} {len : ℕ} {body frame : Bytes} (hbody : r.encoded.get 0 len = some body)
    (hne : body ≠ []) (hunstuff : unstuff body = .ok frame) (hfits : frame.length ≤ maxDecoded) :
    (r.take len).1 = checked frame := by
  obtain ⟨tail, hdec, -⟩ := decode_eq r.decoded.items hne hunstuff (by rwa [r.decoded.size])
  have hheld : (frame ++ tail).take frame.length = frame := List.take_left
  simp only [take, hbody, decodeInto, hdec]
  rw [Buffer.get_held (Nat.zero_le _) hfits]
  simp only [Buffer.held, hheld, List.drop_zero]

theorem Holds.frame {r : FrameReader} {payload : Bytes} (h : payload.length ≤ maxPayload)
    (hr : r.Holds (stuff (covered payload))) : (r.push delimiter).2 = .frame payload := by
  have hne : stuff (covered payload) ≠ [] := stuffFrom_ne_nil _ _
  have hlen : r.len ≠ 0 := by
    rw [hr.len]
    exact (List.length_pos_of_ne_nil hne).ne'
  have hbody : r.encoded.get 0 r.len = some (stuff (covered payload)) := by
    rw [Buffer.get_held (Nat.zero_le _) (by rw [hr.len]; exact stuff_covered_length h),
      List.drop_zero, hr.encoded]
  have htake : (take { r with waiting := 0, len := 0, overlong := false } r.len).1 = .ok payload := by
    rw [take_checked (r := { r with waiting := 0, len := 0, overlong := false }) hbody hne
      (unstuff_stuff (covered payload)), checked_covered]
    rw [covered_length]
    exact Nat.add_le_add_right h _
  rw [FrameReader.push, if_neg (not_not.mpr rfl)]
  simp only [hr.overlong, hlen, if_false, Bool.false_eq_true]
  split
  · rename_i ht
    rw [ht] at htake
    cases htake
    rfl
  · rename_i ht
    rw [ht] at htake
    cases htake

def reports (r : FrameReader) (bytes : Bytes) : List Received :=
  (Machine.outputs FrameReader.push r bytes).filter (· ≠ .nothing)

theorem reports_append (r : FrameReader) (xs ys : Bytes) :
    r.reports (xs ++ ys) = r.reports xs ++ (Machine.final FrameReader.push r xs).reports ys := by
  simp only [reports, Machine.outputs_append, List.filter_append]

theorem Holds.reports_wire {r : FrameReader} (hr : r.Holds []) {payload : Bytes}
    (h : payload.length ≤ maxPayload) :
    r.reports (wire payload) = [.frame payload] ∧
      (Machine.final FrameReader.push r (wire payload)).Holds [] := by
  obtain ⟨hsilent, hheld⟩ := hr.pushes (stuff (covered payload)) (stuff_nonzero _)
    (by simpa using stuff_covered_length h)
  have hnone : r.reports (stuff (covered payload)) = [] := by
    simp only [reports, List.filter_eq_nil_iff, decide_eq_true_eq, not_not]
    exact hsilent
  have hframe := hheld.frame h
  refine ⟨?_, ?_⟩
  · rw [wire, reports_append, hnone, List.nil_append]
    simp only [reports, Machine.outputs_cons, Machine.outputs_nil, hframe]
    rfl
  · rw [wire, Machine.final_append]
    exact push_delimiter _

theorem Holds.reports_wires {r : FrameReader} (hr : r.Holds []) (payloads : List Bytes)
    (h : ∀ p ∈ payloads, p.length ≤ maxPayload) :
    r.reports (payloads.map wire).flatten = payloads.map .frame := by
  induction payloads generalizing r with
  | nil => rfl
  | cons p payloads ih =>
    obtain ⟨hp, hrest⟩ := hr.reports_wire (h p (by simp))
    rw [List.map_cons, List.flatten_cons, reports_append, hp, ih hrest fun q hq => h q (by simp [hq])]
    rfl

/-- Every payload within the cap is written, and after garbage of any length and its delimiter a
reader in any state hands up the payloads of the frames that follow, in order and nothing else. -/
theorem resyncs :
    (∀ (w : FrameWriter) (payload dst : Bytes), payload.length ≤ maxPayload →
      maxFrameLen payload.length ≤ dst.length → ∃ n, (w.write payload dst).1 = .ok n) ∧
    ∀ (r : FrameReader) (garbage : Bytes) (frames : List (Bytes × Bytes)),
      (∀ f ∈ frames, Written f.1 f.2) →
      ((Machine.outputs FrameReader.push r
          (garbage ++ delimiter :: (frames.map Prod.snd).flatten)).drop (garbage.length + 1)).filter
          (· ≠ .nothing) = frames.map fun f => .frame f.1 := by
  refine ⟨fun w payload dst h hd => ?_, fun r garbage frames h => ?_⟩
  · obtain ⟨w', tail, he⟩ := w.write_eq h hd
    exact ⟨_, by rw [he]⟩
  · have hwire : frames.map Prod.snd = (frames.map Prod.fst).map wire := by
      rw [List.map_map]
      exact List.map_congr_left fun f hf => (h f hf).wire.2
    have hcap : ∀ p ∈ frames.map Prod.fst, p.length ≤ maxPayload := by
      intro p hp
      obtain ⟨f, hf, rfl⟩ := List.mem_map.mp hp
      exact (h f hf).wire.1
    have hlen : (Machine.outputs FrameReader.push r (garbage ++ [delimiter])).length =
        garbage.length + 1 := by
      rw [Machine.outputs_length, List.length_append, List.length_singleton]
    have hclean : (Machine.final FrameReader.push r (garbage ++ [delimiter])).Holds [] := by
      rw [Machine.final_append]
      exact push_delimiter _
    rw [← List.singleton_append, ← List.append_assoc, Machine.outputs_append, List.drop_left' hlen,
      hwire]
    exact (hclean.reports_wires _ hcap).trans (List.map_map ..)

theorem resyncs_pair :
    (∃ n, (FrameWriter.new.write [0, 1] (List.replicate 9 0)).1 = .ok n) ∧
      ((Machine.outputs FrameReader.push .new
        ([7, 0, 9] ++ delimiter :: [wire [0, 1]].flatten)).drop 4).filter (· ≠ .nothing) =
        [.frame [0, 1]] := by
  refine ⟨resyncs.1 .new [0, 1] (List.replicate 9 0) (by decide) (by decide), ?_⟩
  have hw : Written [0, 1] (wire [0, 1]) := by
    obtain ⟨w', tail, he⟩ := FrameWriter.write_eq .new (show ([0, 1] : Bytes).length ≤ maxPayload by decide)
      (show maxFrameLen 2 ≤ (List.replicate 9 0 : Bytes).length by decide)
    exact ⟨.new, List.replicate 9 0, _, by rw [he], by rw [he, List.take_left]⟩
  exact resyncs.2 .new [7, 0, 9] [([0, 1], wire [0, 1])] (by simpa using hw)

end FrameReader

end Km43.Framing
