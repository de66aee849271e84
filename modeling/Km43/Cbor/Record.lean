import Km43.Cbor.Deferred

namespace Km43.Cbor

open Library Library.StepParser CborReader

theorem slotField_map {ε α σ τ : Type} (read : Read ε α) (twice : ε) (slot : Option α) (fill : Option α → σ)
    (f : σ → τ) : f <$> slotField read twice slot fill = slotField read twice slot fun slot => f (fill slot) := by
  simp only [slotField, map_eq_pure_bind, bind_assoc, pure_bind]

section

variable {ε δ α β σ : Type} {f : ε → δ}

theorem mapErr_bind (m : StateT σ (Except ε) α) (k : α → StateT σ (Except ε) β) :
    mapErr f (m >>= k) = mapErr f m >>= fun a => mapErr f (k a) := by
  funext s
  rw [mapErr, bind_apply, bind_apply, mapErr]
  cases m s <;> rfl

theorem mapErr_lift (x : Except ε α) :
    mapErr f (liftM x : StateT σ (Except ε) α) = (liftM (x.mapError f) : StateT σ (Except δ) α) := by
  funext s
  cases x <;> rfl

theorem mapErr_slotField (read : Read ε α) (twice : ε) (slot : Option α) (fill : Option α → σ) :
    mapErr f (slotField read twice slot fill) = slotField (mapErr f read) (f twice) slot fill := by
  funext r
  unfold slotField
  rw [mapErr_bind, bind_apply, bind_apply]
  cases mapErr f read r with
  | error why => rfl
  | ok p => cases slot <;> rfl

variable [FromCbor ε] [FromCbor δ] (h : ∀ why, f (FromCbor.cbor why) = FromCbor.cbor why)

include h

theorem mapErr_ask (m : Read CborError α) : mapErr f (ask m : Read ε α) = (ask m : Read δ α) := by
  funext r
  unfold mapErr ask
  cases m r with
  | error why => exact congrArg Except.error (h why)
  | ok p => rfl

theorem mapErr_passOver (s : σ) : mapErr f (passOver s : Read ε σ) = (passOver s : Read δ σ) := by
  unfold passOver
  rw [mapErr_bind, mapErr_ask h]
  rfl

theorem mapErr_pairLoop (step : ℤ → σ → Read ε σ) (n : ℕ) (s : σ) :
    mapErr f (pairLoop step n s) = pairLoop (fun k s => mapErr f (step k s)) n s := by
  induction n generalizing s with
  | zero => rfl
  | succ n ih =>
    unfold pairLoop
    rw [mapErr_bind, mapErr_ask h]
    apply congrArg
    funext k
    rw [mapErr_bind]
    apply congrArg
    funext s'
    exact ih s'

end

namespace Table

variable {ε κ σ : Type} [DecidableEq κ] [BodyKey κ] [FromCbor ε] {t : Table ε κ}

/-- A record of a body's slots, filled by a step of its own where a table would fill them. -/
structure Records (t : Table ε κ) (into : t.Slots → σ) (recStep : ℤ → σ → Read ε σ) : Prop where
  known : ∀ k s, recStep (BodyKey.number k) (into s) =
    slotField (t.read k) (t.twice k) (s k) fun slot => into (Function.update s k slot)
  unknown : ∀ n s, ¬t.Known n → recStep n (into s) = passOver (into s)

namespace Records

variable {into : t.Slots → σ} {recStep : ℤ → σ → Read ε σ} (h : t.Records into recStep)

include h

theorem step (n : ℤ) (s : t.Slots) : recStep n (into s) = into <$> t.step n s := by
  by_cases hknown : t.Known n
  · obtain ⟨k, rfl⟩ := hknown
    have hstep : t.step (BodyKey.number k) s = slotField (t.read k) (t.twice k) (s k) (Function.update s k) := by
      rw [Table.step, (BodyKey.of_iff _ _).mpr rfl]
    rw [h.known, hstep, slotField_map]
  · rw [h.unknown n s hknown, step_unknown hknown]
    simp only [passOver, map_eq_pure_bind, bind_assoc, pure_bind]

theorem loop (n : ℕ) (s : t.Slots) : pairLoop recStep n (into s) = into <$> pairLoop t.step n s := by
  induction n generalizing s with
  | zero => rfl
  | succ n ih => simp only [pairLoop, h.step, map_eq_pure_bind, bind_assoc, pure_bind, ih]

theorem body {start : σ} (hstart : start = into t.none) (payload : Bytes) :
    decodeBody (do let n ← ask map; pairLoop recStep n start) payload = into <$> decodeBody t.slots payload := by
  have hslots : (do let n ← ask map; pairLoop recStep n start : Read ε σ) = into <$> t.slots := by
    simp only [hstart, h.loop, slots, pairs, map_eq_pure_bind, bind_assoc]
  rw [hslots, decodeBody, decodeBody, map_eq_pure_bind, bind_apply]
  cases t.slots (.new payload) with
  | error why => rfl
  | ok p =>
    obtain ⟨s, r⟩ := p
    change (do r.finish.mapError FromCbor.cbor; Except.ok (into s)) =
      into <$> (do r.finish.mapError FromCbor.cbor; Except.ok s)
    cases r.finish <;> rfl

end Records

end Table

end Km43.Cbor
