import Km43.Cbor.Codec

namespace Km43.Cbor

open Library Library.StepParser

namespace CborReader

variable {ε α β σ : Type} {d : ℕ}

def Strict (d : ℕ) (m : Read ε α) : Prop :=
  ∀ r, r.Ready d → ∀ i tail, itemStep d r.rest = some (i, tail) → ∀ a r', m r = .ok (a, r') → ¬r'.Doomed

theorem Live.sound {r : CborReader} (h : r.Live) : ¬r.Doomed := by
  rintro ⟨-, why, hwhy⟩
  rw [h.calm] at hwhy
  cases hwhy

theorem sound_of_skipped {r : CborReader} (h : r.skipped = none) : ¬r.Doomed := by
  rintro ⟨-, why, hwhy⟩
  rw [settleSkipped_none h] at hwhy
  cases hwhy

theorem Reads.took {m : Read ε α} {f : Item → Option α} (hm : Reads (fun _ => True) d m f) (hs : Strict d m)
    {r r' : CborReader} (hr : r.Ready d) {i : Item} {tail : Bytes} (hi : itemStep d r.rest = some (i, tail)) {a : α}
    (hok : m r = .ok (a, r')) : f i = some a ∧ Past r r' i.spelling.length := by
  rcases hm.reads r hr with ⟨j, tail', b, r₂, hj, hb, hok', hpast⟩ | ⟨-, hfails⟩
  · obtain ⟨rfl, -⟩ := Prod.mk.inj (Option.some.inj (hi.symm.trans hj))
    obtain ⟨rfl, rfl⟩ := Prod.mk.inj (Except.ok.inj (hok.symm.trans hok'))
    exact ⟨hb, hpast⟩
  · rw [hok] at hfails
    exact absurd hfails (hs r hr i tail hi a r' hok)

theorem enter_skipped {r r' : CborReader} {h : Head} (henter : r.enter h = .ok r') : r'.skipped = r.skipped := by
  cases h with
  | array n | map n =>
    obtain ⟨nest, -, hnest⟩ := bind_ok.mp henter
    cases hnest
    rfl
  | unsigned | negative | bytes | text | bool =>
    cases henter
    rfl

theorem Ready.head_skipped {r r' : CborReader} (hr : r.Ready d) {h : Head} (hok : CborReader.head r = .ok (h, r')) :
    r'.skipped = none := by
  have hhead := hr.head
  cases ht : tokenStep r.rest with
  | none =>
    rw [ht] at hhead
    obtain ⟨why, hhead⟩ := hhead
    rw [hhead] at hok
    cases hok
  | some p =>
    obtain ⟨t, tail⟩ := p
    rw [ht] at hhead
    dsimp only at hhead
    split_ifs at hhead
    · obtain ⟨why, hhead⟩ := hhead
      rw [hhead] at hok
      cases hok
    · rw [hhead] at hok
      obtain ⟨moved, henter, hmoved⟩ := bind_ok.mp hok
      cases hmoved
      exact enter_skipped henter

theorem Strict.bind {m : Read ε α} (hm : Strict d m) (x : α → Except ε β) : Strict d (do let a ← m; x a) := by
  intro r hr i tail hi b r' hok
  obtain ⟨a, r₁, hread, hx⟩ := bind_run_ok.mp hok
  obtain ⟨-, rfl⟩ := lift_ok.mp hx
  exact hm r hr i tail hi a r' hread

variable [FromCbor ε]

theorem ask_ok {m : Read CborError α} {r r' : CborReader} {a : α} :
    (ask m : Read ε α) r = .ok (a, r') ↔ m r = .ok (a, r') := by
  unfold ask
  cases m r <;> simp

theorem Strict.ofHead {m : Read CborError α} (hm : ∀ r a r', m r = .ok (a, r') → ∃ h, CborReader.head r = .ok (h, r')) :
    Strict d (ask m : Read ε α) := by
  rintro r hr - - - a r' hok
  obtain ⟨h, hhead⟩ := hm r a r' (ask_ok.mp hok)
  exact sound_of_skipped (hr.head_skipped hhead)

section

variable {r r' : CborReader}

theorem unsigned_head {n : ℕ} (h : unsigned r = .ok (n, r')) : ∃ first, CborReader.head r = .ok (first, r') := by
  obtain ⟨first, r₁, hhead, h⟩ := bind_run_ok.mp h
  cases first with
  | unsigned value =>
    cases h
    exact ⟨_, hhead⟩
  | negative | bytes | text | array | map | bool => cases h

theorem unsignedTo_head {max : ℕ} {f : ℕ → α} {a : α} (h : (f <$> unsignedTo max) r = .ok (a, r')) :
    ∃ first, CborReader.head r = .ok (first, r') := by
  rw [map_eq_pure_bind] at h
  obtain ⟨n, r₁, h, hpure⟩ := bind_run_ok.mp h
  cases hpure
  obtain ⟨n, r₁, hread, h⟩ := bind_run_ok.mp h
  split_ifs at h with hmax
  · cases h
    exact unsigned_head hread
  · cases h

theorem text_head {raw : Bytes} (h : text r = .ok (raw, r')) : ∃ first, CborReader.head r = .ok (first, r') := by
  obtain ⟨first, r₁, hhead, h⟩ := bind_run_ok.mp h
  cases first with
  | text value =>
    cases h
    exact ⟨_, hhead⟩
  | unsigned | negative | bytes | array | map | bool => cases h

theorem bytesValue_head {raw : Bytes} (h : bytesValue r = .ok (raw, r')) :
    ∃ first, CborReader.head r = .ok (first, r') := by
  obtain ⟨first, r₁, hhead, h⟩ := bind_run_ok.mp h
  cases first with
  | bytes value =>
    cases h
    exact ⟨_, hhead⟩
  | unsigned | negative | text | array | map | bool => cases h

end

theorem pairLoop_strict {step : ℤ → σ → Read ε σ} {f : ℤ → σ → Item → Option σ} {known : ℤ → Prop} {pass : ℤ → σ → σ}
    (hsteps : Steps (fun _ => True) d step f known pass) (hstrict : ∀ k s, known k → Strict d (step k s)) {n : ℕ}
    {r r' : CborReader} {level : Open} {base : List Open} {done pairs : List (Key × Item)} {seen : List KeyRank}
    {tail : Bytes} {s s' : σ} (hat : AtPairs d n r level base done) (hseen : ∀ k, k ∈ seen ↔ k ∈ ranks done)
    (hpairs : pairsStep (itemStep d) seen n r.rest = some (pairs, tail)) (hok : pairLoop step n s r = .ok (s', r')) :
    ¬r'.Doomed := by
  induction n generalizing r level done pairs seen s with
  | zero =>
    cases hok
    exact hat.live.sound
  | succ n ih =>
    obtain ⟨z, r₁, hread, hok⟩ := bind_run_ok.mp hok
    obtain ⟨s₁, r₂, hstep, hloop⟩ := bind_run_ok.mp hok
    have hkey := hat.live.key hat.owing hat.kind hat.remaining hat.keys
    rw [ask_ok] at hread
    cases hks : keyStep r.rest with
    | none =>
      simp only [pairsStep, manyFresh, pair, hks] at hpairs
      cases hpairs
    | some p =>
      obtain ⟨k, mid⟩ := p
      obtain ⟨hfresh, v, after, rest, hv, hrest, rfl⟩ := (pairsStep_succ hks).mp hpairs
      simp only [hks] at hkey
      cases hz : k.i64? with
      | none =>
        simp only [hz] at hkey
        obtain ⟨why, hkey⟩ := hkey
        rw [hkey] at hread
        cases hread
      | some z' =>
        simp only [hz] at hkey
        obtain ⟨last, u, hgreatest, hu, hkey⟩ := hkey
        obtain ⟨rfl, rfl⟩ := Prod.mk.inj (Except.ok.inj (hread.symm.trans hkey))
        have hready := hat.ready hks last u
        have hvalue : itemStep d (r.atValue level base n k last u).rest = some (v, after) := by
          rw [atValue_rest hks]
          exact hv
        -- whichever arm read the value, all of it was read
        have hpast : Past (r.atValue level base n k last u) r₂ v.spelling.length := by
          by_cases hknown : known z
          · exact ((hsteps.typed z s hknown).took (hstrict z s hknown) hready hvalue hstep).2
          · have hskip := hat.skip hks last hu
            simp only [hv, if_neg ((hseen _).not.mp hfresh)] at hskip
            obtain ⟨r₃, hskipped, hpast⟩ := hskip
            rw [hsteps.skips z s hknown] at hstep
            obtain ⟨_, _, hask, hpure⟩ := bind_run_ok.mp hstep
            cases hpure
            obtain ⟨-, rfl⟩ := Prod.mk.inj (Except.ok.inj ((ask_ok.mp hask).symm.trans hskipped))
            exact hpast
        obtain ⟨hat', hrest'⟩ := hat.next hks hgreatest hv hpast
        have hseen' : ∀ x, x ∈ k.rank :: seen ↔ x ∈ ranks (done ++ [(k, v)]) := by
          intro x
          simp [ranks, hseen x, or_comm]
        rw [← hrest'] at hrest
        exact ih hat' hseen' hrest hloop

end CborReader

open CborReader

namespace Table

variable {ε κ : Type} [FromCbor ε] [DecidableEq κ] [BodyKey κ] {t : Table ε κ} {item : ∀ k, Item → Option (t.Value k)}
  {d : ℕ}

theorem slots_strict (hreads : ∀ k, Reads (fun _ => True) d (t.read k) (item k)) (hstrict : ∀ k, Strict d (t.read k)) :
    Strict (d + 1) t.slots := by
  intro r hr i tail hi s r' hok
  obtain ⟨n, r₁, hmap, hloop⟩ := bind_run_ok.mp hok
  rw [ask_ok] at hmap
  rcases hr.box .map with ⟨w, n', rest, ht, hlen, hrest, hbox⟩ | ⟨-, why, hbox⟩
  · obtain ⟨rfl, rfl⟩ := Prod.mk.inj (Except.ok.inj (hmap.symm.trans hbox))
    simp only [itemStep, itemWith, ht, Nesting.token, Option.bind_some, Option.map_eq_some_iff, Prod.mk.injEq] at hi
    obtain ⟨⟨pairs, _⟩, hpairs, -, rfl⟩ := hi
    rw [← hrest] at hpairs
    refine pairLoop_strict (steps hreads fun _ => trivial) ?_ (hr.at_pairs hlen n) (by simp [ranks]) hpairs hloop
    rintro _ s ⟨k, rfl⟩ r hr i tail hi s' r' hok
    obtain ⟨v, hread, -, -⟩ := step_known.mp hok
    exact hstrict k r hr i tail hi v r' hread
  · rw [show CborReader.map r = _ from hbox] at hmap
    cases hmap

end Table

namespace Codec

variable {ε α β : Type} [FromCbor ε] {d : ℕ}

theorem u8_strict : Strict d (u8 : Codec ε UInt8).read := .ofHead fun _ _ _ => unsignedTo_head

theorem u32_strict : Strict d (u32 : Codec ε UInt32).read := .ofHead fun _ _ _ => unsignedTo_head

theorem bytes_strict : Strict d (bytes : Codec ε Bytes).read := .ofHead fun _ _ _ => bytesValue_head

theorem text_strict : Strict d (text : Codec ε Str).read := by
  change Strict d textValue
  rw [textValue_checked]
  exact Strict.bind (.ofHead fun _ _ _ => text_head) _

end Codec

end Km43.Cbor
