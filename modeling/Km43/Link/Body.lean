import Km43.Cbor.Shape
import Km43.Link.Envelope

namespace Km43.Link

open Library Library.StepParser Cbor CborReader Sealed

variable {ε α σ : Type} {Bad : ε → Prop} {d n : ℕ} {r r' : CborReader} {level : Open} {base : List Open}

theorem read_element {m : Read ε α} {f : Item → Option α} {a : α} (hm : Reads Bad d m f)
    (h : (∃ level, AtItems d (n + 1) r level base) ∨ r.Doomed) (hok : m r = .ok (a, r')) :
    (∃ level', AtItems d n r' level' base) ∨ r'.Doomed := by
  rcases h with ⟨level, hat⟩ | hdoomed
  · rcases hm.reads r hat.ready with ⟨i, tail, b, r₁, hi, -, hread, hpast⟩ | ⟨-, hfails⟩
    · rw [hok] at hread
      cases hread
      exact .inl ⟨_, (hat.next hi hpast).1⟩
    · rw [hok] at hfails
      exact .inr hfails
  · have hfails := hm.doomed r hdoomed
    rw [hok] at hfails
    exact .inr hfails

theorem LinkEnvelope.at_pairs {bytes : Bytes} {e : LinkEnvelope} (h : LinkEnvelope.decode bytes = .ok e) :
    ∃ level base, AtPairs (maxDepth - 2) e.keys e.body level base [] := by
  obtain ⟨⟨⟨⟩, r₁⟩, hfour, h⟩ := bind_ok.mp h
  obtain ⟨⟨⟨opcode, session, reqId, keys⟩, body⟩, hscalars, h⟩ := bind_ok.mp h
  cases h
  obtain ⟨raw, r₂, r₃, r₄, hopcode, hraw, -, hreq, hmap⟩ := scalars_ok.mp hscalars
  have hready : (CborReader.new bytes).Ready (7 + 1) :=
    ⟨⟨Nat.zero_le _, rfl, rfl, by simp [CborReader.new, Nest.new, Nest.depth], rfl⟩, rfl, rfl⟩
  have hitems : ∃ level base, AtItems 7 4 r₁ level base := by
    rcases hready.box .array with ⟨w, n, tail, -, hlen, -, hok⟩ | ⟨-, why, hrefused⟩
    · have hat := hready.at_items hlen n
      simp only [Nesting.per] at hok
      rw [fourElements_apply (show CborReader.array (.new bytes) = _ from hok)] at hfour
      split_ifs at hfour with hn
      cases hfour
      subst hn
      exact ⟨_, _, hat⟩
    · have harray : CborReader.array (.new bytes) = .error why := hrefused
      rw [Envelope.fourElements, bind_apply, ask, harray] at hfour
      cases hfour
  obtain ⟨level, base, hat⟩ := hitems
  have hu8 : Reads (fun _ : EnvelopeError => True) 7 (ask u8) u8Of := Reads.u8 fun _ => trivial
  have hu16 : Reads (fun _ : EnvelopeError => True) 7 (ask u16) u16Of := Reads.u16 fun _ => trivial
  have hu32 : Reads (fun _ : EnvelopeError => True) 7 (ask u32) u32Of := Reads.u32 fun _ => trivial
  have hfirst := read_element hu8 (.inl ⟨level, hat⟩) hopcode
  have hsecond := read_element hu16 hfirst hraw
  have hthird := read_element hu32 hsecond hreq
  have hasked : CborReader.map r₄ = .ok (keys, body) := by
    rw [ask] at hmap
    cases hread : CborReader.map r₄ with
    | error why =>
      rw [hread] at hmap
      cases hmap
    | ok p =>
      rw [hread] at hmap
      cases hmap
      rfl
  rcases hthird with ⟨level', hat'⟩ | hdoomed
  · have hready' : r₄.Ready (6 + 1) := hat'.ready
    rcases hready'.box .map with ⟨w, n, tail, -, hlen, -, hok⟩ | ⟨-, why, hrefused⟩
    · have hpairs := hready'.at_pairs hlen n
      simp only [Nesting.per] at hok
      rw [show askBox .map r₄ = _ from hasked] at hok
      cases hok
      exact ⟨_, _, hpairs⟩
    · rw [show askBox .map r₄ = _ from hasked] at hrefused
      cases hrefused
  · obtain ⟨why, hrefused⟩ := hdoomed.map
    rw [hasked] at hrefused
    cases hrefused

theorem finished (h : r.Live) (hfinish : r.finish = .ok ()) : r.bytes.length ≤ r.next := by
  have hfin : r.finish = if r.nest.settle.depth ≠ 0 then .error .unfinished
      else if r.next < r.bytes.length then .error .trailingBytes else .ok () := by
    rw [CborReader.finish, h.calm]
    rfl
  rw [hfin] at hfinish
  split_ifs at hfinish with hdepth hshort
  exact Nat.le_of_not_lt hshort

theorem LinkEnvelope.body_pairs [FromCbor ε] {bytes : Bytes} {e : LinkEnvelope} (h : LinkEnvelope.decode bytes = .ok e)
    {step : ℤ → σ → Read ε σ} {f : ℤ → σ → Item → Option σ} {known : ℤ → Prop} {filled : σ → ℤ → Prop}
    {pass : ℤ → σ → σ} (hsteps : Watches (fun _ => True) (maxDepth - 2) step f known filled pass)
    (hfills : Fills f known filled pass) {s s' : σ} (hempty : ∀ j, known j → ¬filled s j) {r : CborReader}
    (hloop : pairLoop step e.keys s e.body = .ok (s', r)) (hfinish : r.finish = .ok ()) :
    ∃ pairs, LegalPairs (maxDepth - 2) pairs ∧ (ranks pairs).Nodup ∧ pairs.length = e.keys ∧
      e.body.rest = Item.spellPairs pairs ∧ foldPairs f pairs s = some s' := by
  obtain ⟨level, base, hat⟩ := LinkEnvelope.at_pairs h
  have hreads := pairLoop_reads (fun _ => trivial) hsteps hfills e.keys e.body level base [] [] s hat
    (by simp [ranks]) fun j hj => by simp [hempty j hj]
  rcases hreads with ⟨pairs, tail, s'', r', hread, hfold, hok, hb, hn, hlive, -⟩ | ⟨-, hfails⟩
  · rw [hloop] at hok
    cases hok
    obtain ⟨⟨hlen, hlegal, hfresh, -⟩, hrest⟩ :=
      (manyFresh_exact _ (pair_exact keyStep_exact (itemStep_exact _)) [] _ _ _ _).mp hread
    dsimp only at hrest
    rw [← Item.spellPairs_eq] at hrest
    refine ⟨pairs, hlegal, hfresh, hlen, ?_, hfold⟩
    have htail : tail = [] := by
      have hlength := congrArg List.length hrest
      rw [hat.live.within.rest_length, List.length_append] at hlength
      have hall := finished hlive hfinish
      rw [hb, hn] at hall
      exact List.length_eq_zero_iff.mp (by omega)
    rw [hrest, htail, List.append_nil]
  · rw [hloop] at hfails
    obtain ⟨why, hrefused⟩ := Doomed.finish hfails
    rw [hfinish] at hrefused
    cases hrefused

end Km43.Link
