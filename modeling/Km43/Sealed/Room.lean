import Km43.Cbor.Cells
import Km43.Sealed.RoundTrip

namespace Km43.Sealed

open Library Cbor CborWriter

variable {d : ℕ}

def sealedPairs (carried : Option UInt64) (sealed : Bytes) : List (Key × Item) :=
  [(Key.ofNat 1, Item.ofBytes sealed)] ++ (carried.map fun nonce => (Key.ofNat 2, Item.ofNat nonce.toNat)).toList

def envelopeItem (header : Header) (carried : Option UInt64) (sealed : Bytes) : Item :=
  .ofItems [.ofNat header.kind.byte.toUInt64.toNat, .ofNat header.session.raw.toUInt64.toNat,
    .ofNat header.reqId.toUInt64.toNat, .ofPairs (sealedPairs carried sealed)]

theorem body_writes (carried : Option UInt64) (sealed : Bytes) :
    Writes (d + 1) (writeAll (.map (if carried.isSome then 2 else 1) ::
      ([.key 1, .fill sealed] ++ carried.toList.flatMap fun nonce => [.key 2, .u64 nonce])))
      (.ofPairs (sealedPairs carried sealed)) := by
  have hsealed : WritesPairs d (writeAll [.key 1, .fill sealed]) [(Key.ofNat 1, .ofBytes sealed)] :=
    .keyed (k := 1) (by decide) (writes_one (c := .fill sealed) rfl)
  cases carried with
  | none =>
    refine writes_mapCalls (hsealed.both .nil) rfl ?_
    simp [Ascends, sealedPairs]
  | some nonce =>
    have hnonce : WritesPairs d (writeAll [.key 2, .u64 nonce]) [(Key.ofNat 2, .ofNat nonce.toNat)] :=
      .keyed (k := 2) (by decide) (writes_one (c := .u64 nonce) rfl)
    refine writes_mapCalls (hsealed.both hnonce) rfl ?_
    simp [Ascends, sealedPairs, Key.ofNat, Key.rank, KeyRank.le]

theorem calls_write (header : Header) (carried : Option UInt64) (sealed : Bytes) :
    Writes (d + 2) (writeAll (calls header carried sealed)) (envelopeItem header carried sealed) := by
  have hcons {c : Call} {calls : List Call} {i : Item} {items : List Item} (hc : c.Spells (d + 1) i)
      (h : WritesItems (d + 1) (writeAll calls) items) :
      WritesItems (d + 1) (writeAll (c :: calls)) (i :: items) := .cons (writes_call hc) h
  have hlast : WritesItems (d + 1) (writeAll (.map (if carried.isSome then 2 else 1) ::
      ([.key 1, .fill sealed] ++ carried.toList.flatMap fun nonce => [.key 2, .u64 nonce])))
      [.ofPairs (sealedPairs carried sealed)] := by
    have hone := WritesItems.cons (body_writes (d := d) carried sealed) .nil
    rwa [bind_pure_unit] at hone
  refine writes_arrayCalls ?_ rfl
  apply hcons (c := .u64 header.kind.byte.toUInt64) rfl
  apply hcons (c := .u64 header.session.raw.toUInt64) rfl
  exact hcons (c := .u64 header.reqId.toUInt64) rfl hlast

theorem envelope_length (header : Header) (nonce : UInt64) {sealed : Bytes} (h : sealed.length ≤ 0xFFFF) :
    (envelopeItem header (some nonce) sealed).spelling.length ≤
      10 + (Item.ofNat header.kind.byte.toUInt64.toNat).spelling.length +
        (Item.ofNat header.reqId.toUInt64.toNat).spelling.length + sealed.length + 10 := by
  have hsession := ofNat_length_u16 header.session.raw
  have hnonce := ofNat_length_u64 nonce
  have hhead := (headBytes_le .bytes).2.2.1 h
  have hbytes : (Item.ofBytes sealed).spelling.length ≤ 3 + sealed.length := by
    rw [Item.ofBytes, Item.spelling, Token.spelling, List.length_append]
    omega
  have hmap : (sealedPairs (some nonce) sealed).length < 24 := by simp [sealedPairs]
  have hkeys := ofPairs_length hmap
  have hfirst := pair_length (k := 1) (by decide) (Item.ofBytes sealed)
  have hsecond := pair_length (k := 2) (by decide) (Item.ofNat nonce.toNat)
  rw [sealedPairs, Option.map_some, Option.toList_some, List.singleton_append, spellPairs_cons, List.length_append,
    hfirst, hsecond] at hkeys
  rw [envelopeItem, ofItems_length (by simp)]
  simp only [Item.spellAll, List.length_append, List.length_nil, sealedPairs, Option.map_some, Option.toList_some,
    List.singleton_append]
  rw [hkeys]
  have hraw : header.session.raw.toUInt64.toNat = header.session.raw.toNat := rfl
  rw [hraw]
  omega

theorem layout_ok {header : Header} {carried : Option UInt64} {sealedLen capacity : ℕ}
    (h : (envelopeItem header carried (List.replicate sealedLen 0)).spelling.length ≤ capacity) :
    ∃ start cbor, layout header (carried.map UInt64.toNat) sealedLen (.new capacity) =
        .ok ((start, cbor.out.length), cbor) ∧ start + sealedLen ≤ cbor.out.length ∧ cbor.out.length ≤ capacity := by
  obtain ⟨w, hwrite, hout, w', hfinish⟩ := (calls_write (d := 6) header carried (List.replicate sealedLen 0)).run h
  have hcalls : calls header carried (List.replicate sealedLen 0) =
      [.array 4, .u64 header.kind.byte.toUInt64, .u64 header.session.raw.toUInt64,
        .u64 header.reqId.toUInt64, .map (if carried.isSome then 2 else 1), .key 1] ++
      (.fill (List.replicate sealedLen 0) :: carried.toList.flatMap fun nonce => [.key 2, .u64 nonce]) := rfl
  have hlen : (List.replicate sealedLen (0 : UInt8)).length = sealedLen := List.length_replicate
  rw [hcalls, writeAll_append] at hwrite
  obtain ⟨⟨⟩, w₁, h₁, hrest⟩ := bind_run_ok.mp hwrite
  obtain ⟨⟨⟩, w₃, hfill, hlast⟩ := bind_run_ok.mp hrest
  obtain ⟨start, w₂, h₂, hfilled⟩ := bind_run_ok.mp hfill
  obtain ⟨-, hstart, hw₂, -⟩ := bytesToFill_wrote h₂
  have hsame : w₃ = w₂ := by
    cases hfilled
    have hpaste := paste_over (w₁.out ++ headBytes .bytes (Width.of (List.replicate sealedLen (0 : UInt8)).length)
      (List.replicate sealedLen (0 : UInt8)).length) (List.replicate sealedLen 0) (List.replicate sealedLen 0) [] rfl
    rw [hw₂]
    simp only [List.append_nil] at hpaste
    simp only [hstart, List.length_replicate] at hpaste ⊢
    rw [hpaste]
    rfl
  subst hsame
  have hgrows₁ := writeAll_grows h₁ (Nat.zero_le _)
  have hdepth : w₃.stack.length ≤ maxDepth := by
    have hcall : (Call.fill (List.replicate sealedLen 0)).write w₁ = .ok ((), w₃) := hfill
    exact (Call.did hcall (hgrows₁.shallow (Nat.zero_le _))).grows.shallow (hgrows₁.shallow (Nat.zero_le _))
  have hgrows := writeAll_grows hlast hdepth
  obtain ⟨-, hsize⟩ := finish_inv hfinish
  have hfinal := finish_out hfinish
  refine ⟨start, w', ?_, ?_, ?_⟩
  · rw [layout_eq]
    refine bind_run_ok.mpr ⟨(), w₁, h₁, bind_run_ok.mpr ⟨start, w₃, ?_, bind_run_ok.mpr ⟨(), w, hlast,
      bind_run_ok.mpr ⟨_, w', hfinish, ?_⟩⟩⟩⟩
    · rwa [hlen] at h₂
    · rw [hsize, hfinal]
      rfl
  · rw [hfinal]
    have hle := hgrows.out.length_le
    rw [hw₂] at hle
    rw [hstart]
    simpa [Nat.add_assoc] using hle
  · rw [hfinal, hout]
    exact h

def Aead.Encrypts (aead : Aead) : Prop := ∀ key nonce ad body, (aead.encrypt key nonce ad body).isSome

theorem write_ok {aead : Aead} (haead : aead.Encrypts) (key : Bytes) {header : Header} {carried : Option UInt64}
    (nonce : ℕ) {inner dst : Bytes}
    (h : (envelopeItem header carried (List.replicate (inner.length + tagBytes) 0)).spelling.length ≤ dst.length) :
    ∃ len, len ≤ dst.length ∧
      (write aead key header nonce (carried.map UInt64.toNat) inner dst).result = .ok len := by
  obtain ⟨start, cbor, hlayout, hstart, hlen⟩ := layout_ok h
  obtain ⟨⟨body, tag⟩, hencrypt⟩ := Option.isSome_iff_exists.mp (haead key (nonceBytes nonce) (ad header) inner)
  have hslice : slice (cbor.out ++ dst.drop cbor.out.length) start (start + (inner.length + tagBytes)) = some _ :=
    slice_some (Nat.le_add_right _ _) (by rw [List.length_append]; omega)
  refine ⟨cbor.out.length, hlen, ?_⟩
  unfold write
  dsimp only
  rw [hlayout]
  simp only [hslice]
  have hregion : (((cbor.out ++ dst.drop cbor.out.length).take (start + (inner.length + tagBytes))).drop start).length =
      inner.length + tagBytes := by
    rw [List.length_drop, List.length_take, List.length_append]
    omega
  rw [hregion, if_neg (by omega)]
  have hseal : sealInPlace aead key nonce (ad header) inner (inner.length + tagBytes - inner.length) = .ok (body, tag) := by
    simp only [sealInPlace, hencrypt]
    rw [if_neg (by omega)]
  rw [hseal]

end Km43.Sealed
