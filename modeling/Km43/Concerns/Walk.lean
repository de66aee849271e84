import Km43.Cbor.Complete
import Km43.Concerns.Answer
import Km43.Inventory.Walk
import Km43.Link.FrameLaws

namespace Km43.Concerns

open Library Cbor CborReader CborWriter Link

inductive AskKey
  | rev
  | start
  deriving DecidableEq

namespace AskKey

def all : List AskKey := [rev, start]

theorem keyList : KeyList all := ⟨by decide, fun k => by cases k <;> decide, by decide⟩

instance : Listed AskKey := ⟨all, keyList⟩

end AskKey

/-- The body of `ReadConcerns 0x0F`: the revision that the client holds, and the concern to resume at, 0 being none. -/
structure ReadConcerns where
  rev : UInt32
  start : UInt16
  deriving DecidableEq

namespace ReadConcerns

def encodeInto (asked : ReadConcerns) : Encoder AnswerError Unit := do
  tell (CborWriter.map 2)
  tell (CborWriter.key 1)
  tell (CborWriter.u64 asked.rev.toNat)
  tell (CborWriter.key 2)
  tell (CborWriter.u64 asked.start.toNat)

def encode (asked : ReadConcerns) (dst : ℕ) : Except AnswerError Bytes := encodeBody asked.encodeInto dst

def Value : AskKey → Type
  | .rev => UInt32
  | .start => UInt16

def codec : ∀ k, Codec AnswerError (Value k)
  | .rev => .u32
  | .start => .u16

def table : Table AnswerError AskKey :=
  .ofCodecs codec fun k => .concern (.duplicate (UInt8.ofNat (BodyKey.number k)))

def complete (s : table.Slots) : Except AnswerError ReadConcerns := do
  let rev ← slotRequired (.missingRequest 1) (s .rev)
  let start ← slotRequired (.missingRequest 2) (s .start)
  .ok ⟨rev, start⟩

def decode : Bytes → Except AnswerError ReadConcerns := table.decode complete

def slots (asked : ReadConcerns) : ∀ k, Option (Value k)
  | .rev => some asked.rev
  | .start => some asked.start

variable {asked : ReadConcerns}

theorem complete_ok {s : table.Slots} : complete s = .ok asked ↔ s = asked.slots := by
  simp only [complete, bind_ok, slotRequired_ok]
  constructor
  · rintro ⟨rev, h₁, start, h₂, ⟨⟩⟩
    funext k
    cases k <;> assumption
  · rintro rfl
    exact ⟨_, rfl, _, rfl, rfl⟩

theorem maySend : MaySend codec asked.slots := by
  intro k v hv
  cases k <;> trivial

theorem encodeInto_tells (asked : ReadConcerns) :
    Tells asked.encodeInto (.map 2 :: entryCalls (cellCalls codec asked.slots)) := by
  refine .cons (c := .map 2) ?_
  refine .entryCons AskKey.rev (.u64 asked.rev.toUInt64) ?_
  exact .entry AskKey.start (.u64 asked.start.toUInt64)

theorem encode_ok {dst : ℕ} {out : Bytes} : asked.encode dst = .ok out ↔
    out = (bodyItem (cellItems codec asked.slots)).spelling ∧
      (bodyItem (cellItems codec asked.slots)).spelling.length ≤ dst :=
  encode_cells asked.encodeInto_tells maySend rfl

def width : AskKey → ℕ
  | .rev => 6
  | .start => 4

theorem value_length (k : AskKey) (v : Value k) : 1 + ((codec k).spell v).spelling.length ≤ width k := by
  cases k with
  | rev => exact Nat.add_le_add_left (ofNat_length_u32 v) 1
  | start => exact Nat.add_le_add_left (ofNat_length_u16 v) 1

theorem encodes (asked : ReadConcerns) : ∃ out, asked.encode innerBodyBytes = .ok out ∧ decode out = .ok asked := by
  have hlen : (bodyItem (cellItems codec asked.slots)).spelling.length ≤ 1 + (AskKey.all.map width).sum :=
    cellItems_length fun k v _ => value_length k v
  exact ⟨_, encode_ok.mpr ⟨rfl, hlen.trans (by decide)⟩, bind_ok.mpr ⟨_, cellItems_decode maySend, complete_ok.mpr rfl⟩⟩

end ReadConcerns

namespace ConcernsPage

theorem push_next {page : ConcernsPage} {c : Concern} {took : Bool} (htook : (page.push c).1 = .ok took) :
    (page.push c).2.next = if took then page.next else c.cid.raw := by
  have hsame : (page.rows.push maxConcernPageRows concernMaxBytes maxConcernPageBytes c.encode).1 = .ok took := htook
  unfold push
  dsimp only
  rw [hsame]
  cases took <;> rfl

theorem pages : Pages push new (fun page => page.next.toNat) (fun c => c.cid.raw.toNat) (fun c => c.unnamed = false)
    Carries := by
  constructor
  · exact new_carries
  · rfl
  · intro c hnamed
    apply Packed.push_first (by decide) ((row_writes hnamed _).mpr ⟨rfl, c.items_length⟩)
    exact c.items_length.trans (by decide)
  · intro page held c _ hnamed
    exact Packed.push_answers ((row_writes hnamed _).mpr ⟨rfl, c.items_length⟩)
  · intro page held c hholds hnamed htook
    exact ⟨push_carries hholds hnamed htook, congrArg UInt16.toNat (push_next htook)⟩
  · intro page held c hholds hfull
    constructor
    · apply push_left hholds
      intro htook
      rw [hfull] at htook
      cases htook
    · exact congrArg UInt16.toNat (push_next hfull)

end ConcernsPage

/-- The concerns that a site holds, each with a number of its own and every one that needs a code with it. -/
structure Site where
  concerns : List Concern
  rev : UInt32
  seq : UInt64
  refused : UInt16
  rises : concerns.Pairwise fun a b => a.cid.raw < b.cid.raw
  named : ∀ c ∈ concerns, c.unnamed = false

structure Exchange where
  page : ConcernsPage
  header : ConcernsHeader
  rows : List Concern

def cidOf (c : Concern) : ℕ := c.cid.raw.toNat

namespace Site

def total (site : Site) : UInt16 := UInt16.ofNat site.concerns.length

def page (site : Site) (start : ℕ) : Except AnswerError ConcernsPage :=
  (fillPage ConcernsPage.push .new (fromPosition cidOf start site.concerns)).mapError .concern

def body (site : Site) (page : ConcernsPage) : ConcernsBody :=
  ⟨site.rev, site.seq, site.total, site.refused, .ok, some page⟩

def answer (site : Site) (start : ℕ) : Except AnswerError Exchange := do
  let page ← site.page start
  let payload ← (site.body page).encode innerBodyBytes
  let header ← ConcernsHeader.decode payload
  let rows ← ConcernRows.of payload
  let concerns ← rows.all
  .ok ⟨page, header, concerns⟩

def exchange (site : Site) (start : ℕ) : Except AnswerError Exchange := do
  let payload ← (ReadConcerns.mk site.rev (UInt16.ofNat start)).encode innerBodyBytes
  let asked ← ReadConcerns.decode payload
  site.answer asked.start.toNat

def walk (site : Site) (start : UInt16) : Except AnswerError (List Exchange) :=
  serve site.exchange (fun e => e.header.next.toNat) (site.concerns.length + 1) start.toNat

variable {site : Site}

theorem total_exact (site : Site) : site.total.toNat = site.concerns.length := by
  have hrise : (site.concerns.map cidOf).Pairwise (· < ·) := by
    rw [List.pairwise_map]
    exact site.rises.imp fun h => UInt16.lt_iff_toNat_lt.mp h
  have hcard : (site.concerns.map cidOf).toFinset.card = site.concerns.length := by
    rw [List.toFinset_card_of_nodup (hrise.imp fun h => h.ne), List.length_map]
  have hbetween : (site.concerns.map cidOf).toFinset ⊆ Finset.Ico 1 65536 := by
    intro n hn
    obtain ⟨c, -, rfl⟩ := List.mem_map.mp (List.mem_toFinset.mp hn)
    have hnonzero : cidOf c ≠ 0 := fun h => c.cid.nonzero (UInt16.toNat_inj.mp h)
    exact Finset.mem_Ico.mpr ⟨Nat.one_le_iff_ne_zero.mpr hnonzero, c.cid.raw.toNat_lt⟩
  have hle := Finset.card_le_card hbetween
  rw [hcard, Nat.card_Ico] at hle
  exact UInt16.toNat_ofNat_of_lt' (hle.trans_lt (by decide))

theorem body_fits {page : ConcernsPage} {concerns : List Concern} (h : page.Carries concerns) :
    (bodyItem ((site.body page).items (concerns.map fun c => bodyItem c.items))).spelling.length ≤ innerBodyBytes := by
  have hfew : (concerns.map fun c => bodyItem c.items).length < 256 := by
    have hrows := h.few
    rw [h.holds.rows] at hrows
    exact hrows.trans_lt (by decide)
  have hbytes : (Item.spellAll (concerns.map fun c => bodyItem c.items)).length ≤ maxConcernPageBytes := by
    rw [← h.holds.bytes]
    exact h.within
  have harray := ofItems_length_u8 hfew
  have hrows : ((entryOf AnswerKey.rows (listed (concerns.map fun c => bodyItem c.items)) Item.ofItems).map
      fun e => 1 + e.2.spelling.length).sum ≤ 3 + maxConcernPageBytes := by
    unfold listed
    split_ifs
    · exact Nat.zero_le _
    · rw [entry_some, List.map_singleton, List.sum_singleton]
      dsimp only
      omega
  have hrev := ofNat_length_u32 (site.body page).rev
  have hseq := ofNat_length_u64 (site.body page).seq
  have hnext := ofNat_length_u16 (site.body page).shown.next
  have htotal := ofNat_length_u16 (site.body page).total
  have hrefused := ofNat_length_u16 (site.body page).refused
  have houtcome := ofNat_length_u8 (site.body page).outcome.number
  unfold maxConcernPageBytes at hrows
  unfold innerBodyBytes
  rw [bodyItem_length ?_ Listed.small]
  · unfold ConcernsBody.items ConcernsBody.frontItems ConcernsBody.backItems
    simp only [List.map_append, List.map_cons, List.map_nil, List.sum_append, List.sum_cons, List.sum_nil]
    omega
  · rw [ConcernsBody.items_length]
    cases (listed (concerns.map fun c => bodyItem c.items)).isSome <;> decide

theorem answer_spec (site : Site) (start : ℕ) : ∃ e taken left, site.answer start = .ok e ∧
    fromPosition cidOf start site.concerns = taken ++ left ∧ (e.header = (site.body e.page).header ∧ e.page.Carries taken ∧
      e.rows = taken) ∧ e.header.next.toNat = resumesAt cidOf left ∧ (left ≠ [] → taken ≠ []) := by
  have hoffered : ∀ c ∈ fromPosition cidOf start site.concerns, c.unnamed = false :=
    fun c hc => site.named c (List.mem_filter.mp hc).1
  obtain ⟨page, taken, left, hpage, hsplit, hcarries, hnext, hmoves⟩ := ConcernsPage.pages.fills_new hoffered
  have hfew : (taken.map fun c => bodyItem c.items).length ≤ maxConcernPageRows := hcarries.holds.rows ▸ hcarries.few
  have hshort : (taken.map fun c => bodyItem c.items).length < 256 := hfew.trans_lt (by decide)
  have hholds : (site.body page).shown.rows.Holds 6 (taken.map fun c => bodyItem c.items) := hcarries.holds
  have hwritten : (site.body page).Written := fun hnot => absurd rfl hnot
  have hfits := @body_fits site _ _ hcarries
  have hencode := (ConcernsBody.encode_ok hholds hshort).mpr ⟨hwritten, rfl, hfits⟩
  have hheader := ConcernsBody.decode_items hwritten hholds hfew (hfits.trans_lt (by decide))
  have hentries := @ConcernsBody.items_legal (site.body page) _ hshort hholds.legal
  have hlegal := bodyItem_legal ConcernsBody.items_rising hentries
  rw [List.length_map] at hshort
  obtain ⟨rows, hof, hall⟩ := ConcernRows.of_items hcarries.named hshort hlegal
  refine ⟨⟨page, (site.body page).header, taken⟩, taken, left, ?_, hsplit, ⟨rfl, hcarries, rfl⟩, hnext, hmoves⟩
  have hfilled : site.page start = .ok page := congrArg (Except.mapError AnswerError.concern) hpage
  exact bind_ok.mpr ⟨page, hfilled, bind_ok.mpr ⟨_, hencode, bind_ok.mpr ⟨_, hheader, bind_ok.mpr ⟨rows, hof,
    bind_ok.mpr ⟨taken, hall, rfl⟩⟩⟩⟩⟩

theorem exchange_answers (site : Site) {start : ℕ} (hstart : start < 65536) :
    site.exchange start = site.answer start := by
  obtain ⟨out, hencode, hdecode⟩ := (ReadConcerns.mk site.rev (UInt16.ofNat start)).encodes
  have hcursor : (UInt16.ofNat start).toNat = start := UInt16.toNat_ofNat_of_lt' hstart
  unfold exchange
  rw [hencode]
  change (ReadConcerns.decode out >>= fun asked => site.answer asked.start.toNat) = _
  rw [hdecode]
  change site.answer (UInt16.ofNat start).toNat = _
  rw [hcursor]

theorem read_page {exchanges : List Exchange} {parts : List (List Concern)} {Reads : Exchange → List Concern → Prop}
    (h : List.Forall₂ Reads exchanges parts) {e : Exchange} (he : e ∈ exchanges) : ∃ taken, Reads e taken := by
  induction h with
  | nil => cases he
  | cons hone _ ih =>
    rcases List.mem_cons.mp he with rfl | he
    · exact ⟨_, hone⟩
    · exact ih he

/-- A walk hands over each concern from where it starts once and in order, every page counts the whole table and its
own rows, and the last says that nothing follows. -/
theorem walk_reads_each (site : Site) : (site.walk 0).map (List.flatMap Exchange.rows) = .ok site.concerns ∧
    ∀ start, ∃ exchanges, site.walk start = .ok exchanges ∧
      exchanges.flatMap Exchange.rows = fromPosition cidOf start.toNat site.concerns ∧
      EndsOnce (fun e => e.header.next.toNat) exchanges ∧ ∀ e ∈ exchanges, e.header.outcome = .ok ∧
        e.header.rev = site.rev ∧ e.header.seq = site.seq ∧ e.header.refused = site.refused ∧
        e.header.total.toNat = site.concerns.length ∧ e.header.rows = e.rows.length := by
  have hwalk : ∀ start : UInt16, ∃ exchanges, site.walk start = .ok exchanges ∧
      exchanges.flatMap Exchange.rows = fromPosition cidOf start.toNat site.concerns ∧
      EndsOnce (fun e => e.header.next.toNat) exchanges ∧ ∀ e ∈ exchanges, e.header.outcome = .ok ∧
        e.header.rev = site.rev ∧ e.header.seq = site.seq ∧ e.header.refused = site.refused ∧
        e.header.total.toNat = site.concerns.length ∧ e.header.rows = e.rows.length := by
    intro start
    have hrise : site.concerns.Pairwise fun a b => cidOf a < cidOf b :=
      site.rises.imp fun h => UInt16.lt_iff_toNat_lt.mp h
    have hfuel : (fromPosition cidOf start.toNat site.concerns).length < site.concerns.length + 1 :=
      Nat.lt_succ_of_le (List.length_filter_le _ _)
    obtain ⟨exchanges, parts, hserve, hreads, hflat, hends⟩ := serve_delivers hrise site.answer_spec _ start.toNat hfuel
    have hsame : site.walk start = serve site.answer (fun e => e.header.next.toNat) _ start.toNat :=
      serve_congr (fun _ => site.exchange_answers) (fun e => e.header.next.toNat_lt) _ start.toNat_lt
    refine ⟨exchanges, hsame.trans hserve, ?_, hends, ?_⟩
    · rw [← hflat]
      clear hserve hends hflat
      induction hreads with
      | nil => rfl
      | cons hone _ ih => rw [List.flatMap_cons, List.flatten_cons, ih, hone.2.2]
    · intro e he
      obtain ⟨taken, hheader, hcarries, hrows⟩ := read_page hreads he
      rw [hheader, hrows]
      exact ⟨rfl, rfl, rfl, rfl, site.total_exact, hcarries.length⟩
  refine ⟨?_, hwalk⟩
  obtain ⟨exchanges, hok, hrows, -⟩ := hwalk 0
  rw [hok]
  refine congrArg Except.ok (hrows.trans ?_)
  exact fromPosition_zero

theorem cid_nonzero (n : Fin 14) : UInt16.ofNat (n + 1) ≠ 0 := by decide +revert

theorem dev_nonzero : (7 : UInt16) ≠ 0 := by decide

def warningOf (n : Fin 14) : Concern :=
  ⟨⟨UInt16.ofNat (n + 1), cid_nonzero n⟩, .part (.device ⟨7, dev_nonzero⟩), ⟨1⟩, .warning, .active, 60, none, none, 3⟩

theorem warnings_rise : (List.ofFn warningOf).Pairwise fun a b => a.cid.raw < b.cid.raw := by decide

theorem warnings_named : ∀ c ∈ List.ofFn warningOf, c.unnamed = false := by decide

def warned : Site := ⟨List.ofFn warningOf, 5, 9, 0, warnings_rise, warnings_named⟩

theorem walk_reads_each_warned : (warned.page 0).map ConcernsPage.next = .ok 13 ∧
    (warned.walk 0).map (List.flatMap Exchange.rows) = .ok (List.ofFn warningOf) :=
  ⟨by decide +kernel, (walk_reads_each warned).1⟩

end Site

end Km43.Concerns
