import Km43.Inventory.BodyTrip
import Km43.Inventory.Digest
import Km43.Library.Serving

namespace Km43.Inventory

open Library Cbor CborReader

structure Catalogue where
  kind : RowKind
  rows : List (Row × UInt16)
  rev : UInt32
  total : UInt16
  digest : Option Digest

def idOf (listed : Row × UInt16) : ℕ := listed.2.toNat

structure Exchange where
  page : Page
  header : InventoryHeader
  rows : List (Bytes × Row)

def readRow (kind : RowKind) (one : Bytes) : Except InventoryError (Bytes × Row) := do
  let row ← RowSlots.decode kind one
  .ok (one, row)

def readRows (kind : RowKind) (payload : Bytes) : Except InventoryError (InventoryHeader × List (Bytes × Row)) := do
  let (header, rows) ← InventoryHeader.decodeWithRows payload
  let (count, reader) ← (ask CborReader.array : Read InventoryError ℕ) (.new rows)
  let rows ← collect (readRow kind) count reader
  .ok (header, rows)

namespace Catalogue

def page (c : Catalogue) (start : ℕ) : Except InventoryError Page :=
  fillPage (fun page listed => page.push listed.1 listed.2) (.new c.kind) (fromPosition idOf start c.rows)

-- the digest stands on the last page of the walk and on no other
def body (c : Catalogue) (page : Page) : InventoryBody :=
  ⟨c.rev, c.kind.number, .ok, c.total, some page, if page.next = 0 then c.digest else none⟩

def exchange (c : Catalogue) (start : ℕ) : Except InventoryError Exchange := do
  let page ← c.page start
  let payload ← (c.body page).encode innerBodyBytes
  let (header, rows) ← readRows c.kind payload
  .ok ⟨page, header, rows⟩

def walk (c : Catalogue) (start : ℕ) : Except InventoryError (List Exchange) :=
  serve c.exchange (fun e => e.header.next.toNat) (c.rows.length + 1) start

end Catalogue

namespace Row

variable {row : Row}

def Measured (row : Row) : Prop := ∃ len, row.encodedLen = .ok len

theorem Measured.encoded (h : row.Measured) : row.encoded = .ok row.item.spelling ∧ (∀ value ∈ row.values, value.Short) ∧
    row.item.spelling.length ≤ maxRowBytes := by
  obtain ⟨len, hlen⟩ := h
  cases hone : row.encoded with
  | error why =>
    rw [encodedLen, hone] at hlen
    cases hlen
  | ok one =>
    have hbody : encodeBody row.encode maxRowBytes = .ok one := hone
    have hshort := Row.encode_short (by decide) hbody
    obtain ⟨rfl, hwidth⟩ := (Row.encode_ok hshort).mp hbody
    exact ⟨rfl, hshort, hwidth⟩

end Row

namespace Page

variable {kind : RowKind} {page : Page} {row : Row} {id : UInt16}

theorem push_same (h : row.kind = page.kind) : (page.push row id).1 =
    (page.rows.push maxInventoryPageRows maxRowBytes maxInventoryPageBytes row.encode).1 := by
  rw [push, if_neg (not_not.mpr h)]

theorem push_next (h : row.kind = page.kind) (took : Bool) (htook : (page.push row id).1 = .ok took) :
    (page.push row id).2.next = if took then page.next else id := by
  rw [push_same h] at htook
  rw [push, if_neg (not_not.mpr h)]
  simp only
  rw [htook]
  cases took <;> rfl

theorem pages (kind : RowKind) : Pages (fun (page : Page) (listed : Row × UInt16) => page.push listed.1 listed.2)
    (.new kind) (fun page => page.next.toNat) idOf (fun listed => listed.1.kind = kind ∧ listed.1.Measured)
    fun page listed => Taken kind page (listed.map Prod.fst) := by
  constructor
  · exact .new
  · rfl
  · rintro ⟨row, id⟩ ⟨hkind, hmeasured⟩
    obtain ⟨hone, -, hwidth⟩ := hmeasured.encoded
    rw [push_same hkind]
    apply Packed.push_first (by decide) hone
    exact hwidth.trans (by decide)
  · rintro page held ⟨row, id⟩ htaken ⟨hkind, hmeasured⟩
    obtain ⟨hone, -, -⟩ := hmeasured.encoded
    rw [push_same (hkind.trans htaken.kind.symm)]
    exact Packed.push_answers hone
  · rintro page held ⟨row, id⟩ htaken ⟨hkind, -⟩ htook
    constructor
    · rw [List.map_append]
      exact htaken.took row id htook
    · exact congrArg UInt16.toNat (push_next (hkind.trans htaken.kind.symm) true htook)
  · rintro page held ⟨row, id⟩ htaken hfull
    have hkind : row.kind = page.kind := by
      by_contra hkind
      simp only [push, if_pos hkind] at hfull
      cases hfull
    constructor
    · apply htaken.left row id
      intro htook
      rw [hfull] at htook
      cases htook
    · exact congrArg UInt16.toNat (push_next hkind false hfull)

end Page

namespace Catalogue

variable {c : Catalogue} {page : Page} {rows : List Row}

theorem body_written : (c.body page).Written := by
  constructor
  · intro hnot
    exact absurd rfl hnot
  · intro hdigest
    by_contra hnext
    have hnone : (c.body page).digest = none := if_neg hnext
    rw [hnone] at hdigest
    cases hdigest

theorem body_fits (h : page.Carries rows) :
    (bodyItem ((c.body page).items (rows.map Row.item))).spelling.length ≤ innerBodyBytes := by
  have hfew : (rows.map Row.item).length < 256 := by
    have hrows := h.few
    rw [h.holds.rows] at hrows
    exact hrows.trans_lt (by decide)
  have harray := ofItems_length_u8 hfew
  have hbytes : (Item.spellAll (rows.map Row.item)).length ≤ 880 := by
    rw [← h.holds.bytes]
    exact h.within
  have hrev := ofNat_length_u32 (c.body page).rev
  have hwhat := ofNat_length_u8 (c.body page).what
  have hnext := ofNat_length_u16 (c.body page).next
  have htotal := ofNat_length_u16 (c.body page).total
  have houtcome := ofNat_length_u8 (c.body page).outcome.number
  have hdigest : ∀ digest : Digest, (Item.ofBytes digest.raw).spelling.length = 9 := by
    intro digest
    have hhead := (headBytes_le .bytes).2.2.2.2 (show digest.raw.length < 24 by rw [digest.width]; decide)
    rw [Item.ofBytes, Item.spelling, Token.spelling, List.length_append, hhead, digest.width]
  have hcount := @InventoryBody.items_length (c.body page) (rows.map Row.item)
  rw [bodyItem_length ?_ ?_]
  · unfold InventoryBody.items InventoryBody.frontItems InventoryBody.backItems
    change _ ≤ 982
    cases (c.body page).digest with
    | none =>
      simp only [List.map_append, List.map_cons, List.map_nil, List.sum_append, List.sum_cons, List.sum_nil,
        Option.map_none, Option.toList_none]
      omega
    | some digest =>
      have hwidth := hdigest digest
      simp only [List.map_append, List.map_cons, List.map_nil, List.sum_append, List.sum_cons, List.sum_nil,
        Option.map_some, Option.toList_some]
      omega
  · rw [hcount]
    cases (c.body page).digest with
    | none => decide
    | some digest => exact show 7 < 24 by decide
  · intro k
    cases k <;> decide

theorem readRows_encoded (h : page.Carries rows) (hkind : page.kind = c.kind) {payload : Bytes}
    (hpayload : (c.body page).encode innerBodyBytes = .ok payload) :
    readRows c.kind payload = .ok ((c.body page).header, rows.map fun row => (row.item.spelling, row)) := by
  have hholds : (c.body page).rows.Holds 6 (rows.map Row.item) := h.holds
  have hfew : (c.body page).rows.rows < 2 ^ 64 := h.few.trans_lt (by decide)
  obtain ⟨hwritten, rfl, -⟩ := (InventoryBody.encode_ok hholds hfew).mp hpayload
  have hdecode := InventoryBody.decode_items hwritten hholds hfew
  have hlength : (rows.map Row.item).length < 2 ^ 64 := hholds.rows ▸ hfew
  have hrows : List.Forall₂ (fun (i : Item) read => i.Legal 7 ∧ readRow c.kind i.spelling = .ok read)
      (rows.map Row.item) (rows.map fun row => (row.item.spelling, row)) := by
    rw [List.forall₂_map_left_iff, List.forall₂_map_right_iff, List.forall₂_same]
    intro row hrow
    constructor
    · exact (h.holds.legal _ (List.mem_map_of_mem hrow)).mono (by decide)
    · have hone := h.decoded row hrow
      rw [h.kind row hrow, hkind] at hone
      rw [readRow, hone]
      rfl
  obtain ⟨reader, harray, hcollect⟩ := collect_array hlength hrows
  have hask : (ask CborReader.array : Read InventoryError ℕ) (.new (c.body page).array) =
      .ok ((rows.map Row.item).length, reader) := by
    rw [← InventoryBody.array_item hholds, ask, harray]
  rw [readRows]
  refine bind_ok.mpr ⟨_, hdecode, bind_ok.mpr ⟨_, hask, bind_ok.mpr ⟨_, hcollect, rfl⟩⟩⟩

theorem exchange_spec (hfits : ∀ listed ∈ c.rows, listed.1.kind = c.kind ∧ listed.1.Measured) (start : ℕ) :
    ∃ e taken left, c.exchange start = .ok e ∧ fromPosition idOf start c.rows = taken ++ left ∧
      (Page.Taken c.kind e.page (taken.map Prod.fst) ∧
        e.rows = taken.map fun listed => (listed.1.item.spelling, listed.1)) ∧
      e.header.next.toNat = resumesAt idOf left ∧ (left ≠ [] → taken ≠ []) := by
  have hoffered : ∀ listed ∈ fromPosition idOf start c.rows, listed.1.kind = c.kind ∧ listed.1.Measured := by
    intro listed hlisted
    exact hfits listed (List.mem_filter.mp hlisted).1
  obtain ⟨page, taken, left, hpage, hsplit, htaken, hnext, hmoves⟩ := (Page.pages c.kind).fills_new hoffered
  have hcarries := htaken.carries
  have hholds : (c.body page).rows.Holds 6 ((taken.map Prod.fst).map Row.item) := hcarries.holds
  have hfew : (c.body page).rows.rows < 2 ^ 64 := hcarries.few.trans_lt (by decide)
  have hencode := (InventoryBody.encode_ok hholds hfew).mpr ⟨body_written, rfl, body_fits hcarries⟩
  have hread := readRows_encoded hcarries htaken.kind hencode
  refine ⟨⟨page, (c.body page).header, (taken.map Prod.fst).map fun row => (row.item.spelling, row)⟩, taken, left, ?_,
    hsplit, ⟨htaken, ?_⟩, hnext, hmoves⟩
  swap
  · simp only [List.map_map]
    rfl
  exact bind_ok.mpr ⟨page, hpage, bind_ok.mpr ⟨_, hencode, bind_ok.mpr ⟨_, hread, rfl⟩⟩⟩

theorem exchanges_rows {exchanges : List Exchange} {parts : List (List (Row × UInt16))}
    (h : List.Forall₂ (fun e taken => Page.Taken c.kind e.page (taken.map Prod.fst) ∧
      e.rows = taken.map fun listed => (listed.1.item.spelling, listed.1)) exchanges parts) :
    List.Forall₂ (Page.Taken c.kind) (exchanges.map Exchange.page) (parts.map (List.map Prod.fst)) ∧
      exchanges.flatMap Exchange.rows = parts.flatten.map fun listed => (listed.1.item.spelling, listed.1) := by
  induction h with
  | nil => exact ⟨.nil, rfl⟩
  | cons hone _ ih =>
    obtain ⟨htaken, hrows⟩ := ih
    constructor
    · exact .cons hone.1 htaken
    · rw [List.flatMap_cons, List.flatten_cons, List.map_append, hone.2, hrows]

/-- A walk hands over each row once and in order, and the digest of its pages is that of the rows as they came. -/
theorem walk_delivers (c : Catalogue) (hfits : ∀ listed ∈ c.rows, listed.1.kind = c.kind ∧ listed.1.Measured)
    (hrise : c.rows.Pairwise fun a b => a.2 < b.2) : fromPosition idOf 0 c.rows = c.rows ∧ ∀ start, ∃ exchanges,
      c.walk start = .ok exchanges ∧
      (exchanges.flatMap fun e => e.rows.map Prod.snd) = (fromPosition idOf start c.rows).map Prod.fst ∧
      EndsOnce (fun e => e.header.next.toNat) exchanges ∧
      (∀ e ∈ exchanges, ∀ read ∈ e.rows, read.2.encoded = .ok read.1) ∧
      ∀ (sha256 : Bytes → Identity.Key32) (d : TopoDigest), d.Reaches c.kind →
        (d.absorbAll (exchanges.map Exchange.page)).map (TopoDigest.finish sha256) =
          .ok ((d.feed (exchanges.flatMap fun e => e.rows.map Prod.fst)).finish sha256) ∧
        ∀ pages parts, List.Forall₂ (Page.Taken c.kind) pages parts →
          parts.flatten = (fromPosition idOf start c.rows).map Prod.fst →
          (d.absorbAll pages).map (TopoDigest.finish sha256) =
            (d.absorbAll (exchanges.map Exchange.page)).map (TopoDigest.finish sha256) := by
  refine ⟨fromPosition_zero, fun start => ?_⟩
  have hrise : c.rows.Pairwise fun a b => idOf a < idOf b := hrise.imp fun h => UInt16.lt_iff_toNat_lt.mp h
  have hfuel : (fromPosition idOf start c.rows).length < c.rows.length + 1 :=
    Nat.lt_succ_of_le (List.length_filter_le _ _)
  obtain ⟨exchanges, parts, hwalk, hreads, hflat, hends⟩ := serve_delivers hrise (exchange_spec hfits) _ start hfuel
  obtain ⟨htaken, hrows⟩ := exchanges_rows hreads
  have hlisted : ∀ listed ∈ parts.flatten, listed.1.Measured := by
    intro listed hlisted
    rw [hflat] at hlisted
    exact (hfits listed (List.mem_filter.mp hlisted).1).2
  refine ⟨exchanges, hwalk, ?_, hends, ?_, ?_⟩
  · rw [← hflat, ← List.map_flatMap, hrows, List.map_map]
    rfl
  · intro e he read hread
    have hmem : read ∈ exchanges.flatMap Exchange.rows := List.mem_flatMap.mpr ⟨e, he, hread⟩
    rw [hrows] at hmem
    obtain ⟨listed, hin, rfl⟩ := List.mem_map.mp hmem
    exact (hlisted listed hin).encoded.1
  · intro sha256 d hd
    have hpages := TopoDigest.absorbAll_rows sha256 hd htaken
    have hbytes : (exchanges.flatMap fun e => e.rows.map Prod.fst) =
        (parts.map (List.map Prod.fst)).flatten.map fun row => row.item.spelling := by
      rw [← List.map_flatMap, hrows, ← List.map_flatten, List.map_map, List.map_map]
      rfl
    rw [hbytes]
    refine ⟨hpages, fun pages others hothers hsame => ?_⟩
    rw [hpages, TopoDigest.absorbAll_rows sha256 hd hothers, hsame, ← hflat, List.map_flatten]

def busValues (bus : UInt8) (label : Value) : List Value := [.u8 bus, .u8 1, label, .absent]

theorem bus_legal (bus : UInt8) : RowValues.check ⟨.bus, busValues bus .absent⟩ = .ok () := rfl

def plainBus (bus : UInt8) : Row := ⟨⟨.bus, busValues bus .absent⟩, bus_legal bus⟩

def manyBuses : Catalogue :=
  ⟨.bus, (List.range' 1 50).map fun n => (plainBus (UInt8.ofNat n), UInt16.ofNat n), 7, 50, none⟩

/-- Each row has a length, their ids rise, and the first page is full before the row of id 49. -/
theorem manyBuses_paged : (manyBuses.rows.all fun listed => listed.1.encodedLen.isOk) = true ∧
    (manyBuses.rows.Pairwise fun a b => a.2 < b.2) ∧ (manyBuses.page 0).map Page.next = .ok 49 := by
  decide +kernel

theorem walk_delivers_many : (manyBuses.page 0).map Page.next = .ok 49 ∧ ∃ exchanges,
    manyBuses.walk 0 = .ok exchanges ∧
    (exchanges.flatMap fun e => e.rows.map Prod.snd) = manyBuses.rows.map Prod.fst := by
  obtain ⟨hlong, hrise, hnext⟩ := manyBuses_paged
  have hfits : ∀ listed ∈ manyBuses.rows, listed.1.kind = manyBuses.kind ∧ listed.1.Measured := by
    intro listed hlisted
    have hok := List.all_eq_true.mp hlong listed hlisted
    constructor
    · obtain ⟨n, -, rfl⟩ := List.mem_map.mp hlisted
      rfl
    · cases h : listed.1.encodedLen with
      | error why =>
        rw [h] at hok
        cases hok
      | ok len => exact ⟨len, h⟩
  obtain ⟨hall, hwalk⟩ := walk_delivers manyBuses hfits hrise
  obtain ⟨exchanges, hok, hrows, -⟩ := hwalk 0
  rw [hall] at hrows
  exact ⟨hnext, exchanges, hok, hrows⟩

theorem longText_utf8 : isUtf8 (List.replicate 64 97) = true := by decide

def longText : Str := ⟨List.replicate 64 97, longText_utf8⟩

def longValues : RowValues := ⟨.device, [.u16 1, .u8 1, .absent, .u16 1, .u16 1, .u16 1, .absent, .text longText, .text longText,
  .text longText, .absent, .u32 0, .absent]⟩

theorem longValues_legal : longValues.check = .ok () := by decide

def longRow : Row := ⟨longValues, longValues_legal⟩

def longDevice : Catalogue := ⟨.device, [(longRow, 1)], 7, 1, none⟩

/-- A row of its table whose texts together are past any row's buffer ends the walk, since only registration measures
it. -/
theorem walk_refuses_unmeasured : ¬ ∀ c : Catalogue, (∀ listed ∈ c.rows, listed.1.kind = c.kind) →
    (c.rows.Pairwise fun a b => a.2 < b.2) → ∃ exchanges, c.walk 0 = .ok exchanges ∧
      (exchanges.flatMap fun e => e.rows.map Prod.snd) = c.rows.map Prod.fst := by
  intro hall
  obtain ⟨exchanges, hwalk, -⟩ := hall longDevice (by simp [longDevice, longRow, longValues])
    (by simp [longDevice])
  have hpush : ((Page.new .device).push longRow 1).1 = .error (.cbor .destinationTooSmall) := by
    rw [Page.push_same rfl]
    decide +kernel
  have hpage : longDevice.page 0 = .error (.cbor .destinationTooSmall) := Pages.fillPage_error hpush
  have hexchange : longDevice.exchange 0 = .error (.cbor .destinationTooSmall) := by
    rw [exchange, hpage]
    rfl
  rw [walk, serve, hexchange] at hwalk
  cases hwalk

end Catalogue

end Km43.Inventory
