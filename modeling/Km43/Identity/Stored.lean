import Km43.Handshake.Report
import Km43.Identity.Crypto

namespace Km43.Identity

open Library Handshake

def format : UInt8 := 2
def deviceIdBytes : ℕ := 16
def keyBytes : ℕ := 32

/-- Format, device, controller key, client private key, suite, epoch, client id and generation. -/
def storedBytes : ℕ := 1 + deviceIdBytes + keyBytes + keyBytes + 1 + 4 + 4 + 4

def Suite.ofByte (v : UInt8) : Option Suite := if v = 1 then some x25519ChachapolySha256 else none

structure Enrolment where
  deviceId : DeviceId
  controller : PublicKey
  key : StaticKey
  suite : Suite
  epoch : Epoch
  slot : Option (ClientId × Generation)

structure StoredEnrolment where
  deviceId : DeviceId
  controller : PublicKey
  secret : Key32
  suite : Suite
  epoch : Epoch
  slot : Option (ClientId × Generation)

inductive StoredEnrolmentError
  | wrongLength (len : ℕ)
  | unknownFormat (format : UInt8)
  | unknownSuite (suite : UInt8)
  | zeroEpoch
  | halfASlot
  | otherController
  deriving DecidableEq

namespace Enrolment

def new (deviceId : DeviceId) (controller : PublicKey) (key : StaticKey) (suite : Suite) (epoch : Epoch) : Enrolment :=
  ⟨deviceId, controller, key, suite, epoch, none⟩

def withSlot (e : Enrolment) (clientId : ClientId) (generation : Generation) : Enrolment :=
  { e with slot := some (clientId, generation) }

def stored (e : Enrolment) : StoredEnrolment := ⟨e.deviceId, e.controller, e.key.secret, e.suite, e.epoch, e.slot⟩

end Enrolment

def firstChunk (n : ℕ) (wrong : StoredEnrolmentError) (bytes : Bytes) :
    Except StoredEnrolmentError (Vector UInt8 n × Bytes) :=
  if n ≤ bytes.length then .ok (fill n (bytes.take n), bytes.drop n) else .error wrong

def firstByte (wrong : StoredEnrolmentError) : Bytes → Except StoredEnrolmentError (UInt8 × Bytes)
  | [] => .error wrong
  | b :: rest => .ok (b, rest)

def u32FromBe (bytes : Vector UInt8 4) : UInt32 := UInt32.ofNat (BigEndian.value bytes.toList)

namespace StoredEnrolment

def slotNumbers (s : StoredEnrolment) : UInt32 × UInt32 :=
  match s.slot with
  | some (id, generation) => (id.get, generation.get)
  | none => (0, 0)

def fields (s : StoredEnrolment) : Bytes :=
  [format] ++ s.deviceId.toList ++ s.controller.toList ++ s.secret.toList ++ [s.suite.byte] ++ u32Bytes s.epoch.get ++
    u32Bytes s.slotNumbers.1 ++ u32Bytes s.slotNumbers.2

def encode (s : StoredEnrolment) (dst : Vector UInt8 storedBytes) : Bytes :=
  List.zipWith (fun _ byte => byte) dst.toList s.fields ++ dst.toList.drop s.fields.length

def slotOf (clientId generation : UInt32) : Except StoredEnrolmentError (Option (ClientId × Generation)) :=
  match NonZeroU32.new clientId, NonZeroU32.new generation with
  | some id, some generation => .ok (some (id, generation))
  | none, none => .ok none
  | some _, none => .error .halfASlot
  | none, some _ => .error .halfASlot

def suiteOf (v : UInt8) : Except StoredEnrolmentError Suite :=
  match Suite.ofByte v with
  | some suite => .ok suite
  | none => .error (.unknownSuite v)

def epochOf (raw : UInt32) : Except StoredEnrolmentError Epoch :=
  match NonZeroU32.new raw with
  | some epoch => .ok epoch
  | none => .error .zeroEpoch

def formatHolds (v : UInt8) : Except StoredEnrolmentError Unit :=
  if v ≠ format then .error (.unknownFormat v) else .ok ()

def decode (bytes : Bytes) : Except StoredEnrolmentError StoredEnrolment :=
  let wrong := StoredEnrolmentError.wrongLength bytes.length
  if bytes.length ≠ storedBytes then .error wrong
  else do
    let (layout, rest) ← firstByte wrong bytes
    formatHolds layout
    let (deviceId, rest) ← firstChunk deviceIdBytes wrong rest
    let (controller, rest) ← firstChunk keyBytes wrong rest
    let (secret, rest) ← firstChunk keyBytes wrong rest
    let (suite, rest) ← firstByte wrong rest
    let (epoch, rest) ← firstChunk 4 wrong rest
    let (clientId, rest) ← firstChunk 4 wrong rest
    let (generation, _) ← firstChunk 4 wrong rest
    let slot ← slotOf (u32FromBe clientId) (u32FromBe generation)
    let suite ← suiteOf suite
    let epoch ← epochOf (u32FromBe epoch)
    .ok ⟨deviceId, controller, secret, suite, epoch, slot⟩

def restore (s : StoredEnrolment) (discovery : Discovery) : Except StoredEnrolmentError Enrolment :=
  if discovery.deviceId ≠ s.deviceId then .error .otherController
  else .ok ⟨s.deviceId, s.controller, ⟨s.secret⟩, s.suite, s.epoch, s.slot⟩

end StoredEnrolment

def field (bytes : Bytes) (start n : ℕ) : Bytes := (bytes.drop start).take n

def number (bytes : Bytes) (start : ℕ) : UInt32 := UInt32.ofNat (BigEndian.value (field bytes start 4))

namespace StoredEnrolment

structure Laid (bytes : Bytes) (s : StoredEnrolment) : Prop where
  length : bytes.length = storedBytes
  layout : bytes[0]? = some format
  deviceId : field bytes 1 16 = s.deviceId.toList
  controller : field bytes 17 32 = s.controller.toList
  secret : field bytes 49 32 = s.secret.toList
  suite : bytes[81]? = some s.suite.byte
  epoch : number bytes 82 = s.epoch.get
  clientId : number bytes 86 = s.slotNumbers.1
  generation : number bytes 90 = s.slotNumbers.2

/-- What a decoder accepts, whatever the ids and the keys in it are. -/
structure Acceptable (bytes : Bytes) : Prop where
  length : bytes.length = storedBytes
  layout : bytes[0]? = some format
  suite : ∃ suite : Suite, bytes[81]? = some suite.byte
  epoch : number bytes 82 ≠ 0
  slot : number bytes 86 = 0 ↔ number bytes 90 = 0

section

variable {bytes : Bytes} {wrong : StoredEnrolmentError} {start n : ℕ}

theorem field_length (h : start + n ≤ bytes.length) : (field bytes start n).length = n := by
  rw [field, List.length_take, List.length_drop]
  omega

theorem field_drop (bytes : Bytes) (start n : ℕ) : field bytes start n ++ bytes.drop (start + n) = bytes.drop start := by
  rw [field, ← List.drop_drop]
  apply List.take_append_drop

theorem firstChunk_drop (h : start + n ≤ bytes.length) :
    firstChunk n wrong (bytes.drop start) = .ok (fill n (field bytes start n), bytes.drop (start + n)) := by
  have hroom : n ≤ (bytes.drop start).length := by
    rw [List.length_drop]
    omega
  rw [firstChunk, if_pos hroom, List.drop_drop]
  rfl

theorem firstByte_drop {v : UInt8} (h : bytes[start]? = some v) :
    firstByte wrong (bytes.drop start) = .ok (v, bytes.drop (start + 1)) := by
  obtain ⟨hstart, hv⟩ := List.getElem?_eq_some_iff.mp h
  rw [List.drop_eq_getElem_cons hstart, firstByte, hv]

theorem u32FromBe_field (h : start + 4 ≤ bytes.length) :
    u32FromBe (fill 4 (field bytes start 4)) = number bytes start := by
  rw [u32FromBe, fill_toList (field_length h)]
  rfl

theorem u32Bytes_number (h : start + 4 ≤ bytes.length) : u32Bytes (number bytes start) = field bytes start 4 := by
  have hlt := BigEndian.value_lt (field bytes start 4)
  have hround := BigEndian.digits_value (field bytes start 4)
  rw [field_length h] at hlt hround
  rw [u32Bytes, number, UInt32.toNat_ofNat', Nat.mod_eq_of_lt (by omega), hround]

theorem number_u32Bytes {v : UInt32} (h : field bytes start 4 = u32Bytes v) : number bytes start = v := by
  apply UInt32.toNat_inj.mp
  rw [number, h, u32Bytes, BigEndian.value_digits, UInt32.toNat_ofNat']
  have hlt := v.toNat_lt
  omega

end

variable {bytes : Bytes} {s : StoredEnrolment}

theorem slotOf_ok {clientId generation : UInt32} :
    slotOf clientId generation = .ok s.slot ↔ clientId = s.slotNumbers.1 ∧ generation = s.slotNumbers.2 := by
  obtain ⟨_, _, _, _, _, slot⟩ := s
  cases slot with
  | none => by_cases hc : clientId = 0 <;> by_cases hg : generation = 0 <;> simp [slotOf, slotNumbers, NonZeroU32.new, hc, hg]
  | some slot =>
    obtain ⟨⟨id, hid⟩, ⟨g, hgen⟩⟩ := slot
    by_cases hc : clientId = 0
    · have hid' : id ≠ 0 := hid
      by_cases hg : generation = 0 <;> simp [slotOf, slotNumbers, NonZeroU32.new, hc, hg, hid'.symm]
    · have hgen' : g ≠ 0 := hgen
      by_cases hg : generation = 0 <;> simp [slotOf, slotNumbers, NonZeroU32.new, hc, hg, hgen'.symm]

theorem slotOf_paired {clientId generation : UInt32} :
    (∃ slot, slotOf clientId generation = .ok slot) ↔ (clientId = 0 ↔ generation = 0) := by
  by_cases hc : clientId = 0 <;> by_cases hg : generation = 0 <;> simp [slotOf, NonZeroU32.new, hc, hg]

theorem suiteOf_ok {v : UInt8} {suite : Suite} : suiteOf v = .ok suite ↔ v = suite.byte := by
  by_cases hv : v = 1
  · cases suite
    simp [suiteOf, Suite.ofByte, Suite.byte, hv]
  · cases suite
    simp [suiteOf, Suite.ofByte, Suite.byte, hv]

theorem epochOf_ok {raw : UInt32} {epoch : Epoch} : epochOf raw = .ok epoch ↔ raw = epoch.get := by
  constructor
  · intro h
    by_cases hraw : raw = 0
    · simp [epochOf, NonZeroU32.new, hraw] at h
    · simp only [epochOf, NonZeroU32.new, dif_pos hraw] at h
      cases h
      rfl
  · rintro rfl
    rw [epochOf, NonZeroU32.new_get]

theorem decode_fields {layout suite : UInt8} (h : bytes.length = storedBytes) (hlayout : bytes[0]? = some layout)
    (hsuite : bytes[81]? = some suite) : decode bytes = (do
    formatHolds layout
    let slot ← slotOf (number bytes 86) (number bytes 90)
    let suite ← suiteOf suite
    let epoch ← epochOf (number bytes 82)
    .ok ⟨fill 16 (field bytes 1 16), fill 32 (field bytes 17 32), fill 32 (field bytes 49 32), suite, epoch, slot⟩) := by
  have hlen : bytes.length = 94 := h
  have chunk : ∀ start n, start + n ≤ 94 → firstChunk n (.wrongLength bytes.length) (bytes.drop start) =
      .ok (fill n (field bytes start n), bytes.drop (start + n)) := by
    intro start n hroom
    exact firstChunk_drop (by omega)
  have hformat : firstByte (.wrongLength bytes.length) bytes = .ok (layout, bytes.drop 1) := firstByte_drop hlayout
  have hbyte : firstByte (.wrongLength bytes.length) (bytes.drop 81) = .ok (suite, bytes.drop 82) := firstByte_drop hsuite
  have number : ∀ start, start + 4 ≤ 94 → u32FromBe (fill 4 (field bytes start 4)) = number bytes start := by
    intro start hroom
    exact u32FromBe_field (by omega)
  rw [decode, if_neg (not_not_intro h)]
  simp only [hformat, hbyte, chunk 1 16 (by decide), chunk 17 32 (by decide), chunk 49 32 (by decide),
    chunk 82 4 (by decide), chunk 86 4 (by decide), chunk 90 4 (by decide), number 82 (by decide), number 86 (by decide),
    number 90 (by decide), deviceIdBytes, keyBytes, bind, Except.bind]

theorem formatHolds_ok {v : UInt8} : formatHolds v = .ok () ↔ v = format := by
  by_cases hv : v = format <;> simp [formatHolds, hv]

theorem fill_of_toList {n : ℕ} (v : Vector UInt8 n) : fill n v.toList = v := by
  apply Vector.toList_inj.mp
  exact fill_toList v.length_toList

theorem decode_laid : decode bytes = .ok s ↔ Laid bytes s := by
  by_cases hlen : bytes.length = storedBytes
  · have hroom : bytes.length = 94 := hlen
    obtain ⟨layout, hlayout⟩ : ∃ v, bytes[0]? = some v := ⟨_, List.getElem?_eq_getElem (by omega)⟩
    obtain ⟨suite, hsuite⟩ : ∃ v, bytes[81]? = some v := ⟨_, List.getElem?_eq_getElem (by omega)⟩
    rw [decode_fields hlen hlayout hsuite]
    constructor
    · intro h
      obtain ⟨⟨⟩, hformat, h⟩ := bind_ok.mp h
      obtain ⟨slot, hslot, h⟩ := bind_ok.mp h
      obtain ⟨value, hvalue, h⟩ := bind_ok.mp h
      obtain ⟨epoch, hepoch, h⟩ := bind_ok.mp h
      have hs := Except.ok.inj h
      have hnumbers : number bytes 86 = s.slotNumbers.1 ∧ number bytes 90 = s.slotNumbers.2 := by
        apply slotOf_ok.mp
        rw [hslot, ← hs]
      subst hs
      exact {
        length := hlen
        layout := by rw [hlayout, formatHolds_ok.mp hformat]
        deviceId := (fill_toList (field_length (by omega))).symm
        controller := (fill_toList (field_length (by omega))).symm
        secret := (fill_toList (field_length (by omega))).symm
        suite := by rw [hsuite, suiteOf_ok.mp hvalue]
        epoch := epochOf_ok.mp hepoch
        clientId := hnumbers.1
        generation := hnumbers.2 }
    · intro h
      have hformat : formatHolds layout = .ok () := formatHolds_ok.mpr (Option.some.inj (hlayout.symm.trans h.layout))
      have hvalue : suiteOf suite = .ok s.suite := suiteOf_ok.mpr (Option.some.inj (hsuite.symm.trans h.suite))
      rw [hformat, slotOf_ok.mpr ⟨h.clientId, h.generation⟩, hvalue, epochOf_ok.mpr h.epoch, h.deviceId, h.controller,
        h.secret]
      simp only [bind, Except.bind, fill_of_toList]
  · constructor
    · intro h
      rw [decode, if_pos hlen] at h
      cases h
    · intro h
      exact absurd h.length hlen

theorem laid_fields (h : Laid bytes s) : s.fields = bytes := by
  have hlen : bytes.length = 94 := h.length
  have hlayout := List.getElem?_eq_some_iff.mp h.layout
  have hsuite := List.getElem?_eq_some_iff.mp h.suite
  have number : ∀ {start}, start + 4 ≤ 94 → u32Bytes (number bytes start) = field bytes start 4 := by
    intro start hroom
    exact u32Bytes_number (by omega)
  have hend : bytes.drop 94 = [] := List.drop_of_length_le (by omega)
  have hlast : bytes.drop 81 = s.suite.byte :: bytes.drop 82 := by
    obtain ⟨hstart, hv⟩ := hsuite
    rw [List.drop_eq_getElem_cons hstart, hv]
  have hfirst : bytes = format :: bytes.drop 1 := by
    obtain ⟨hstart, hv⟩ := hlayout
    rw [← hv, ← List.drop_eq_getElem_cons hstart, List.drop_zero]
  calc s.fields
      = format :: (field bytes 1 16 ++ (field bytes 17 32 ++ (field bytes 49 32 ++ (s.suite.byte ::
          (field bytes 82 4 ++ (field bytes 86 4 ++ (field bytes 90 4 ++ bytes.drop 94))))))) := by
        rw [fields, ← h.clientId, ← h.generation, ← h.epoch, number (by decide), number (by decide), number (by decide),
          h.deviceId, h.controller, h.secret, hend]
        simp only [List.append_assoc, List.cons_append, List.nil_append, List.append_nil]
    _ = bytes := by
        rw [field_drop bytes 90 4, field_drop bytes 86 4, field_drop bytes 82 4, ← hlast, field_drop bytes 49 32,
          field_drop bytes 17 32, field_drop bytes 1 16, ← hfirst]

theorem fields_length (s : StoredEnrolment) : s.fields.length = storedBytes := by
  simp [fields, u32Bytes_length, storedBytes, deviceIdBytes, keyBytes]

theorem fields_laid (s : StoredEnrolment) : Laid s.fields s where
  length := s.fields_length
  layout := rfl
  deviceId := by simp [fields, field, List.drop_append]
  controller := by simp [fields, field]
  secret := by simp [fields, field, List.drop_append, List.drop_eq_nil_of_le]
  suite := by simp [fields, List.getElem?_append]
  epoch := by
    apply number_u32Bytes
    simp [fields, field, List.drop_append, List.drop_eq_nil_of_le, u32Bytes_length]
  clientId := by
    apply number_u32Bytes
    simp [fields, field, List.drop_append, List.drop_eq_nil_of_le, u32Bytes_length]
  generation := by
    apply number_u32Bytes
    simp [fields, field, List.drop_append, List.drop_eq_nil_of_le, u32Bytes_length]

theorem encode_fields (s : StoredEnrolment) (dst : Vector UInt8 storedBytes) : s.encode dst = s.fields := by
  have hlen : dst.toList.length = s.fields.length := by rw [Vector.length_toList, s.fields_length]
  rw [encode, List.drop_of_length_le hlen.le, List.append_nil]
  apply List.ext_getElem
  · rw [List.length_zipWith, hlen, min_self]
  · intro i _ _
    rw [List.getElem_zipWith]

theorem slotNumbers_paired (s : StoredEnrolment) : s.slotNumbers.1 = 0 ↔ s.slotNumbers.2 = 0 :=
  slotOf_paired.mp ⟨s.slot, slotOf_ok.mpr ⟨rfl, rfl⟩⟩

theorem laid_acceptable : (∃ s, Laid bytes s) ↔ Acceptable bytes := by
  constructor
  · rintro ⟨s, h⟩
    refine ⟨h.length, h.layout, ⟨s.suite, h.suite⟩, ?_, ?_⟩
    · rw [h.epoch]
      exact s.epoch.nonzero
    · rw [h.clientId, h.generation]
      exact s.slotNumbers_paired
  · intro h
    obtain ⟨suite, hsuite⟩ := h.suite
    obtain ⟨slot, hslot⟩ := slotOf_paired.mpr h.slot
    have hepoch : epochOf (number bytes 82) = .ok ⟨number bytes 82, h.epoch⟩ := epochOf_ok.mpr rfl
    have hread : decode bytes = .ok ⟨fill 16 (field bytes 1 16), fill 32 (field bytes 17 32),
        fill 32 (field bytes 49 32), suite, ⟨number bytes 82, h.epoch⟩, slot⟩ := by
      rw [decode_fields h.length h.layout hsuite, formatHolds_ok.mpr rfl, hslot, suiteOf_ok.mpr rfl, hepoch]
      rfl
    exact ⟨_, decode_laid.mp hread⟩

/-- What the decoder accepts, and that it and the encoder are inverse both ways up to `restore`. -/
theorem enrolment_kept :
    (∀ bytes, (∃ s, decode bytes = .ok s) ↔ Acceptable bytes) ∧
      (∀ bytes s, decode bytes = .ok s → Laid bytes s ∧ ∀ dst, s.encode dst = bytes) ∧
      (∀ (e : Enrolment) dst, decode (e.stored.encode dst) = .ok e.stored) ∧
      ∀ (e : Enrolment) (discovery : Discovery), e.stored.restore discovery =
        if discovery.deviceId = e.deviceId then .ok e else .error .otherController := by
  refine ⟨?_, ?_, ?_, ?_⟩
  · intro bytes
    rw [← laid_acceptable]
    exact exists_congr fun s => decode_laid
  · intro bytes s h
    have hlaid := decode_laid.mp h
    refine ⟨hlaid, fun dst => ?_⟩
    rw [encode_fields, laid_fields hlaid]
  · intro e dst
    rw [encode_fields]
    exact decode_laid.mpr e.stored.fields_laid
  · intro e discovery
    by_cases hsame : discovery.deviceId = e.deviceId
    · rw [if_pos hsame]
      exact if_neg (not_not_intro hsame)
    · rw [if_neg hsame]
      exact if_pos hsame

end StoredEnrolment

end Km43.Identity
