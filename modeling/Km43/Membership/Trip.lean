import Km43.Membership.Bodies

namespace Km43.Membership

open Library Identity Invite Cbor CborReader CborWriter

theorem unknown_ok {α : Type} {tryFrom : UInt8 → Option α} {why : UInt8 → MembershipError} {raw : UInt8} {value : α}
    (h : tryFrom raw = some value) : unknown tryFrom why raw = .ok value := by
  rw [unknown, h]

theorem fixed_ok {n : ℕ} (key : MembershipKey) (bytes : Vector UInt8 n) : fixed n key bytes.toList = .ok bytes := by
  have hlen : bytes.toList.length = n := bytes.length_toList
  rw [fixed, if_pos hlen]
  exact congrArg _ (Vector.toList_inj.mp (fill_toList hlen))

theorem nonZero_ok (key : MembershipKey) (n : NonZeroU32) : nonZero key n.get = .ok n := by
  rw [nonZero, NonZeroU32.new_get]

theorem role_byte (r : Role) : roleTryFrom r.byte = some r := by cases r <;> rfl

theorem ClientKind.tryFrom_byte (k : ClientKind) : tryFrom k.byte = some k := by cases k <;> rfl

theorem InviteOutcome.tryFrom_byte (o : InviteOutcome) : tryFrom o.byte = some o := by cases o <;> rfl

theorem InviteDecision.tryFrom_byte (d : InviteDecision) : tryFrom d.byte = some d := by cases d <;> rfl

theorem ApproveOutcome.tryFrom_byte (o : ApproveOutcome) : tryFrom o.byte = some o := by cases o <;> rfl

theorem RemoveOutcome.tryFrom_byte (o : RemoveOutcome) : tryFrom o.byte = some o := by cases o <;> rfl

theorem closed_item {α : Type} {tryFrom : UInt8 → Option α} (why : UInt8 → MembershipError) {byte : UInt8} {value : α}
    (h : tryFrom byte = some value) : checkedItem u8Of (unknown tryFrom why) (.ofNat byte.toNat) = some value :=
  checkedItem_ok (u8Of_ofNat byte) (unknown_ok h)

theorem fixed_item {n : ℕ} (key : MembershipKey) (bytes : Vector UInt8 n) :
    checkedItem Item.bytes? (fixed n key) (.ofBytes bytes.toList) = some bytes :=
  checkedItem_ok rfl (fixed_ok key bytes)

theorem nonZero_item (key : MembershipKey) (n : NonZeroU32) :
    checkedItem u32Of (nonZero key) (.ofNat n.get.toNat) = some n :=
  checkedItem_ok (u32Of_ofNat n.get) (nonZero_ok key n)

section

variable {d : ℕ}

theorem byte_legal (b : UInt8) : (Item.ofNat b.toNat).Legal d := Item.ofNat_legal (by have := b.toNat_lt; omega)

theorem number_legal (n : UInt32) : (Item.ofNat n.toNat).Legal d := Item.ofNat_legal (by have := n.toNat_lt; omega)

theorem fixed_legal {n : ℕ} (bytes : Vector UInt8 n) (hn : n < 2 ^ 64) : (Item.ofBytes bytes.toList).Legal d := by
  apply Item.ofBytes_legal
  rwa [bytes.length_toList]

end

theorem labelFits_ok {label : Str} : labelFits label = .ok () ↔ 0 < label.raw.length ∧ label.raw.length ≤ maxLabel := by
  unfold labelFits
  split_ifs <;> simp <;> omega

namespace InviteOperation

def item : ∀ k, Item → Option (table.Value k)
  | .role => checkedItem u8Of (unknown roleTryFrom .unknownRole)
  | .invitee => checkedItem Item.bytes? (fixed 32 (.invite .invitee))
  | .commitment => checkedItem Item.bytes? (fixed 32 (.invite .commitment))
  | .clientKind => checkedItem u8Of (unknown ClientKind.tryFrom .unknownClientKind)
  | .label => checkedItem Item.str? fittingLabel

theorem reads (k : InviteKey) : Reads (fun _ => True) 7 (table.read k) (item k) := by
  cases k with
  | role => exact checkedRead_reads (.u8 fun _ => trivial) _
  | invitee => exact checkedRead_reads (.bytesValue fun _ => trivial) _
  | commitment => exact checkedRead_reads (.bytesValue fun _ => trivial) _
  | clientKind => exact checkedRead_reads (.u8 fun _ => trivial) _
  | label => exact checkedRead_reads (textValue_reads fun _ => trivial) _

def items (op : InviteOperation) : List (InviteKey × Item) :=
  [(.role, .ofNat op.role.byte.toNat), (.invitee, .ofBytes op.invitee.toList),
    (.commitment, .ofBytes op.commitment.toList), (.clientKind, .ofNat op.clientKind.byte.toNat),
    (.label, .ofText op.label)]

def slots (op : InviteOperation) : table.Slots
  | .role => some op.role
  | .invitee => some op.invitee
  | .commitment => some op.commitment
  | .clientKind => some op.clientKind
  | .label => some op.label

theorem items_rising (op : InviteOperation) : Rising op.items := by
  simp [Rising, items, BodyKey.number, InviteKey.number]

theorem text_short {label : Str} (h : labelFits label = .ok ()) : label.raw.length ≤ maxString := by
  obtain ⟨-, hshort⟩ := labelFits_ok.mp h
  unfold maxLabel at hshort
  unfold maxString
  omega

theorem encode_ok (op : InviteOperation) (dst : ℕ) (out : Bytes) : op.encode dst = .ok out ↔
    labelFits op.label = .ok () ∧ out = (bodyItem op.items).spelling ∧ (bodyItem op.items).spelling.length ≤ dst := by
  rw [encode, seq_ok]
  refine and_congr_right fun hlabel => ?_
  have hspelled : Spelled 7 op.entries op.items :=
    .cons ⟨rfl, writes_one rfl⟩ <| .cons ⟨rfl, writes_one rfl⟩ <| .cons ⟨rfl, writes_one rfl⟩ <|
      .cons ⟨rfl, writes_one rfl⟩ <| .cons ⟨rfl, writes_one ⟨rfl, text_short hlabel⟩⟩ .nil
  exact encode_entries hspelled op.items_rising rfl

theorem carries (op : InviteOperation) (h : labelFits op.label = .ok ()) :
    table.Carries 7 item ofSlots op.items op := by
  constructor
  · exact op.items_rising
  · simp only [items, List.forall_mem_cons]
    exact ⟨byte_legal _, fixed_legal _ (by decide), fixed_legal _ (by decide), byte_legal _,
      Item.ofText_legal (text_short h), by simp⟩
  · refine ⟨op.slots, ?_, ?_, rfl⟩
    · have hlabel : fittingLabel op.label = .ok op.label := by rw [fittingLabel, h]; rfl
      simp only [items, List.forall_mem_cons]
      exact ⟨⟨closed_item _ (role_byte _), rfl⟩, ⟨fixed_item _ _, rfl⟩, ⟨fixed_item _ _, rfl⟩,
        ⟨closed_item _ (ClientKind.tryFrom_byte _), rfl⟩, ⟨checkedItem_ok (str_ofText _) hlabel, rfl⟩, by simp⟩
    · intro k hk
      cases k <;> simp [items] at hk

theorem laws : BodyLaws (fun op => labelFits op.label = .ok ()) encode decode table.Known :=
  Table.laws (Table.decodes reads) encode_ok carries

end InviteOperation

namespace InviteAck

def item : ∀ k, Item → Option (table.Value k)
  | .outcome => checkedItem u8Of (unknown InviteOutcome.tryFrom .unknownOutcome)
  | .nonce => checkedItem Item.bytes? (fixed 16 (.inviteAck .nonce))

theorem reads (k : InviteAckKey) : Reads (fun _ => True) 7 (table.read k) (item k) := by
  cases k with
  | outcome => exact checkedRead_reads (.u8 fun _ => trivial) _
  | nonce => exact checkedRead_reads (.bytesValue fun _ => trivial) _

def items (ack : InviteAck) : List (InviteAckKey × Item) :=
  (.outcome, .ofNat ack.outcome.byte.toNat) ::
    (ack.nonce.map fun nonce => (.nonce, .ofBytes nonce.toList)).toList

def slots (ack : InviteAck) : table.Slots
  | .outcome => some ack.outcome
  | .nonce => ack.nonce

theorem items_rising (ack : InviteAck) : Rising ack.items := by
  obtain ⟨outcome, _ | nonce, -⟩ := ack <;> simp [Rising, items, BodyKey.number, InviteAckKey.number]

theorem encode_ok (ack : InviteAck) (dst : ℕ) (out : Bytes) : ack.encode dst = .ok out ↔
    True ∧ out = (bodyItem ack.items).spelling ∧ (bodyItem ack.items).spelling.length ≤ dst := by
  have hspelled : Spelled 7 ack.entries ack.items := by
    refine .cons ⟨rfl, writes_one rfl⟩ ?_
    cases ack.nonce with
    | none => exact .nil
    | some nonce => exact .cons ⟨rfl, writes_one rfl⟩ .nil
  rw [true_and]
  refine encode_entries hspelled ack.items_rising ?_
  obtain ⟨outcome, _ | nonce, -⟩ := ack <;> rfl

theorem ofSlots_slots (ack : InviteAck) : ofSlots ack.slots = .ok ack := by
  obtain ⟨outcome, nonce, h⟩ := ack
  cases nonce with
  | none => cases outcome <;> first | rfl | cases h
  | some nonce => cases outcome <;> first | rfl | cases h

theorem carries (ack : InviteAck) : table.Carries 7 item ofSlots ack.items ack := by
  obtain ⟨outcome, nonce, h⟩ := ack
  refine ⟨items_rising _, ?_, slots _, ?_, ?_, ofSlots_slots _⟩
  · cases nonce <;> simp [items, byte_legal, fixed_legal]
  · cases nonce with
    | none =>
      simp only [items, List.forall_mem_cons]
      exact ⟨⟨closed_item _ (InviteOutcome.tryFrom_byte _), rfl⟩, by simp⟩
    | some nonce =>
      simp only [items, Option.map_some, Option.toList_some, List.forall_mem_cons]
      exact ⟨⟨closed_item _ (InviteOutcome.tryFrom_byte _), rfl⟩, ⟨fixed_item _ _, rfl⟩, by simp⟩
  · intro k hk
    cases nonce <;> cases k <;> simp [items] at hk
    rfl

theorem laws : BodyLaws (fun _ => True) encode decode table.Known :=
  Table.laws (Table.decodes reads) encode_ok fun ack _ => ack.carries

end InviteAck

namespace ApproveOperation

def item : ∀ k, Item → Option (table.Value k)
  | .nonce => checkedItem Item.bytes? (fixed 16 (.approve .nonce))
  | .decision => checkedItem u8Of (unknown InviteDecision.tryFrom .unknownDecision)
  | .reveal => checkedItem Item.bytes? (fixed 16 (.approve .reveal))
  | .proof => checkedItem Item.bytes? (fixed 16 (.approve .proof))

theorem reads (k : ApproveKey) : Reads (fun _ => True) 7 (table.read k) (item k) := by
  cases k with
  | nonce => exact checkedRead_reads (.bytesValue fun _ => trivial) _
  | decision => exact checkedRead_reads (.u8 fun _ => trivial) _
  | reveal => exact checkedRead_reads (.bytesValue fun _ => trivial) _
  | proof => exact checkedRead_reads (.bytesValue fun _ => trivial) _

def items (op : ApproveOperation) : List (ApproveKey × Item) :=
  match op.decision with
  | .approve reveal proof =>
    [(.nonce, .ofBytes op.nonce.toList), (.decision, .ofNat InviteDecision.approve.byte.toNat),
      (.reveal, .ofBytes reveal.toList), (.proof, .ofBytes proof.toList)]
  | .decline => [(.nonce, .ofBytes op.nonce.toList), (.decision, .ofNat InviteDecision.decline.byte.toNat)]

def slots (op : ApproveOperation) : table.Slots
  | .nonce => some op.nonce
  | .decision => some (match op.decision with | .approve .. => .approve | .decline => .decline)
  | .reveal => match op.decision with | .approve reveal _ => some reveal | .decline => none
  | .proof => match op.decision with | .approve _ proof => some proof | .decline => none

theorem items_rising (op : ApproveOperation) : Rising op.items := by
  obtain ⟨nonce, _ | _⟩ := op <;> simp [Rising, items, BodyKey.number, ApproveKey.number]

theorem encode_ok (op : ApproveOperation) (dst : ℕ) (out : Bytes) : op.encode dst = .ok out ↔
    True ∧ out = (bodyItem op.items).spelling ∧ (bodyItem op.items).spelling.length ≤ dst := by
  have hspelled : Spelled 7 op.entries op.items := by
    obtain ⟨nonce, decision⟩ := op
    cases decision with
    | approve reveal proof =>
      exact .cons ⟨rfl, writes_one rfl⟩ <| .cons ⟨rfl, writes_one rfl⟩ <| .cons ⟨rfl, writes_one rfl⟩ <|
        .cons ⟨rfl, writes_one rfl⟩ .nil
    | decline => exact .cons ⟨rfl, writes_one rfl⟩ <| .cons ⟨rfl, writes_one rfl⟩ .nil
  rw [true_and]
  refine encode_entries hspelled op.items_rising ?_
  obtain ⟨nonce, _ | _⟩ := op <;> rfl

theorem carries (op : ApproveOperation) : table.Carries 7 item ofSlots op.items op := by
  obtain ⟨nonce, decision⟩ := op
  refine ⟨items_rising _, ?_, slots ⟨nonce, decision⟩, ?_, ?_, ?_⟩
  · cases decision <;> simp [items, byte_legal, fixed_legal]
  · cases decision with
    | approve reveal proof =>
      simp only [items, List.forall_mem_cons]
      exact ⟨⟨fixed_item _ _, rfl⟩, ⟨closed_item _ (InviteDecision.tryFrom_byte .approve), rfl⟩,
        ⟨fixed_item _ _, rfl⟩, ⟨fixed_item _ _, rfl⟩, by simp⟩
    | decline =>
      simp only [items, List.forall_mem_cons]
      exact ⟨⟨fixed_item _ _, rfl⟩, ⟨closed_item _ (InviteDecision.tryFrom_byte .decline), rfl⟩, by simp⟩
  · intro k hk
    cases decision <;> cases k <;> simp [items] at hk
    · rfl
    · rfl
  · cases decision <;> rfl

theorem laws : BodyLaws (fun _ => True) encode decode table.Known :=
  Table.laws (Table.decodes reads) encode_ok fun op _ => op.carries

end ApproveOperation

namespace ApproveAck

def item : ∀ k, Item → Option (table.Value k)
  | .outcome => checkedItem u8Of (unknown ApproveOutcome.tryFrom .unknownOutcome)
  | .clientId => checkedItem u32Of (nonZero (.approveAck .clientId))
  | .generation => checkedItem u32Of (nonZero (.approveAck .generation))
  | .confirm => checkedItem Item.bytes? (fixed 16 (.approveAck .confirm))

theorem reads (k : ApproveAckKey) : Reads (fun _ => True) 7 (table.read k) (item k) := by
  cases k with
  | outcome => exact checkedRead_reads (.u8 fun _ => trivial) _
  | clientId => exact checkedRead_reads (.u32 fun _ => trivial) _
  | generation => exact checkedRead_reads (.u32 fun _ => trivial) _
  | confirm => exact checkedRead_reads (.bytesValue fun _ => trivial) _

def items (ack : ApproveAck) : List (ApproveAckKey × Item) :=
  (.outcome, .ofNat ack.outcome.byte.toNat) :: match ack.enrolled with
    | some enrolled =>
      [(.clientId, .ofNat enrolled.clientId.get.toNat), (.generation, .ofNat enrolled.generation.get.toNat),
        (.confirm, .ofBytes enrolled.confirm.toList)]
    | none => []

def slots (ack : ApproveAck) : table.Slots
  | .outcome => some ack.outcome
  | .clientId => ack.enrolled.map Enrolled.clientId
  | .generation => ack.enrolled.map Enrolled.generation
  | .confirm => ack.enrolled.map Enrolled.confirm

theorem items_rising (ack : ApproveAck) : Rising ack.items := by
  obtain ⟨outcome, _ | enrolled, -⟩ := ack <;> simp [Rising, items, BodyKey.number, ApproveAckKey.number]

theorem encode_ok (ack : ApproveAck) (dst : ℕ) (out : Bytes) : ack.encode dst = .ok out ↔
    True ∧ out = (bodyItem ack.items).spelling ∧ (bodyItem ack.items).spelling.length ≤ dst := by
  have hspelled : Spelled 7 ack.entries ack.items := by
    refine .cons ⟨rfl, writes_one rfl⟩ ?_
    cases ack.enrolled with
    | none => exact .nil
    | some enrolled =>
      exact .cons ⟨rfl, writes_one (UInt32.toNat_toUInt64 _ ▸ rfl)⟩ <|
        .cons ⟨rfl, writes_one (UInt32.toNat_toUInt64 _ ▸ rfl)⟩ <| .cons ⟨rfl, writes_one rfl⟩ .nil
  rw [true_and]
  refine encode_entries hspelled ack.items_rising ?_
  obtain ⟨outcome, _ | enrolled, -⟩ := ack <;> rfl

theorem ofSlots_slots (ack : ApproveAck) : ofSlots ack.slots = .ok ack := by
  obtain ⟨outcome, enrolled, h⟩ := ack
  cases enrolled with
  | none => cases outcome <;> first | rfl | cases h
  | some enrolled => cases outcome <;> first | rfl | cases h

theorem carries (ack : ApproveAck) : table.Carries 7 item ofSlots ack.items ack := by
  obtain ⟨outcome, enrolled, h⟩ := ack
  refine ⟨items_rising _, ?_, slots _, ?_, ?_, ofSlots_slots _⟩
  · cases enrolled <;> simp [items, byte_legal, number_legal, fixed_legal]
  · cases enrolled with
    | none =>
      simp only [items, List.forall_mem_cons]
      exact ⟨⟨closed_item _ (ApproveOutcome.tryFrom_byte _), rfl⟩, by simp⟩
    | some enrolled =>
      simp only [items, List.forall_mem_cons]
      exact ⟨⟨closed_item _ (ApproveOutcome.tryFrom_byte _), rfl⟩, ⟨nonZero_item _ _, rfl⟩,
        ⟨nonZero_item _ _, rfl⟩, ⟨fixed_item _ _, rfl⟩, by simp⟩
  · intro k hk
    cases enrolled <;> cases k <;> simp [items] at hk <;> rfl

theorem laws : BodyLaws (fun _ => True) encode decode table.Known :=
  Table.laws (Table.decodes reads) encode_ok fun ack _ => ack.carries

end ApproveAck

namespace RemoveOperation

def item (k : RemoveKey) : Item → Option (table.Value k) := checkedItem u32Of (nonZero (.remove k))

theorem reads (k : RemoveKey) : Reads (fun _ => True) 7 (table.read k) (item k) :=
  checkedRead_reads (.u32 fun _ => trivial) _

def items (op : RemoveOperation) : List (RemoveKey × Item) :=
  [(.clientId, .ofNat op.clientId.get.toNat), (.generation, .ofNat op.generation.get.toNat)]

def slots (op : RemoveOperation) : table.Slots
  | .clientId => some op.clientId
  | .generation => some op.generation

theorem items_rising (op : RemoveOperation) : Rising op.items := by
  simp [Rising, items, BodyKey.number, RemoveKey.number]

theorem encode_ok (op : RemoveOperation) (dst : ℕ) (out : Bytes) : op.encode dst = .ok out ↔
    True ∧ out = (bodyItem op.items).spelling ∧ (bodyItem op.items).spelling.length ≤ dst := by
  have hspelled : Spelled 7 op.entries op.items :=
    .cons ⟨rfl, writes_one (UInt32.toNat_toUInt64 _ ▸ rfl)⟩ <|
      .cons ⟨rfl, writes_one (UInt32.toNat_toUInt64 _ ▸ rfl)⟩ .nil
  rw [true_and]
  exact encode_entries hspelled op.items_rising rfl

theorem carries (op : RemoveOperation) : table.Carries 7 item ofSlots op.items op := by
  refine ⟨op.items_rising, ?_, op.slots, ?_, ?_, rfl⟩
  · simp [items, number_legal]
  · simp only [items, List.forall_mem_cons]
    exact ⟨⟨nonZero_item _ _, rfl⟩, ⟨nonZero_item _ _, rfl⟩, by simp⟩
  · intro k hk
    cases k <;> simp [items] at hk

theorem laws : BodyLaws (fun _ => True) encode decode table.Known :=
  Table.laws (Table.decodes reads) encode_ok fun op _ => op.carries

end RemoveOperation

namespace RemoveAck

def item (k : RemoveAckKey) : Item → Option (table.Value k) :=
  checkedItem u8Of (unknown RemoveOutcome.tryFrom .unknownOutcome)

theorem reads (k : RemoveAckKey) : Reads (fun _ => True) 7 (table.read k) (item k) :=
  checkedRead_reads (.u8 fun _ => trivial) _

def items (ack : RemoveAck) : List (RemoveAckKey × Item) := [(.outcome, .ofNat ack.outcome.byte.toNat)]

def slots (ack : RemoveAck) : table.Slots := fun _ => some ack.outcome

theorem items_rising (ack : RemoveAck) : Rising ack.items := by
  simp [Rising, items]

theorem encode_ok (ack : RemoveAck) (dst : ℕ) (out : Bytes) : ack.encode dst = .ok out ↔
    True ∧ out = (bodyItem ack.items).spelling ∧ (bodyItem ack.items).spelling.length ≤ dst := by
  have hspelled : Spelled 7 ack.entries ack.items := .cons ⟨rfl, writes_one rfl⟩ .nil
  rw [true_and]
  exact encode_entries hspelled ack.items_rising rfl

theorem carries (ack : RemoveAck) : table.Carries 7 item ofSlots ack.items ack := by
  refine ⟨ack.items_rising, ?_, ack.slots, ?_, ?_, rfl⟩
  · simp [items, byte_legal]
  · simp only [items, List.forall_mem_cons]
    exact ⟨⟨closed_item _ (RemoveOutcome.tryFrom_byte _), rfl⟩, by simp⟩
  · intro k hk
    cases k
    simp [items] at hk

theorem laws : BodyLaws (fun _ => True) encode decode table.Known :=
  Table.laws (Table.decodes reads) encode_ok fun ack _ => ack.carries

end RemoveAck

/-- What the client and the controller owe each other on every body of a membership change. -/
theorem bodies_agree :
    BodyLaws (fun op => labelFits op.label = .ok ()) InviteOperation.encode InviteOperation.decode
        InviteOperation.table.Known ∧
      BodyLaws (fun _ => True) InviteAck.encode InviteAck.decode InviteAck.table.Known ∧
      BodyLaws (fun _ => True) ApproveOperation.encode ApproveOperation.decode ApproveOperation.table.Known ∧
      BodyLaws (fun _ => True) ApproveAck.encode ApproveAck.decode ApproveAck.table.Known ∧
      BodyLaws (fun _ => True) RemoveOperation.encode RemoveOperation.decode RemoveOperation.table.Known ∧
      BodyLaws (fun _ => True) RemoveAck.encode RemoveAck.decode RemoveAck.table.Known :=
  ⟨InviteOperation.laws, InviteAck.laws, ApproveOperation.laws, ApproveAck.laws, RemoveOperation.laws, RemoveAck.laws⟩

end Km43.Membership
