import Km43.Link.Bodies

namespace Km43.Link

open Library Cbor CborReader CborWriter

theorem capped_may {key : LinkField} {text : Str} (h : bounded key text.raw = .ok ()) : (capped key).may text := by
  refine ⟨?_, boundedText_ok.mpr ⟨h, rfl⟩⟩
  change text.raw.length ≤ maxString
  unfold bounded at h
  split_ifs at h with hlong
  unfold maxLinkText at hlong
  unfold maxString
  omega

theorem capped_bounded {key : LinkField} {text : Str} (h : (capped key).may text) : bounded key text.raw = .ok () :=
  (boundedText_ok.mp h.2).1

theorem required_ok {α : Type} {slot : Option α} {key : LinkField} {a : α} :
    required slot key = .ok a ↔ slot = some a := slotRequired_ok

theorem every (α : Type) [Numbered α] (why : UInt8 → LinkError) (a : α) : (Codec.closed why : Codec LinkError α).may a :=
  Codec.closed_may why a

theorem writeAll_text {calls : List Call} {text : Str} {w w' : CborWriter} (h : writeAll calls w = .ok ((), w'))
    (hmem : Call.text text ∈ calls) : text.raw.length ≤ maxString := by
  induction calls generalizing w with
  | nil => cases hmem
  | cons call calls ih =>
    obtain ⟨⟨⟩, w₁, hcall, hrest⟩ := bind_run_ok.mp h
    rcases List.mem_cons.mp hmem with rfl | hmem
    · exact (text_counted hcall).2
    · exact ih hrest hmem

theorem linkBody_text {κ : Type} [BodyKey κ] {header : LinkHeader} {keys : UInt64} {entries : List (κ × List Call)}
    {dst : ℕ} {out : Bytes} {text : Str} (h : encodeBody (linkBody header keys entries : Encoder LinkError Unit) dst = .ok out)
    (hmem : Call.text text ∈ entryCalls entries) : text.raw.length ≤ maxString := by
  obtain ⟨w, w', len, hw, -⟩ := (encodeBody_ok (linkBody_tells header keys entries)).mp h
  exact writeAll_text hw (List.mem_append_right _ hmem)

namespace Heartbeat

def slots (v : Heartbeat) : ∀ k, Option (Value k)
  | .uptime => some v.uptimeS
  | .conns => some v.conns

theorem ofSlots_ok (s : table.Slots) (v : Heartbeat) : ofSlots s = .ok v ↔ s = v.slots ∧ True := by
  constructor
  · intro h
    obtain ⟨uptimeS, huptime, h⟩ := bind_ok.mp h
    obtain ⟨conns, hconns, h⟩ := bind_ok.mp h
    cases h
    refine ⟨?_, trivial⟩
    funext k
    cases k with
    | uptime => exact required_ok.mp huptime
    | conns => exact required_ok.mp hconns
  · rintro ⟨rfl, -⟩
    rfl

theorem maySend (v : Heartbeat) : MaySend codec v.slots := by
  intro k a _
  cases k with
  | uptime => trivial
  | conns => trivial

theorem laws : LinkLaws (fun _ => True) (fun _ => True) (fun _ => True) Eq write decode table.Known [1, 2] := by
  apply codecLaws (fun _ => rfl) (fun v header dst out => (and_iff_right trivial).symm) (fun _ => rfl)
    (fun v _ => v.maySend) ofSlots_ok (fun _ _ => trivial) (fun _ _ _ _ => trivial) [.uptime, .conns]
  intro v k _
  cases k with
  | uptime => rfl
  | conns => rfl

end Heartbeat

namespace ClientUp

def slots (v : ClientUp) : ∀ k, Option (Value k)
  | .conn => some v.conn
  | .transport => some v.transport
  | .peer => some v.peer

theorem ofSlots_ok (s : table.Slots) (v : ClientUp) : ofSlots s = .ok v ↔ s = v.slots ∧ v.conn ≠ 0 := by
  constructor
  · intro h
    obtain ⟨conn, hconn, h⟩ := bind_ok.mp h
    split_ifs at h with hzero
    obtain ⟨transport, htransport, h⟩ := bind_ok.mp h
    obtain ⟨peer, hpeer, h⟩ := bind_ok.mp h
    cases h
    refine ⟨?_, hzero⟩
    funext k
    cases k with
    | conn => exact required_ok.mp hconn
    | transport => exact required_ok.mp htransport
    | peer => exact required_ok.mp hpeer
  · rintro ⟨rfl, hzero⟩
    exact bind_ok.mpr ⟨v.conn, rfl, if_neg hzero⟩

theorem checks_ok {v : ClientUp} : v.checks = .ok () ↔ v.conn ≠ 0 := by
  unfold checks
  split_ifs with hzero
  · simp [hzero]
  · simp [hzero]

theorem maySend {v : ClientUp} (h : v.peer.raw.length ≤ maxString) : MaySend codec v.slots := by
  intro k a ha
  cases k with
  | conn => trivial
  | transport => exact every LinkTransport _ a
  | peer =>
    obtain rfl := Option.some.inj ha
    exact h

theorem write_ok (v : ClientUp) (header : LinkHeader) (dst : ℕ) (out : Bytes) : v.write header dst = .ok out ↔
    (v.conn ≠ 0 ∧ v.peer.raw.length ≤ maxString) ∧
      encodeBody (linkBody header 3 v.entries : Encoder LinkError Unit) dst = .ok out := by
  unfold write
  rw [seq_ok, checks_ok]
  constructor
  · rintro ⟨hzero, hout⟩
    exact ⟨⟨hzero, linkBody_text hout (by simp [entries, entryCalls])⟩, hout⟩
  · rintro ⟨⟨hzero, -⟩, hout⟩
    exact ⟨hzero, hout⟩

theorem laws : LinkLaws (fun _ => True) (fun v => v.conn ≠ 0 ∧ v.peer.raw.length ≤ maxString) (fun _ => True) Eq
    write decode table.Known [1, 2, 3] := by
  apply codecLaws (fun _ => rfl) write_ok (fun _ => rfl) (fun v h => maySend h.2) ofSlots_ok (fun _ h => h.1) ?_
    [.conn, .transport, .peer]
  · intro v k _
    cases k with
    | conn => rfl
    | transport => rfl
    | peer => rfl
  · intro v hzero _ hmay
    exact ⟨hzero, hmay .peer v.peer rfl⟩

end ClientUp

namespace ClientDown

def slots (v : ClientDown) : ∀ k, Option (Value k)
  | .conn => some v.conn
  | .reason => some v.reason

theorem ofSlots_ok (s : table.Slots) (v : ClientDown) : ofSlots s = .ok v ↔ s = v.slots ∧ v.conn ≠ 0 := by
  constructor
  · intro h
    obtain ⟨conn, hconn, h⟩ := bind_ok.mp h
    split_ifs at h with hzero
    obtain ⟨reason, hreason, h⟩ := bind_ok.mp h
    cases h
    refine ⟨?_, hzero⟩
    funext k
    cases k with
    | conn => exact required_ok.mp hconn
    | reason => exact required_ok.mp hreason
  · rintro ⟨rfl, hzero⟩
    exact bind_ok.mpr ⟨v.conn, rfl, if_neg hzero⟩

theorem checks_ok {v : ClientDown} : v.checks = .ok () ↔ v.conn ≠ 0 := by
  unfold checks
  split_ifs with hzero
  · simp [hzero]
  · simp [hzero]

theorem maySend (v : ClientDown) : MaySend codec v.slots := by
  intro k a _
  cases k with
  | conn => trivial
  | reason => exact every DisconnectReason _ a

theorem write_ok (v : ClientDown) (header : LinkHeader) (dst : ℕ) (out : Bytes) : v.write header dst = .ok out ↔
    v.conn ≠ 0 ∧ encodeBody (linkBody header 2 v.entries : Encoder LinkError Unit) dst = .ok out := by
  unfold write
  rw [seq_ok, checks_ok]

theorem laws : LinkLaws (fun _ => True) (fun v => v.conn ≠ 0) (fun _ => True) Eq write decode table.Known [1, 2] := by
  apply codecLaws (fun _ => rfl) write_ok (fun _ => rfl) (fun v _ => v.maySend) ofSlots_ok (fun _ h => h)
    (fun _ h _ _ => h) [.conn, .reason]
  intro v k _
  cases k with
  | conn => rfl
  | reason => rfl

end ClientDown

namespace CloseConnections

def slots (v : CloseConnections) : ∀ k, Option (Value k)
  | .conn => some v.conn
  | .reason => some v.reason

theorem ofSlots_ok (s : table.Slots) (v : CloseConnections) : ofSlots s = .ok v ↔ s = v.slots ∧ True := by
  constructor
  · intro h
    obtain ⟨conn, hconn, h⟩ := bind_ok.mp h
    obtain ⟨reason, hreason, h⟩ := bind_ok.mp h
    cases h
    refine ⟨?_, trivial⟩
    funext k
    cases k with
    | conn => exact required_ok.mp hconn
    | reason => exact required_ok.mp hreason
  · rintro ⟨rfl, -⟩
    rfl

theorem maySend (v : CloseConnections) : MaySend codec v.slots := by
  intro k a _
  cases k with
  | conn => trivial
  | reason => exact every CloseReason _ a

theorem laws : LinkLaws (fun _ => True) (fun _ => True) (fun _ => True) Eq write decode table.Known [1, 2] := by
  apply codecLaws (fun _ => rfl) (fun v header dst out => (and_iff_right trivial).symm) (fun _ => rfl)
    (fun v _ => v.maySend) ofSlots_ok (fun _ _ => trivial) (fun _ _ _ _ => trivial) [.conn, .reason]
  intro v k _
  cases k with
  | conn => rfl
  | reason => rfl

end CloseConnections

namespace CloseReport

def slots (v : CloseReport) : ∀ k, Option (Value k)
  | .outcome => some v.outcome
  | .closed => some v.closed

theorem ofSlots_ok (s : table.Slots) (v : CloseReport) : ofSlots s = .ok v ↔ s = v.slots ∧ True := by
  constructor
  · intro h
    obtain ⟨outcome, houtcome, h⟩ := bind_ok.mp h
    obtain ⟨closed, hclosed, h⟩ := bind_ok.mp h
    cases h
    refine ⟨?_, trivial⟩
    funext k
    cases k with
    | outcome => exact required_ok.mp houtcome
    | closed => exact required_ok.mp hclosed
  · rintro ⟨rfl, -⟩
    rfl

theorem maySend (v : CloseReport) : MaySend codec v.slots := by
  intro k a _
  cases k with
  | outcome => exact every CloseConnection _ a
  | closed => trivial

theorem laws : LinkLaws (fun _ => True) (fun _ => True) (fun _ => True) Eq write decode table.Known [1, 2] := by
  apply codecLaws (fun _ => rfl) (fun v header dst out => (and_iff_right trivial).symm) (fun _ => rfl)
    (fun v _ => v.maySend) ofSlots_ok (fun _ _ => trivial) (fun _ _ _ _ => trivial) [.outcome, .closed]
  intro v k _
  cases k with
  | outcome => rfl
  | closed => rfl

end CloseReport

namespace ClockOffer

def slots (v : ClockOffer) : ∀ k, Option (Value k)
  | .unixMs => some v.unixMs
  | .source => some v.source
  | .accuracyMs => some v.accuracyMs
  | .server => some v.server

theorem ofSlots_ok (s : table.Slots) (v : ClockOffer) : ofSlots s = .ok v ↔ s = v.slots ∧ v.source = ntp := by
  constructor
  · intro h
    obtain ⟨unixMs, hunix, h⟩ := bind_ok.mp h
    obtain ⟨source, hsource, h⟩ := bind_ok.mp h
    split_ifs at h with hntp
    obtain ⟨accuracyMs, haccuracy, h⟩ := bind_ok.mp h
    obtain ⟨server, hserver, h⟩ := bind_ok.mp h
    cases h
    refine ⟨?_, not_not.mp hntp⟩
    funext k
    cases k with
    | unixMs => exact required_ok.mp hunix
    | source => exact required_ok.mp hsource
    | accuracyMs => exact required_ok.mp haccuracy
    | server => exact required_ok.mp hserver
  · rintro ⟨rfl, hntp⟩
    exact bind_ok.mpr ⟨v.unixMs, rfl, bind_ok.mpr ⟨v.source, rfl, if_neg (not_not.mpr hntp)⟩⟩

theorem checks_ok {v : ClockOffer} : v.checks = .ok () ↔ v.source = ntp ∧ bounded .server v.server.raw = .ok () := by
  unfold checks
  split_ifs with hntp
  · simp [hntp]
  · simp [not_not.mp hntp]

theorem maySend {v : ClockOffer} (h : bounded .server v.server.raw = .ok ()) : MaySend codec v.slots := by
  intro k a ha
  cases k with
  | unixMs => trivial
  | source => trivial
  | accuracyMs => trivial
  | server =>
    obtain rfl := Option.some.inj ha
    exact capped_may h

theorem write_ok (v : ClockOffer) (header : LinkHeader) (dst : ℕ) (out : Bytes) : v.write header dst = .ok out ↔
    (v.source = ntp ∧ bounded .server v.server.raw = .ok ()) ∧
      encodeBody (linkBody header 4 v.entries : Encoder LinkError Unit) dst = .ok out := by
  unfold write
  rw [seq_ok, checks_ok]

theorem laws : LinkLaws (fun _ => True) (fun v => v.source = ntp ∧ bounded .server v.server.raw = .ok ()) (fun _ => True)
    Eq write decode table.Known [1, 2, 3, 4] := by
  apply codecLaws (fun _ => rfl) write_ok (fun _ => rfl) (fun v h => maySend h.2) ofSlots_ok (fun _ h => h.1) ?_
    [.unixMs, .source, .accuracyMs, .server]
  · intro v k _
    cases k with
    | unixMs => rfl
    | source => rfl
    | accuracyMs => rfl
    | server => rfl
  · intro v hntp _ hmay
    exact ⟨hntp, capped_bounded (hmay .server v.server rfl)⟩

end ClockOffer

namespace NetVerdict

def slots (v : NetVerdict) : ∀ k, Option (Value k)
  | .outcome => some v.outcome
  | .version => some v.version

theorem ofSlots_ok (s : table.Slots) (v : NetVerdict) : ofSlots s = .ok v ↔ s = v.slots ∧ True := by
  constructor
  · intro h
    obtain ⟨outcome, houtcome, h⟩ := bind_ok.mp h
    obtain ⟨version, hversion, h⟩ := bind_ok.mp h
    cases h
    refine ⟨?_, trivial⟩
    funext k
    cases k with
    | outcome => exact required_ok.mp houtcome
    | version => exact required_ok.mp hversion
  · rintro ⟨rfl, -⟩
    rfl

theorem maySend (v : NetVerdict) : MaySend codec v.slots := by
  intro k a _
  cases k with
  | outcome => exact every NetConfig _ a
  | version => trivial

theorem laws : LinkLaws (fun _ => True) (fun _ => True) (fun _ => True) Eq write decode table.Known [1, 2] := by
  apply codecLaws (fun _ => rfl) (fun v header dst out => (and_iff_right trivial).symm) (fun _ => rfl)
    (fun v _ => v.maySend) ofSlots_ok (fun _ _ => trivial) (fun _ _ _ _ => trivial) [.outcome, .version]
  intro v k _
  cases k with
  | outcome => rfl
  | version => rfl

end NetVerdict

theorem versioned_ok {key : LinkField} {text : Bytes} : versioned key text = .ok () ↔ Firmware.conforms text = true := by
  unfold versioned
  split_ifs with h
  · simp [h]
  · simp [h]

def Releasable (text : Str) : Prop :=
  bounded .releaseVersion text.raw = .ok () ∧ Firmware.conforms text.raw = true

namespace ReleaseRequest

def slots (v : ReleaseRequest) : ∀ k, Option (Value k)
  | .op => some v.op
  | .version => some v.version
  | .imageLen => some v.imageLen
  | .digest => some v.digest

theorem ofSlots_ok (s : table.Slots) (v : ReleaseRequest) : ofSlots s = .ok v ↔ s = v.slots ∧ True := by
  constructor
  · intro h
    obtain ⟨op, hop, h⟩ := bind_ok.mp h
    obtain ⟨version, hversion, h⟩ := bind_ok.mp h
    obtain ⟨imageLen, himage, h⟩ := bind_ok.mp h
    obtain ⟨digest, hdigest, h⟩ := bind_ok.mp h
    cases h
    refine ⟨?_, trivial⟩
    funext k
    cases k with
    | op => exact required_ok.mp hop
    | version => exact required_ok.mp hversion
    | imageLen => exact required_ok.mp himage
    | digest => exact required_ok.mp hdigest
  · rintro ⟨rfl, -⟩
    rfl

theorem maySend {v : ReleaseRequest} (h : bounded .releaseVersion v.version.raw = .ok ()) : MaySend codec v.slots := by
  intro k a ha
  cases k with
  | op => exact every CommsReleaseOp _ a
  | version =>
    obtain rfl := Option.some.inj ha
    exact capped_may h
  | imageLen => trivial
  | digest => exact Codec.fixed_may (by norm_num) _ (a : ReleaseDigest)

theorem write_ok (v : ReleaseRequest) (header : LinkHeader) (dst : ℕ) (out : Bytes) : v.write header dst = .ok out ↔
    Releasable v.version ∧ encodeBody (linkBody header 4 v.entries : Encoder LinkError Unit) dst = .ok out := by
  unfold write checks
  rw [seq_ok, seq_ok, versioned_ok]
  rfl

theorem laws : LinkLaws (fun _ => True) (fun v => Releasable v.version) (fun v => Firmware.conforms v.version.raw) Eq
    write decode table.Known [1, 2, 3, 4] := by
  apply codecLaws (fun _ => rfl) write_ok (fun _ => rfl) (fun v h => maySend h.1) ofSlots_ok (fun _ _ => trivial) ?_
    [.op, .version, .imageLen, .digest]
  · intro v k _
    cases k with
    | op => rfl
    | version => rfl
    | imageLen => rfl
    | digest => rfl
  · intro v _ hconforms hmay
    exact ⟨capped_bounded (hmay .version v.version rfl), hconforms⟩

end ReleaseRequest

namespace ReleaseVerdict

def slots (v : ReleaseVerdict) : ∀ k, Option (Value k)
  | .outcome => some v.outcome
  | .version => some v.version
  | .bytesHave => some v.bytesHave

theorem ofSlots_ok (s : table.Slots) (v : ReleaseVerdict) : ofSlots s = .ok v ↔ s = v.slots ∧ True := by
  constructor
  · intro h
    obtain ⟨outcome, houtcome, h⟩ := bind_ok.mp h
    obtain ⟨version, hversion, h⟩ := bind_ok.mp h
    obtain ⟨bytesHave, hhave, h⟩ := bind_ok.mp h
    cases h
    refine ⟨?_, trivial⟩
    funext k
    cases k with
    | outcome => exact required_ok.mp houtcome
    | version => exact required_ok.mp hversion
    | bytesHave => exact required_ok.mp hhave
  · rintro ⟨rfl, -⟩
    rfl

theorem maySend {v : ReleaseVerdict} (h : bounded .releaseVersion v.version.raw = .ok ()) : MaySend codec v.slots := by
  intro k a ha
  cases k with
  | outcome => exact every CommsRelease _ a
  | version =>
    obtain rfl := Option.some.inj ha
    exact capped_may h
  | bytesHave => trivial

theorem write_ok (v : ReleaseVerdict) (header : LinkHeader) (dst : ℕ) (out : Bytes) : v.write header dst = .ok out ↔
    Releasable v.version ∧ encodeBody (linkBody header 3 v.entries : Encoder LinkError Unit) dst = .ok out := by
  unfold write checks
  rw [seq_ok, seq_ok, versioned_ok]
  rfl

theorem laws : LinkLaws (fun _ => True) (fun v => Releasable v.version) (fun v => Firmware.conforms v.version.raw) Eq
    write decode table.Known [1, 2, 3] := by
  apply codecLaws (fun _ => rfl) write_ok (fun _ => rfl) (fun v h => maySend h.1) ofSlots_ok (fun _ _ => trivial) ?_
    [.outcome, .version, .bytesHave]
  · intro v k _
    cases k with
    | outcome => rfl
    | version => rfl
    | bytesHave => rfl
  · intro v _ hconforms hmay
    exact ⟨capped_bounded (hmay .version v.version rfl), hconforms⟩

end ReleaseVerdict

namespace OneBody

variable {α β : Type} {body : OneBody α}

def slots (body : OneBody α) (value : α) : body.table.Slots := fun _ => some value

theorem ofSlots_ok (s : body.table.Slots) (value : α) : body.ofSlots s = .ok value ↔ s = body.slots value ∧ True := by
  constructor
  · intro h
    refine ⟨?_, trivial⟩
    funext k
    cases k with
    | only => exact slotRequired_ok.mp h
  · rintro ⟨rfl, -⟩
    rfl

theorem maySend {value : α} (h : body.codec.may value) : MaySend (fun _ : OneKey => body.codec) (body.slots value) := by
  intro k a ha
  obtain rfl := Option.some.inj ha
  exact h

theorem laws (hmay : ∀ value, body.codec.may value) :
    LinkLaws (fun _ => True) (fun _ => True) (fun _ => True) Eq body.write body.decode body.table.Known [1] := by
  apply codecLaws (fun _ => rfl) (fun v header dst out => (and_iff_right trivial).symm) (fun _ => rfl)
    (fun v _ => maySend (hmay v)) ofSlots_ok (fun _ _ => trivial) (fun _ _ _ _ => trivial) [.only]
  intro v k _
  cases k with
  | only => rfl

end OneBody

section

variable {α β : Type} {made valid conforms : α → Prop} {write : α → LinkHeader → ℕ → Except LinkError Bytes}
  {decode : LinkEnvelope → Except LinkError α} {decode' : LinkEnvelope → Except LinkError β} {known : ℤ → Prop}
  {required : List ℤ} {inner : β → α}

theorem receives_under (hdecode : ∀ e v, decode' e = .ok v ↔ decode e = .ok (inner v)) {bytes : Bytes} {head : FrameHead}
    {v : β} : Receives decode' bytes head v ↔ Receives decode bytes head (inner v) := by
  unfold Receives
  simp only [hdecode]

theorem LinkLaws.under (laws : LinkLaws made valid conforms Eq write decode known required)
    (hdecode : ∀ e v, decode' e = .ok v ↔ decode e = .ok (inner v)) :
    LinkLaws (fun v => made (inner v)) (fun v => valid (inner v)) (fun v => conforms (inner v)) Eq
      (fun v => write (inner v)) decode' known required := by
  constructor
  · intro v header dst out hmade h
    exact laws.sends _ _ _ _ hmade h
  · intro v header hv
    exact laws.fits _ _ hv
  · intro v header dst out hmade h
    obtain ⟨-, rfl, hreceives⟩ := laws.trip _ _ _ _ hmade h
    exact ⟨v, rfl, (receives_under hdecode).mpr hreceives⟩
  · intro bytes head v h hconforms
    exact laws.accepts _ _ _ ((receives_under hdecode).mp h) hconforms
  · intro f g extra hpairs hextra hf hg hopcode hsession hreq head v
    rw [receives_under hdecode, receives_under hdecode]
    exact laws.order f g extra hpairs hextra hf hg hopcode hsession hreq head (inner v)
  · intro f hf hrepeated head v h
    exact laws.once f hf hrepeated head _ ((receives_under hdecode).mp h)
  · intro f hf k hk hmissing head v h
    exact laws.needs f hf k hk hmissing head _ ((receives_under hdecode).mp h)

theorem held_ok {wrap : α → β} (hinner : ∀ v, wrap (inner v) = v) (hwrap : ∀ a, inner (wrap a) = a) {x : Except LinkError α}
    {v : β} : (do let a ← x; .ok (wrap a) : Except LinkError β) = .ok v ↔ x = .ok (inner v) := by
  rw [bind_ok]
  constructor
  · rintro ⟨a, rfl, h⟩
    rw [← Except.ok.inj h, hwrap]
  · intro h
    exact ⟨_, h, congrArg _ (hinner v)⟩

end

theorem outcomeOnly_laws (α : Type) [Numbered α] : LinkLaws (fun _ => True) (fun _ => True) (fun _ => True) Eq (outcomeOnly α).write
    (outcomeOnly α).decode (outcomeOnly α).table.Known [1] := OneBody.laws (every α _)

theorem TimeVerdict.laws : LinkLaws (fun _ => True) (fun _ => True) (fun _ => True) Eq write decode
    (outcomeOnly TimeOffer).table.Known [1] := by
  apply (outcomeOnly_laws TimeOffer).under
  intro e v
  exact held_ok (fun _ => rfl) (fun _ => rfl)

theorem DownloadRequest.laws : LinkLaws (fun _ => True) (fun _ => True) (fun _ => True) Eq write decode body.table.Known [1] := by
  apply (OneBody.laws fun reason => every DownloadReason _ reason).under
  intro e v
  exact held_ok (fun _ => rfl) (fun _ => rfl)

theorem DownloadVerdict.laws : LinkLaws (fun _ => True) (fun _ => True) (fun _ => True) Eq write decode
    (outcomeOnly EnterDownload).table.Known [1] := by
  apply (outcomeOnly_laws EnterDownload).under
  intro e v
  exact held_ok (fun _ => rfl) (fun _ => rfl)

theorem ClientUpAck.laws : LinkLaws (fun _ => True) (fun _ => True) (fun _ => True) Eq write decode
    (outcomeOnly ClientConnected).table.Known [1] := by
  apply (outcomeOnly_laws ClientConnected).under
  intro e v
  exact held_ok (fun _ => rfl) (fun _ => rfl)

theorem ClientDownAck.laws : LinkLaws (fun _ => True) (fun _ => True) (fun _ => True) Eq write decode
    (outcomeOnly ClientDisconnected).table.Known [1] := by
  apply (outcomeOnly_laws ClientDisconnected).under
  intro e v
  exact held_ok (fun _ => rfl) (fun _ => rfl)

end Km43.Link
