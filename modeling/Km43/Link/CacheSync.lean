import Km43.Library.Machine
import Km43.Link.LinkUpTrip
import Km43.Link.LinkUp

namespace Km43.Link

open Library Cbor CborReader Sealed Identity

namespace NetStamp

theorem parts_inj {a b : NetStamp} (hversion : a.netVersion = b.netVersion) (horigin : a.netOrigin = b.netOrigin) :
    a = b := by
  cases a with
  | unwritten =>
    cases b with
    | unwritten => rfl
    | written version origin => cases horigin
  | written version origin =>
    cases b with
    | unwritten => cases horigin
    | written version' origin' =>
      rw [NonZeroU32.ext hversion, Option.some.inj horigin]

theorem settle_ok {flash held : NetStamp} {change : NetChange} {write : NvsWrite} {verdict : NetVerdict} :
    settle flash change write = .ok (held, verdict) ↔ ∃ offered, of change = .ok offered ∧
      held = (if write = .durable then offered else flash) ∧
      verdict = ⟨if write = .durable then .stored else .nvsWriteFailed, held.netVersion⟩ := by
  unfold settle
  rw [bind_ok]
  constructor
  · rintro ⟨offered, hoffered, h⟩
    refine ⟨offered, hoffered, ?_⟩
    cases write <;> cases h <;> exact ⟨rfl, rfl⟩
  · rintro ⟨offered, hoffered, rfl, rfl⟩
    refine ⟨offered, hoffered, ?_⟩
    cases write <;> rfl

theorem comms_origin {up : LinkUp} (hsides : up.sidesAgree = .ok ()) (hrole : up.role = .comms)
    (hversion : up.netVersion = some 0) : up.netOrigin = none := by
  rw [LinkUp.sidesAgree, hrole] at hsides
  simp only [hversion, or_true, and_true] at hsides
  split_ifs at hsides with hdevice horigin
  exact Option.not_isSome_iff_eq_none.mp horigin

theorem needsPush_iff {master : NetStamp} {up : LinkUp} (hsides : up.sidesAgree = .ok ()) (hrole : up.role = .comms) :
    master.needsPush up = false ↔ up.netVersion = some master.netVersion ∧ up.netOrigin = master.netOrigin := by
  cases master with
  | unwritten =>
    simp only [needsPush, netVersion, netOrigin, decide_eq_false_iff_not, not_not]
    constructor
    · intro hversion
      exact ⟨hversion, comms_origin hsides hrole hversion⟩
    · rintro ⟨hversion, -⟩
      exact hversion
  | written version origin =>
    simp only [needsPush, netVersion, netOrigin, Bool.or_eq_false_iff, decide_eq_false_iff_not, not_not]

end NetStamp

structure Master where
  change : NetChange
  stamp : NetStamp
  stamped : NetStamp.of change = .ok stamp

structure Board where
  version : Version
  fw : Str
  bootId : UInt32
  hw : Str

def Board.linkUp (board : Board) (held : NetStamp) : LinkUp where
  version := board.version
  role := .comms
  fw := board.fw
  bootId := board.bootId
  hw := board.hw
  netVersion := some held.netVersion
  deviceId := none
  netOrigin := held.netOrigin

structure Report where
  held : NetStamp
  bytes : Bytes

def Report.up (report : Report) : Option LinkUp :=
  match LinkEnvelope.decode report.bytes with
  | .error _ => none
  | .ok envelope => (LinkUp.decode envelope).toOption

structure NetLink where
  master : Master
  flash : NetStamp
  ram : NetStamp
  pushes : List Master
  reports : List Report

inductive NetEvent
  | edit (master : Master)
  | send (board : Board) (header : LinkHeader) (dst : UInt64)
  | hear (n : ℕ)
  | push
  | store (n : ℕ) (write : NvsWrite)
  | loseReport (n : ℕ)
  | losePush (n : ℕ)
  | reboot
  | swap (flash : NetStamp)

inductive NetAnswer
  | silent
  | heard (held master : NetStamp) (pushed : Bool)
  | unread
  | settled (before offered after : NetStamp) (write : NvsWrite) (verdict : NetVerdict)
  | refused (why : LinkError)

namespace NetLink

def hear (s : NetLink) (n : ℕ) (report : Report) : NetLink × NetAnswer :=
  match report.up with
  | none => ({ s with reports := s.reports.eraseIdx n }, .unread)
  | some up =>
    let push := s.master.stamp.needsPush up
    ({ s with reports := s.reports.eraseIdx n, pushes := if push then s.pushes ++ [s.master] else s.pushes },
      .heard report.held s.master.stamp push)

-- RAM runs on what was offered whatever became of the write
def store (s : NetLink) (n : ℕ) (write : NvsWrite) (pushed : Master) : NetLink × NetAnswer :=
  match s.flash.settle pushed.change write with
  | .error why => ({ s with pushes := s.pushes.eraseIdx n }, .refused why)
  | .ok (held, verdict) =>
    ({ s with flash := held, ram := pushed.stamp, pushes := s.pushes.eraseIdx n },
      .settled s.flash pushed.stamp held write verdict)

def step : Machine NetLink NetEvent NetAnswer := fun s event =>
  match event with
  | .edit master => ({ s with master := master }, .silent)
  | .send board header dst =>
    match (board.linkUp s.flash).write header dst.toNat with
    | .error _ => (s, .silent)
    | .ok bytes => ({ s with reports := s.reports ++ [⟨s.flash, bytes⟩] }, .silent)
  | .hear n =>
    match s.reports[n]? with
    | none => (s, .silent)
    | some report => s.hear n report
  | .push => ({ s with pushes := s.pushes ++ [s.master] }, .silent)
  | .store n write =>
    match s.pushes[n]? with
    | none => (s, .silent)
    | some pushed => s.store n write pushed
  | .loseReport n => ({ s with reports := s.reports.eraseIdx n }, .silent)
  | .losePush n => ({ s with pushes := s.pushes.eraseIdx n }, .silent)
  | .reboot => ({ s with ram := s.flash }, .silent)
  | .swap flash => ({ s with flash := flash, ram := flash }, .silent)

end NetLink

def NetEvent.stamp : NetEvent → Option NetStamp
  | edit master => some master.stamp
  | swap flash => some flash
  | send .. | hear _ | push | store .. | loseReport _ | losePush _ | reboot => none

/-- What an answer tells, of stamps that all were a board's own or the master's. -/
def NetAnswer.Sound (history : List NetStamp) : NetAnswer → Prop
  | silent => True
  | heard held master pushed => held ∈ history ∧ master ∈ history ∧ (pushed = true ↔ held ≠ master)
  | unread | refused _ => False
  | settled before offered after write verdict => before ∈ history ∧ offered ∈ history ∧
      (write = .durable → after = offered ∧ verdict.outcome = .stored) ∧
      (write = .failed → after = before ∧ verdict.outcome = .nvsWriteFailed) ∧ verdict.version = after.netVersion

theorem Board.linkUp_up {board : Board} {held : NetStamp} {header : LinkHeader} {dst : UInt64} {bytes : Bytes}
    (h : (board.linkUp held).write header dst.toNat = .ok bytes) :
    (Report.mk held bytes).up = some (board.linkUp held) := by
  obtain ⟨envelope, henvelope, -, hdecode⟩ := LinkUp.decode_write h
  simp only [Report.up, henvelope, hdecode, Except.toOption]

theorem Board.needsPush {board : Board} {held master : NetStamp} (hsides : (board.linkUp held).sidesAgree = .ok ()) :
    master.needsPush (board.linkUp held) = decide (held ≠ master) := by
  have hiff := @NetStamp.needsPush_iff master (board.linkUp held) hsides rfl
  by_cases hsame : held = master
  · subst hsame
    rw [decide_eq_false (not_not.mpr rfl)]
    exact hiff.mpr ⟨rfl, rfl⟩
  · rw [decide_eq_true hsame]
    apply Bool.of_not_eq_false
    intro hfalse
    obtain ⟨hversion, horigin⟩ := hiff.mp hfalse
    exact hsame (NetStamp.parts_inj (Option.some.inj hversion) horigin)

theorem Board.sides (board : Board) (held : NetStamp) : (board.linkUp held).sidesAgree = .ok () := by
  cases held with
  | unwritten => rfl
  | written version origin => simp [LinkUp.sidesAgree, linkUp, NetStamp.netVersion, version.nonzero]

namespace NetLink

variable {s : NetLink}

/-- Every report under way reads as some board's, of the stamp it was built from. -/
def Readable (s : NetLink) : Prop := ∀ r ∈ s.reports, ∃ board : Board, r.up = some (board.linkUp r.held)

theorem hear_eq (n : ℕ) {report : Report} {board : Board} (h : report.up = some (board.linkUp report.held)) :
    s.hear n report = ({ s with
      reports := s.reports.eraseIdx n
      pushes := if report.held = s.master.stamp then s.pushes else s.pushes ++ [s.master] },
      .heard report.held s.master.stamp (decide (report.held ≠ s.master.stamp))) := by
  simp only [hear, h, Board.needsPush (board.sides report.held)]
  by_cases hsame : report.held = s.master.stamp
  · simp [hsame]
  · simp [hsame]

theorem store_eq (n : ℕ) (write : NvsWrite) (pushed : Master) :
    s.store n write pushed = ({ s with
      flash := if write = .durable then pushed.stamp else s.flash
      ram := pushed.stamp
      pushes := s.pushes.eraseIdx n },
      .settled s.flash pushed.stamp (if write = .durable then pushed.stamp else s.flash) write
        ⟨if write = .durable then .stored else .nvsWriteFailed,
          (if write = .durable then pushed.stamp else s.flash).netVersion⟩) := by
  have hsettle : s.flash.settle pushed.change write = .ok (if write = .durable then pushed.stamp else s.flash, _) :=
    NetStamp.settle_ok.mpr ⟨pushed.stamp, pushed.stamped, rfl, rfl⟩
  simp only [store, hsettle]

structure Within (s : NetLink) (history : List NetStamp) : Prop where
  flash : s.flash ∈ history
  master : s.master.stamp ∈ history
  pushes : ∀ p ∈ s.pushes, p.stamp ∈ history
  reports : ∀ r ∈ s.reports, r.held ∈ history
  readable : s.Readable

theorem Within.mono {history more : List NetStamp} (h : s.Within history) : s.Within (history ++ more) where
  flash := List.mem_append_left _ h.flash
  master := List.mem_append_left _ h.master
  pushes p hp := List.mem_append_left _ (h.pushes p hp)
  reports r hr := List.mem_append_left _ (h.reports r hr)
  readable := h.readable

end NetLink

theorem NetAnswer.Sound.mono {answer : NetAnswer} {history more : List NetStamp} (h : answer.Sound history) :
    answer.Sound (history ++ more) := by
  cases answer with
  | silent => trivial
  | heard held master pushed => exact ⟨List.mem_append_left _ h.1, List.mem_append_left _ h.2.1, h.2.2⟩
  | unread | refused => exact h.elim
  | settled before offered after write verdict =>
    exact ⟨List.mem_append_left _ h.1, List.mem_append_left _ h.2.1, h.2.2⟩

namespace NetLink

variable {s : NetLink} {history : List NetStamp}

theorem Within.hear (h : s.Within history) (n : ℕ) {report : Report} (hreport : report ∈ s.reports) :
    (s.hear n report).1.Within history ∧ (s.hear n report).2.Sound history := by
  obtain ⟨board, hup⟩ := h.readable report hreport
  rw [hear_eq n hup]
  refine ⟨⟨h.flash, h.master, ?_, ?_, ?_⟩, h.reports report hreport, h.master, decide_eq_true_iff⟩
  · intro p hp
    by_cases hsame : report.held = s.master.stamp
    · simp only [hsame, if_true] at hp
      exact h.pushes p hp
    · simp only [hsame, if_false, List.mem_append, List.mem_singleton] at hp
      rcases hp with hp | rfl
      · exact h.pushes p hp
      · exact h.master
  · intro r hr
    exact h.reports r (List.mem_of_mem_eraseIdx hr)
  · intro r hr
    exact h.readable r (List.mem_of_mem_eraseIdx hr)

theorem Within.store (h : s.Within history) (n : ℕ) (write : NvsWrite) {pushed : Master} (hpushed : pushed ∈ s.pushes) :
    (s.store n write pushed).1.Within history ∧ (s.store n write pushed).2.Sound history := by
  have hoffered := h.pushes pushed hpushed
  rw [store_eq]
  refine ⟨⟨?_, h.master, ?_, h.reports, h.readable⟩, h.flash, hoffered, ?_, ?_, rfl⟩
  · by_cases hwrite : write = .durable
    · simp only [hwrite, if_true]
      exact hoffered
    · simp only [hwrite, if_false]
      exact h.flash
  · intro p hp
    exact h.pushes p (List.mem_of_mem_eraseIdx hp)
  · rintro rfl
    exact ⟨rfl, rfl⟩
  · rintro rfl
    exact ⟨rfl, rfl⟩

theorem Within.step (h : s.Within history) (event : NetEvent) :
    (step s event).1.Within (history ++ event.stamp.toList) ∧ (step s event).2.Sound (history ++ event.stamp.toList) := by
  have hnothing : history ++ (none : Option NetStamp).toList = history := List.append_nil history
  have hsilent : ∀ history, NetAnswer.silent.Sound history := fun _ => trivial
  cases event with
  | edit master =>
    refine ⟨⟨List.mem_append_left _ h.flash, ?_, h.mono.pushes, h.mono.reports, h.readable⟩, hsilent _⟩
    exact List.mem_append_right _ (List.mem_singleton_self _)
  | swap flash =>
    refine ⟨⟨?_, List.mem_append_left _ h.master, h.mono.pushes, h.mono.reports, h.readable⟩, hsilent _⟩
    exact List.mem_append_right _ (List.mem_singleton_self _)
  | reboot =>
    rw [show (NetEvent.reboot.stamp) = none from rfl, hnothing]
    exact ⟨⟨h.flash, h.master, h.pushes, h.reports, h.readable⟩, hsilent _⟩
  | loseReport n =>
    rw [show ((NetEvent.loseReport n).stamp) = none from rfl, hnothing]
    exact ⟨⟨h.flash, h.master, h.pushes, fun r hr => h.reports r (List.mem_of_mem_eraseIdx hr),
      fun r hr => h.readable r (List.mem_of_mem_eraseIdx hr)⟩, hsilent _⟩
  | losePush n =>
    rw [show ((NetEvent.losePush n).stamp) = none from rfl, hnothing]
    exact ⟨⟨h.flash, h.master, fun p hp => h.pushes p (List.mem_of_mem_eraseIdx hp), h.reports, h.readable⟩, hsilent _⟩
  | send board header dst =>
    rw [show ((NetEvent.send board header dst).stamp) = none from rfl, hnothing]
    cases hwrite : (board.linkUp s.flash).write header dst.toNat with
    | error why =>
      simp only [NetLink.step, hwrite]
      exact ⟨h, hsilent _⟩
    | ok bytes =>
      simp only [NetLink.step, hwrite]
      refine ⟨⟨h.flash, h.master, h.pushes, ?_, ?_⟩, hsilent _⟩
      · intro r hr
        rcases List.mem_append.mp hr with hr | hr
        · exact h.reports r hr
        · rw [List.mem_singleton.mp hr]
          exact h.flash
      · intro r hr
        rcases List.mem_append.mp hr with hr | hr
        · exact h.readable r hr
        · rw [List.mem_singleton.mp hr]
          exact ⟨board, Board.linkUp_up hwrite⟩
  | push =>
    rw [show (NetEvent.push.stamp) = none from rfl, hnothing]
    refine ⟨⟨h.flash, h.master, ?_, h.reports, h.readable⟩, hsilent _⟩
    intro p hp
    rcases List.mem_append.mp hp with hp | hp
    · exact h.pushes p hp
    · rw [List.mem_singleton.mp hp]
      exact h.master
  | hear n =>
    rw [show ((NetEvent.hear n).stamp) = none from rfl, hnothing]
    cases hreport : s.reports[n]? with
    | none =>
      simp only [NetLink.step, hreport]
      exact ⟨h, hsilent _⟩
    | some report =>
      simp only [NetLink.step, hreport]
      exact h.hear n (List.mem_of_getElem? hreport)
  | store n write =>
    rw [show ((NetEvent.store n write).stamp) = none from rfl, hnothing]
    cases hpushed : s.pushes[n]? with
    | none =>
      simp only [NetLink.step, hpushed]
      exact ⟨h, hsilent _⟩
    | some pushed =>
      simp only [NetLink.step, hpushed]
      exact h.store n write (List.mem_of_getElem? hpushed)

theorem Within.run (h : s.Within history) (events : List NetEvent) :
    (NetLink.step.final s events).Within (history ++ events.filterMap NetEvent.stamp) ∧
      ∀ answer ∈ NetLink.step.outputs s events, answer.Sound (history ++ events.filterMap NetEvent.stamp) := by
  have hrun := Machine.final_history (m := NetLink.step)
    (fun t before answers => t.Within (history ++ before.filterMap NetEvent.stamp) ∧
      ∀ answer ∈ answers, answer.Sound (history ++ before.filterMap NetEvent.stamp)) (by
      intro t before answers event ⟨hwithin, hsound⟩
      have hstep := hwithin.step event
      rw [filterMap_snoc, ← List.append_assoc]
      refine ⟨hstep.1, ?_⟩
      intro answer hanswer
      rcases List.mem_append.mp hanswer with hold | hnew
      · exact (hsound answer hold).mono
      · rw [List.mem_singleton.mp hnew]
        exact hstep.2) [] [] (show s.Within (history ++ []) ∧ _ by simp [h]) events
  simpa only [List.nil_append] using hrun

theorem fresh_report {board : Board} {header : LinkHeader} {dst : UInt64} {bytes : Bytes}
    (h : (board.linkUp s.flash).write header dst.toNat = .ok bytes) :
    step (step s (.send board header dst)).1 (.hear s.reports.length) =
      ({ s with pushes := if s.flash = s.master.stamp then s.pushes else s.pushes ++ [s.master] },
        .heard s.flash s.master.stamp (decide (s.flash ≠ s.master.stamp))) := by
  have hup := Board.linkUp_up h
  have hlast : (s.reports ++ [Report.mk s.flash bytes])[s.reports.length]? = some ⟨s.flash, bytes⟩ := by simp
  have herase : (s.reports ++ [Report.mk s.flash bytes]).eraseIdx s.reports.length = s.reports := by
    rw [List.eraseIdx_append_of_length_le le_rfl]
    simp
  simp only [step, h, hlast]
  rw [hear_eq (s := { s with reports := s.reports ++ [⟨s.flash, bytes⟩] }) _ hup]
  simp only [herase]

/-- Flash holds the master's section, and nothing of another is under way. -/
structure Settled (s : NetLink) : Prop where
  flash : s.flash = s.master.stamp
  pushes : ∀ p ∈ s.pushes, p.stamp = s.master.stamp
  reports : ∀ r ∈ s.reports, r.held = s.master.stamp
  readable : s.Readable

theorem settled_iff : s.Settled ↔ s.Within [s.master.stamp] := by
  constructor
  · intro h
    exact ⟨by simp [h.flash], by simp, fun p hp => by simp [h.pushes p hp], fun r hr => by simp [h.reports r hr],
      h.readable⟩
  · intro h
    exact ⟨List.mem_singleton.mp h.flash, fun p hp => List.mem_singleton.mp (h.pushes p hp),
      fun r hr => List.mem_singleton.mp (h.reports r hr), h.readable⟩

theorem round_settles {board : Board} {header : LinkHeader} {dst : UInt64} {bytes : Bytes} (hpushes : s.pushes = [])
    (hreports : s.reports = []) (h : (board.linkUp s.flash).write header dst.toNat = .ok bytes) :
    (NetLink.step.final s [.send board header dst, .hear 0, .store 0 .durable]).Settled := by
  have hround := fresh_report h
  rw [hpushes, hreports, List.length_nil] at hround
  have hheard : (NetLink.step (NetLink.step s (.send board header dst)).1 (.hear 0)).1 =
      { s with pushes := if s.flash = s.master.stamp then [] else [s.master] } := by
    rw [hround, hreports]
    rfl
  simp only [Machine.final_cons, Machine.final_nil, hheard]
  by_cases hsame : s.flash = s.master.stamp
  · simp only [hsame, if_true, NetLink.step, List.getElem?_nil]
    exact ⟨rfl, by simp, by simp [hreports], by simp [Readable, hreports]⟩
  · simp only [hsame, if_false, NetLink.step, List.getElem?_cons_zero, store_eq]
    exact ⟨rfl, by simp, by simp [hreports], by simp [Readable, hreports]⟩

theorem Settled.run (h : s.Settled) {events : List NetEvent} (hevents : ∀ event ∈ events, event.stamp = none) :
    (NetLink.step.final s events).flash = s.master.stamp ∧
      ∀ held master, .heard held master true ∉ NetLink.step.outputs s events := by
  have hbrings : events.filterMap NetEvent.stamp = [] := List.filterMap_eq_nil_iff.mpr hevents
  obtain ⟨hwithin, hsound⟩ := (settled_iff.mp h).run events
  rw [hbrings, List.append_nil] at hwithin hsound
  refine ⟨List.mem_singleton.mp hwithin.flash, ?_⟩
  intro held master hmem
  obtain ⟨hheld, hmaster, hpushed⟩ := hsound _ hmem
  rw [List.mem_singleton] at hheld hmaster
  exact hpushed.mp rfl (hheld.trans hmaster.symm)

end NetLink

/-- Flash holds one section whole, and a push follows a `LinkUp` until that section is the master's. -/
theorem cache_sync :
    (∀ (flash held : NetStamp) (change : NetChange) (write : NvsWrite) (verdict : NetVerdict),
      flash.settle change write = .ok (held, verdict) →
      (write = .durable → NetStamp.of change = .ok held ∧ verdict.outcome = .stored) ∧
      (write = .failed → held = flash ∧ verdict.outcome = .nvsWriteFailed) ∧ verdict.version = held.netVersion) ∧
    (∀ (master : NetStamp) (envelope : LinkEnvelope) (up : LinkUp), LinkUp.decode envelope = .ok up → up.role = .comms →
      (master.needsPush up = false ↔ up.netVersion = some master.netVersion ∧ up.netOrigin = master.netOrigin)) ∧
    (∀ (s : NetLink) (events : List NetEvent), s.pushes = [] → s.reports = [] →
      (NetLink.step.final s events).flash ∈ s.flash :: s.master.stamp :: events.filterMap NetEvent.stamp ∧
      ∀ answer ∈ NetLink.step.outputs s events,
        answer.Sound (s.flash :: s.master.stamp :: events.filterMap NetEvent.stamp)) ∧
    (∀ (s : NetLink) (board : Board) (header : LinkHeader) (dst : UInt64) (bytes : Bytes),
      (board.linkUp s.flash).write header dst.toNat = .ok bytes →
      NetLink.step (NetLink.step s (.send board header dst)).1 (.hear s.reports.length) =
        ({ s with pushes := if s.flash = s.master.stamp then s.pushes else s.pushes ++ [s.master] },
          .heard s.flash s.master.stamp (decide (s.flash ≠ s.master.stamp)))) ∧
    (∀ (s : NetLink) (board : Board) (header : LinkHeader) (dst : UInt64) (bytes : Bytes), s.pushes = [] →
      s.reports = [] → (board.linkUp s.flash).write header dst.toNat = .ok bytes →
      (NetLink.step.final s [.send board header dst, .hear 0, .store 0 .durable]).Settled) ∧
    ∀ (s : NetLink) (events : List NetEvent), s.Settled → (∀ event ∈ events, event.stamp = none) →
      (NetLink.step.final s events).flash = s.master.stamp ∧
      ∀ held master, .heard held master true ∉ NetLink.step.outputs s events := by
  refine ⟨?_, ?_, ?_, ?_, ?_, ?_⟩
  · intro flash held change write verdict h
    obtain ⟨offered, hoffered, rfl, rfl⟩ := NetStamp.settle_ok.mp h
    refine ⟨?_, ?_, rfl⟩
    · rintro rfl
      exact ⟨hoffered, rfl⟩
    · rintro rfl
      exact ⟨rfl, rfl⟩
  · intro master envelope up h hrole
    exact NetStamp.needsPush_iff (LinkUp.decode_sides h) hrole
  · intro s events hpushes hreports
    have hstart : s.Within [s.flash, s.master.stamp] :=
      ⟨by simp, by simp, by simp [hpushes], by simp [hreports], by simp [NetLink.Readable, hreports]⟩
    obtain ⟨hwithin, hsound⟩ := hstart.run events
    exact ⟨hwithin.flash, hsound⟩
  · intro s board header dst bytes h
    exact NetLink.fresh_report h
  · intro s board header dst bytes hpushes hreports h
    exact NetLink.round_settles hpushes hreports h
  · intro s events h hevents
    exact h.run hevents

end Km43.Link
