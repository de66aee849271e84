import Km43.Devices.Rules
import Km43.Library.Ancestry

namespace Km43.Devices

open Library

variable {δ : Type} [DevSlot δ] {rules : SiteRules} {devices : List (DeviceEntry δ)} {d e : DeviceEntry δ}

def ancestry (devices : List (DeviceEntry δ)) : Ancestry (DeviceEntry δ) DevId where
  rows := devices
  key := DeviceEntry.devId
  parent := DeviceEntry.parent

structure BusFits (transport : Transport) (b : BusEntry) : Prop where
  sets : b.rate.isSome ∨ b.dataBits.isSome ∨ b.parity.isSome ∨ b.stopBits.isSome
  rate : b.rate.isSome → transport.hasRate
  line : b.dataBits.isSome ∨ b.parity.isSome ∨ b.stopBits.isSome → transport.isSerialLine

structure OptionsFit (rule : DialectRule) (options : DeviceOptions) : Prop where
  allowed : ∀ option ∈ options.set, option ∈ rule.options
  poll : ∀ period ∈ options.pollPeriodMs, rule.minPollMs ≤ period

structure SiteRule (rules : SiteRules) (s : BusesAndDevices δ) : Prop where
  buses_once : s.buses.Pairwise fun a b => a.bus ≠ b.bus
  buses_fit : ∀ b ∈ s.buses, ∃ transport, rules.transport b.bus = some transport ∧ BusFits transport b
  few : s.devices.length ≤ rules.maxDevices
  placed : ∀ d ∈ s.devices, ∃ transport, rules.transport d.bus = some transport ∧
    (d.addr.isSome ↔ transport.addressed) ∧
    ∃ rule, rules.dialect d.dialect transport = some rule ∧ OptionsFit rule d.options
  addrs_once : s.devices.Pairwise fun a b => a.bus = b.bus → ∀ addr, a.addr = some addr → b.addr ≠ some addr
  devs_once : s.devices.Pairwise fun a b => ∀ dev, a.devId = some dev → b.devId ≠ some dev
  parents_listed : ∀ d ∈ s.devices, ∀ dev, d.parent = some dev → ∃ e ∈ s.devices, e.devId = some dev
  no_return : ∀ d ∈ s.devices, ¬Relation.TransGen (ancestry s.devices).Above d d
  shallow : ∀ chain : List (DeviceEntry δ), (∀ d ∈ chain, d ∈ s.devices) → chain.IsChain (ancestry s.devices).Above →
    chain.length ≤ rules.maxTopologyDepth

theorem BusEntry.check_ok {b : BusEntry} {transport : Transport} :
    b.check transport = .ok () ↔ BusFits transport b := by
  unfold BusEntry.check
  constructor
  · intro h
    split_ifs at h with hnone hrate hline hbits hparity hstop
    · refine ⟨?_, fun hr => by simpa [hr] using hrate, fun _ => hline⟩
      simp only [Option.isNone_iff_eq_none, not_and_or, ← Option.isSome_iff_ne_none] at hnone
      simpa [Option.isSome_iff_ne_none] using hnone
    · refine ⟨?_, fun hr => by simpa [hr] using hrate, ?_⟩
      · simp only [Option.isNone_iff_eq_none, not_and_or, ← Option.isSome_iff_ne_none] at hnone
        simpa [Option.isSome_iff_ne_none] using hnone
      · rintro (hb | hp | hs)
        · exact absurd hb hbits
        · exact absurd hp hparity
        · exact absurd hs hstop
  · intro h
    have hsets : ¬(b.rate.isNone ∧ b.dataBits.isNone ∧ b.parity.isNone ∧ b.stopBits.isNone) := by
      rintro ⟨hr, hb, hp, hs⟩
      have hset := h.sets
      simp only [Option.isNone_iff_eq_none] at hr hb hp hs
      simp [hr, hb, hp, hs] at hset
    have hrate : ¬(b.rate.isSome ∧ ¬transport.hasRate) := fun hr => hr.2 (h.rate hr.1)
    rw [if_neg hsets, if_neg hrate]
    by_cases hline : transport.isSerialLine
    · rw [if_pos hline]
    · rw [if_neg hline, if_neg fun hb => hline (h.line (.inl hb)), if_neg fun hp => hline (h.line (.inr (.inl hp))),
        if_neg fun hs => hline (h.line (.inr (.inr hs)))]

theorem DeviceOptions.check_ok {options : DeviceOptions} {rule : DialectRule} :
    options.check rule = .ok () ↔ OptionsFit rule options := by
  unfold DeviceOptions.check
  cases hfind : options.set.find? (· ∉ rule.options) with
  | some option =>
    have hmem := List.mem_of_find?_eq_some hfind
    have hout : option ∉ rule.options := by simpa using List.find?_some hfind
    exact iff_of_false (by simp) fun h => hout (h.allowed option hmem)
  | none =>
    have hall : ∀ option ∈ options.set, option ∈ rule.options := by
      intro option hoption
      simpa using List.find?_eq_none.mp hfind option hoption
    cases hpoll : options.pollPeriodMs with
    | none => exact iff_of_true rfl ⟨hall, by simp [hpoll]⟩
    | some period =>
      simp only
      split_ifs with hshort
      · refine iff_of_false (by simp) fun h => ?_
        exact UInt32.not_le.mpr hshort (h.poll period hpoll)
      · refine iff_of_true rfl ⟨hall, fun p hp => ?_⟩
        rw [hpoll, Option.mem_some_iff] at hp
        subst hp
        exact UInt32.not_lt.mp hshort

/-- A walk up that is let through: it ends at a top in time, and passes no one twice. -/
structure Passes (devices : List (DeviceEntry δ)) (start : Option DevId) (depth left : ℕ) (seen : List DevId)
    (held : ℕ) (es : List (DeviceEntry δ)) : Prop where
  ends : es.length < left
  apart : es.Pairwise fun a b => a.devId ≠ b.devId
  fresh : ∀ e ∈ es, e.devId ≠ start ∧ ∀ dev ∈ seen, e.devId ≠ some dev
  shallow : held + es.length ≤ depth

theorem found_above {dev : DevId} (h : (ancestry devices).find dev = some e) :
    devices.find? (·.devId = some dev) = some e ∧ e.devId = some dev := ⟨h, (Ancestry.mem_of_find h).2⟩

theorem chainFrom_ok {start : Option DevId} {depth left held : ℕ} {seen : List DevId} {next : Option DevId} :
    chainFrom devices start depth left seen held next = .ok () ↔
      ∃ es, (ancestry devices).Climbs next es ∧ Passes devices start depth left seen held es := by
  induction left generalizing seen held next with
  | zero =>
    refine iff_of_false (by simp [chainFrom]) ?_
    rintro ⟨es, -, hp⟩
    exact Nat.not_lt_zero _ hp.ends
  | succ left ih =>
    cases next with
    | none =>
      rw [chainFrom]
      constructor
      · intro h
        split_ifs at h with hdeep
        exact ⟨[], .top, ⟨Nat.zero_lt_succ left, .nil, by simp, Nat.not_lt.mp hdeep⟩⟩
      · rintro ⟨es, hclimb, hp⟩
        cases hclimb
        exact if_neg (Nat.not_lt.mpr hp.shallow)
    | some parent =>
      rw [chainFrom]
      split_ifs with hpassed
      · refine iff_of_false (by simp) ?_
        rintro ⟨es, hclimb, hp⟩
        cases hclimb with
        | link found rest =>
          obtain ⟨hstart, hseen⟩ := hp.fresh _ List.mem_cons_self
          rw [(found_above found).2] at hstart hseen
          rcases hpassed with h | h
          · exact hstart h.symm
          · exact hseen parent h rfl
      · push Not at hpassed
        obtain ⟨hstart, hseen⟩ := hpassed
        cases hfind : devices.find? (·.devId = some parent) with
        | none =>
          refine iff_of_false (by simp) ?_
          rintro ⟨es, hclimb, -⟩
          cases hclimb with
          | link found _ =>
            rw [(found_above found).1] at hfind
            cases hfind
        | some above =>
          have hkey : above.devId = some parent := by simpa using List.find?_some hfind
          simp only
          rw [ih]
          constructor
          · rintro ⟨es, hclimb, hp⟩
            refine ⟨above :: es, .link hfind hclimb, ?_, ?_, ?_, ?_⟩
            · have hends := hp.ends
              rw [List.length_cons]
              omega
            · refine List.pairwise_cons.mpr ⟨fun e he => ?_, hp.apart⟩
              rw [hkey]
              exact ((hp.fresh e he).2 parent (by simp)).symm
            · refine List.forall_mem_cons.mpr ⟨⟨?_, ?_⟩, fun e he => ⟨(hp.fresh e he).1, fun dev hdev => ?_⟩⟩
              · rw [hkey]
                exact fun h => hstart h.symm
              · rintro dev hdev h
                rw [hkey] at h
                cases h
                exact hseen hdev
              · exact (hp.fresh e he).2 dev (by simp [hdev])
            · have hshallow := hp.shallow
              rw [List.length_cons]
              omega
          · rintro ⟨es, hclimb, hp⟩
            cases hclimb with
            | @link _ _ es found rest =>
              obtain rfl := Option.some.inj ((found_above found).1.symm.trans hfind)
              obtain ⟨hfirst, hapart⟩ := List.pairwise_cons.mp hp.apart
              have hends := hp.ends
              have hshallow := hp.shallow
              rw [List.length_cons] at hends hshallow
              refine ⟨es, rest, by omega, hapart, fun e he => ?_, by omega⟩
              obtain ⟨hs, hf⟩ := hp.fresh e (List.mem_cons_of_mem _ he)
              refine ⟨hs, fun dev hdev => ?_⟩
              rcases List.mem_append.mp hdev with hdev | hdev
              · exact hf dev hdev
              · rw [List.mem_singleton.mp hdev, ← hkey]
                exact (hfirst e he).symm

theorem checkChain_ok {depth : ℕ} (hkeys : (ancestry devices).KeysApart) (hlen : devices.length ≤ maxConfigDevices)
    (hd : d ∈ devices) : checkChain devices depth d = .ok () ↔
      ∃ es, (ancestry devices).Climbs d.parent es ∧ es.length < depth := by
  rw [checkChain, chainFrom_ok]
  constructor
  · rintro ⟨es, hclimb, hp⟩
    exact ⟨es, hclimb, (Nat.succ_le_iff.mp (Nat.one_add _ ▸ hp.shallow))⟩
  · rintro ⟨es, hclimb, hshort⟩
    have hnodup := Ancestry.Climbs.nodup hkeys hclimb hd
    have hmem := hclimb.mem
    have hsub : d :: es ⊆ devices := by
      intro e he
      rcases List.mem_cons.mp he with rfl | he
      · exact hd
      · exact (hmem e he).1
    have hcount := (List.subperm_of_subset hnodup hsub).length_le
    rw [List.length_cons] at hcount
    obtain ⟨hstart, hrest⟩ := List.nodup_cons.mp hnodup
    have hsame : ∀ a ∈ es, ∀ b ∈ devices, a.devId = b.devId → a = b := by
      intro a ha b hb hab
      obtain ⟨hin, hsome⟩ := hmem a ha
      obtain ⟨k, hk⟩ := Option.isSome_iff_exists.mp hsome
      exact hkeys.same hin hb hk (hab.symm.trans hk)
    refine ⟨es, hclimb, hcount.trans hlen, ?_, ?_, by omega⟩
    · refine hrest.imp_of_mem fun ha hb hne hab => hne ?_
      exact hsame _ ha _ (hmem _ hb).1 hab
    · intro e he
      refine ⟨fun h => ?_, by simp⟩
      rw [hsame e he d hd h] at he
      exact hstart he

theorem chains_ok {depth : ℕ} (hkeys : (ancestry devices).KeysApart) (hlen : devices.length ≤ maxConfigDevices) :
    (∀ d ∈ devices, checkChain devices depth d = .ok ()) ↔
      (∀ d ∈ devices, ∀ dev, d.parent = some dev → ∃ e ∈ devices, e.devId = some dev) ∧
      (∀ d ∈ devices, ¬Relation.TransGen (ancestry devices).Above d d) ∧
      ∀ chain : List (DeviceEntry δ), (∀ d ∈ chain, d ∈ devices) → chain.IsChain (ancestry devices).Above →
        chain.length ≤ depth := by
  constructor
  · intro h
    have hclimbs : ∀ d ∈ devices, ∃ es, (ancestry devices).Climbs d.parent es ∧ es.length < depth :=
      fun d hd => (checkChain_ok hkeys hlen hd).mp (h d hd)
    refine ⟨fun d hd dev hdev => ?_, fun d hd => ?_, fun chain hmem hchain => ?_⟩
    · obtain ⟨es, hclimb, -⟩ := hclimbs d hd
      rw [hdev] at hclimb
      cases hclimb with
      | link found _ => exact ⟨_, Ancestry.mem_of_find found⟩
    · obtain ⟨es, hclimb, -⟩ := hclimbs d hd
      exact Ancestry.Climbs.acyclic hkeys hclimb
    · cases chain with
      | nil => exact Nat.zero_le depth
      | cons d chain =>
        obtain ⟨es, hclimb, hshort⟩ := hclimbs d (hmem d List.mem_cons_self)
        have hpart := (Ancestry.Climbs.of_chain hkeys hclimb hchain).length_le
        rw [List.length_cons]
        omega
  · rintro ⟨hlisted, -, hbound⟩ d hd
    obtain ⟨es, hclimb⟩ := Ancestry.climbs_of_bounded hlisted hkeys hbound hd
    have hchain := hbound (d :: es) (by
      intro e he
      rcases List.mem_cons.mp he with rfl | he
      · exact hd
      · exact (hclimb.mem e he).1) (Ancestry.Climbs.chain hclimb)
    exact (checkChain_ok hkeys hlen hd).mpr ⟨es, hclimb, hchain⟩

theorem legal_site {s : BusesAndDevices δ} : Legal rules s ↔ SiteRule rules s := by
  have happart : s.devices.Pairwise Apart ↔
      (s.devices.Pairwise fun a b => a.bus = b.bus → ∀ addr, a.addr = some addr → b.addr ≠ some addr) ∧
      s.devices.Pairwise fun a b => ∀ dev, a.devId = some dev → b.devId ≠ some dev := by
    rw [← List.pairwise_and_iff]
    refine List.Pairwise.iff fun a b => and_congr_left fun _ => ?_
    constructor
    · intro h hbus addr ha hb
      exact h addr ha ⟨hbus.symm, hb⟩
    · rintro h addr ha ⟨hbus, hb⟩
      exact h hbus.symm addr ha hb
  have hfits : ∀ d : DeviceEntry δ, DeviceFits rules d ↔ ∃ transport, rules.transport d.bus = some transport ∧
      (d.addr.isSome ↔ transport.addressed) ∧
      ∃ rule, rules.dialect d.dialect transport = some rule ∧ OptionsFit rule d.options := by
    intro d
    refine exists_congr fun transport => and_congr_right fun _ => and_congr Bool.eq_iff_iff ?_
    exact exists_congr fun rule => and_congr_right fun _ => DeviceOptions.check_ok
  constructor
  · intro h
    obtain ⟨haddrs, hdevs⟩ := happart.mp h.devices_apart
    obtain ⟨hlisted, hreturn, hshallow⟩ := (chains_ok hdevs s.devices_le).mp h.chains
    refine ⟨h.buses_apart.imp Ne.symm, fun b hb => ?_, h.count, fun d hd => (hfits d).mp (h.devices_fit d hd), haddrs,
      hdevs, hlisted, hreturn, hshallow⟩
    obtain ⟨transport, htransport, hcheck⟩ := h.buses_fit b hb
    exact ⟨transport, htransport, BusEntry.check_ok.mp hcheck⟩
  · intro h
    refine ⟨h.buses_once.imp Ne.symm, fun b hb => ?_, h.few, happart.mpr ⟨h.addrs_once, h.devs_once⟩,
      fun d hd => (hfits d).mpr (h.placed d hd),
      (chains_ok h.devs_once s.devices_le).mpr ⟨h.parents_listed, h.no_return, h.shallow⟩⟩
    obtain ⟨transport, htransport, hfit⟩ := h.buses_fit b hb
    exact ⟨transport, htransport, BusEntry.check_ok.mpr hfit⟩

theorem SiteRule.perm {s t : BusesAndDevices δ} (hbuses : s.buses.Perm t.buses) (hdevices : s.devices.Perm t.devices)
    (h : SiteRule rules s) : SiteRule rules t := by
  have hmem : ∀ d, d ∈ t.devices ↔ d ∈ s.devices := fun d => hdevices.symm.mem_iff
  have habove : (ancestry t.devices).Above = (ancestry s.devices).Above := by
    funext a b
    exact propext (and_congr_left fun _ => hmem b)
  refine ⟨h.buses_once.perm hbuses Ne.symm, fun b hb => h.buses_fit b (hbuses.symm.mem_iff.mp hb), ?_,
    fun d hd => h.placed d ((hmem d).mp hd), h.addrs_once.perm hdevices ?_, h.devs_once.perm hdevices ?_, ?_, ?_, ?_⟩
  · rw [← hdevices.length_eq]
    exact h.few
  · intro a b hab hbus addr hb ha
    exact hab hbus.symm addr ha hb
  · intro a b hab dev hb ha
    exact hab dev ha hb
  · intro d hd dev hdev
    obtain ⟨e, he, hkey⟩ := h.parents_listed d ((hmem d).mp hd) dev hdev
    exact ⟨e, (hmem e).mpr he, hkey⟩
  · intro d hd
    rw [habove]
    exact h.no_return d ((hmem d).mp hd)
  · intro chain hin hchain
    rw [habove] at hchain
    exact h.shallow chain (fun d hd => (hmem d).mp (hin d hd)) hchain

theorem chainFrom_more {start : Option DevId} {depth : ℕ} {others : List DevId}
    (hothers : ∀ e ∈ devices, ∀ dev, e.devId = some dev → start ≠ some dev → dev ∈ others) (more : ℕ) :
    ∀ (left : ℕ) (seen : List DevId) (held : ℕ) (next : Option DevId), seen.Nodup → seen ⊆ others →
      others.length < seen.length + left →
      chainFrom devices start depth (left + more) seen held next = chainFrom devices start depth left seen held next := by
  intro left
  induction left with
  | zero =>
    intro seen held next hnodup hsub hroom
    have hle := (List.subperm_of_subset hnodup hsub).length_le
    omega
  | succ left ih =>
    intro seen held next hnodup hsub hroom
    rw [Nat.add_right_comm]
    cases next with
    | none => rfl
    | some parent =>
      rw [chainFrom, chainFrom]
      split_ifs with hpassed
      · rfl
      · push Not at hpassed
        obtain ⟨hstart, hseen⟩ := hpassed
        cases hfind : devices.find? (·.devId = some parent) with
        | none => rfl
        | some above =>
          have hkey : above.devId = some parent := by simpa using List.find?_some hfind
          have hin := hothers above (List.mem_of_find?_eq_some hfind) parent hkey hstart
          apply ih
          · rw [List.nodup_append]
            refine ⟨hnodup, List.nodup_singleton _, ?_⟩
            rintro a ha b hb rfl
            rw [List.mem_singleton] at hb
            exact hseen (hb ▸ ha)
          · exact List.append_subset.mpr ⟨hsub, by simpa using hin⟩
          · rw [List.length_append, List.length_singleton]
            omega

theorem checkChain_ends (s : BusesAndDevices δ) {d : DeviceEntry δ} (hd : d ∈ s.devices) (depth more : ℕ) :
    chainFrom s.devices d.devId depth (maxConfigDevices + more) [] 1 d.parent = checkChain s.devices depth d := by
  let others := s.devices.filterMap fun e => if e.devId = d.devId then none else e.devId
  have hothers : ∀ e ∈ s.devices, ∀ dev, e.devId = some dev → d.devId ≠ some dev → dev ∈ others := by
    intro e he dev hdev hstart
    refine List.mem_filterMap.mpr ⟨e, he, ?_⟩
    rw [if_neg (by rw [hdev]; exact hstart.symm), hdev]
  have hfewer : others.length < s.devices.length := by
    apply List.length_filterMap_lt_length_iff_exists.mpr
    exact ⟨d, hd, if_pos rfl⟩
  apply chainFrom_more hothers more _ _ _ _ List.nodup_nil (List.nil_subset _)
  rw [List.length_nil, Nat.zero_add]
  exact hfewer.trans_le s.devices_le

/-- `check` is the site's rule, in any order of the entries, and its walks up never run out of turns. -/
theorem site_rule (s : BusesAndDevices δ) (rules : SiteRules) :
    (s.check rules = .ok () ↔ SiteRule rules s) ∧
    (∀ t : BusesAndDevices δ, s.buses.Perm t.buses → s.devices.Perm t.devices →
      (t.check rules = .ok () ↔ s.check rules = .ok ())) ∧
    ∀ d ∈ s.devices, ∀ more, chainFrom s.devices d.devId rules.maxTopologyDepth (maxConfigDevices + more) [] 1 d.parent =
      checkChain s.devices rules.maxTopologyDepth d := by
  have hrule : ∀ t : BusesAndDevices δ, t.check rules = .ok () ↔ SiteRule rules t :=
    fun t => (t.check_ok rules).trans legal_site
  refine ⟨hrule s, fun t hbuses hdevices => ?_, fun d hd more => checkChain_ends s hd _ more⟩
  rw [hrule t, hrule s]
  exact ⟨SiteRule.perm hbuses.symm hdevices.symm, SiteRule.perm hbuses hdevices⟩

end Km43.Devices
