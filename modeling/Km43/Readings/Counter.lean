import Km43.Readings.Quality

namespace Km43.Readings

structure CounterRun where
  last : Option Int32
  deriving DecidableEq

namespace CounterRun

def new : CounterRun := ⟨none⟩

def judge (run : CounterRun) (total : Int32) : Validity :=
  if total < 0 then .outOfRange
  else
    match run.last with
    | some last => if total < last then .reset else .ok
    | none => .ok

def published (run : CounterRun) (total : Int32) : CounterRun := if 0 ≤ total then ⟨some total⟩ else run

end CounterRun

inductive CounterCall
  | judge (total : Int32)
  | published (total : Int32)
  deriving DecidableEq

namespace CounterCall

/-- The total that a call puts on the wire: a negative one is never published with a value. -/
def total? : CounterCall → Option Int32
  | judge _ => none
  | published total => if 0 ≤ total then some total else none

def step (run : CounterRun) : CounterCall → CounterRun
  | judge _ => run
  | published total => run.published total

def after (calls : List CounterCall) : CounterRun := calls.foldl step .new

def totals (calls : List CounterCall) : List Int32 := calls.filterMap total?

/-- Two totals published one after the other, with these calls between them. -/
structure Consecutive (earlier : Int32) (between : List CounterCall) (later : Int32) : Prop where
  earlier : 0 ≤ earlier
  later : 0 ≤ later
  none : totals between = []

variable {calls before between early late : List CounterCall} {p t : Int32}

theorem after_concat (calls : List CounterCall) (call : CounterCall) : after (calls ++ [call]) = step (after calls) call := by
  rw [after, List.foldl_append]
  rfl

theorem totals_append (calls more : List CounterCall) : totals (calls ++ more) = totals calls ++ totals more :=
  List.filterMap_append ..

theorem published_last (run : CounterRun) (total : Int32) :
    (run.published total).last = ((published total).total?).or run.last := by
  simp only [CounterRun.published, total?]
  split_ifs <;> rfl

theorem after_last (calls : List CounterCall) : (after calls).last = (totals calls).getLast? := by
  induction calls using List.reverseRecOn with
  | nil => rfl
  | append_singleton calls call ih =>
    rw [after_concat, totals_append]
    cases call with
    | judge total =>
      rw [step, ih]
      simp [totals, total?]
    | published total =>
      rw [step, published_last, ih]
      cases hwire : (published total).total? with
      | none => simp [totals, hwire]
      | some wire => simp [totals, hwire]

theorem totals_nonneg {total : Int32} (h : total ∈ totals calls) : 0 ≤ total := by
  obtain ⟨call, -, hcall⟩ := List.mem_filterMap.mp h
  cases call with
  | judge => cases hcall
  | published given =>
    simp only [total?] at hcall
    split_ifs at hcall with hsign
    cases hcall
    exact hsign

theorem judge_ok {run : CounterRun} (h : run.judge t = .ok) : 0 ≤ t ∧ ∀ last ∈ run.last, last ≤ t := by
  unfold CounterRun.judge at h
  split_ifs at h with hsign
  refine ⟨Int32.not_lt.mp hsign, fun last hlast => ?_⟩
  rw [Option.mem_def.mp hlast] at h
  by_contra hfall
  rw [Int32.not_le] at hfall
  simp [hfall] at h

theorem judge_reset {run : CounterRun} (hlast : run.last = some p) (hsign : 0 ≤ t) (hfall : t < p) :
    run.judge t = .reset := by
  unfold CounterRun.judge
  rw [if_neg (Int32.not_lt.mpr hsign), hlast]
  exact if_pos hfall

theorem last_between (hp : 0 ≤ p) (hnone : totals between = []) :
    (after (before ++ published p :: between)).last = some p := by
  have hwire : (published p).total? = some p := if_pos hp
  have htotals : totals (published p :: between) = [p] := by
    rw [totals, List.filterMap_cons, hwire]
    exact congrArg _ hnone
  rw [after_last, totals_append, htotals]
  simp

/-- The floor is what was published last and is never negative, what is judged to go on is not below it, and a fall
from one published total to the next is a reset whenever it is judged between the two. -/
theorem counter_run (calls : List CounterCall) :
    (after calls).last = (totals calls).getLast? ∧ (∀ last ∈ (after calls).last, 0 ≤ last) ∧
    (∀ before t late, calls = before ++ judge t :: late → (after before).judge t = .ok →
      ∀ p ∈ (totals before).getLast?, p ≤ t) ∧
    ∀ before p between t late, calls = before ++ published p :: between ++ published t :: late →
      Consecutive p between t → t < p → (after (before ++ published p :: between)).judge t = .reset ∧
        ∀ early rest, between = early ++ judge t :: rest → (after (before ++ published p :: early)).judge t = .reset := by
  refine ⟨after_last calls, ?_, ?_, ?_⟩
  · intro last hlast
    rw [after_last] at hlast
    exact totals_nonneg (List.mem_of_getLast? hlast)
  · intro before t late _ hok p hp
    apply (judge_ok hok).2
    rw [after_last]
    exact hp
  · intro before p between t late _ hcons hfall
    constructor
    · exact judge_reset (last_between hcons.earlier hcons.none) hcons.later hfall
    · rintro early rest rfl
      have hearly : totals early = [] := by
        have hnone := hcons.none
        rw [totals_append] at hnone
        exact (List.append_eq_nil_iff.mp hnone).1
      exact judge_reset (last_between hcons.earlier hearly) hcons.later hfall

/-- A total judged before another was published goes out as it was judged, a fall that nothing called a reset. -/
theorem fall_not_judged : ¬ ∀ calls before p between t late, calls = before ++ published p :: between ++ published t :: late →
    Consecutive p between t → t < p → ∃ early rest, before ++ published p :: between = early ++ judge t :: rest ∧
      (after early).judge t = .reset := by
  intro hall
  obtain ⟨early, rest, hsplit, hreset⟩ := hall [judge 5, published 9, published 5] [judge 5] 9 [] 5 [] rfl
    ⟨by decide, by decide, rfl⟩ (by decide)
  cases early with
  | nil => cases hreset
  | cons first early =>
    cases early with
    | nil => cases hsplit
    | cons second early => simp at hsplit

end CounterCall

end Km43.Readings
