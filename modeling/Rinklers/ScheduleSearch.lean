import Rinklers.Schedule

/-! The finite search of `next_run_after` is exact in a zone with a fixed offset: of the
infinitely many occurrences it finds the first one that its bounds admit. -/
namespace Rinklers
open Foundation

theorem Weekday.numDays_succ (weekday : Weekday) :
    weekday.succ.numDaysFromMonday = (weekday.numDaysFromMonday + 1) % 7 := by
  cases weekday <;> rfl

theorem Weekday.numDays_lt (weekday : Weekday) : weekday.numDaysFromMonday < 7 := by
  cases weekday <;> decide

theorem Weekday.numDays_injective {a b : Weekday}
    (same : a.numDaysFromMonday = b.numDaysFromMonday) : a = b := by
  cases a <;> cases b <;> first | rfl | cases same

section Week
variable (calendar : Calendar)

theorem weekday_add (date : Int) (days : Nat) :
    (calendar.weekday (date + days)).numDaysFromMonday =
      ((calendar.weekday date).numDaysFromMonday + days) % 7 := by
  induction days with
  | zero =>
    have small := (calendar.weekday date).numDays_lt
    rw [Nat.add_zero,Nat.mod_eq_of_lt small]
    exact congrArg (fun date => (calendar.weekday date).numDaysFromMonday) (Int.add_zero date)
  | succ days ih =>
    have next : date + ((days + 1 : Nat) : Int) = date + days + 1 := by omega
    rw [next,calendar.weekday_succ,Weekday.numDays_succ,ih]
    omega

theorem weeks_between {first second : Int} (before : first ≤ second)
    (same : calendar.weekday first = calendar.weekday second) :
    ∃ weeks : Nat, second = first + 7 * weeks := by
  obtain ⟨days,rfl⟩ := Int.le.dest before
  have shifted := weekday_add calendar first days
  have small := (calendar.weekday first).numDays_lt
  rw [← same] at shifted
  exact ⟨days / 7,by omega⟩

theorem weekday_week_later (date : Int) : calendar.weekday (date + 7) = calendar.weekday date := by
  apply Weekday.numDays_injective
  have shifted := weekday_add calendar date 7
  have small := (calendar.weekday date).numDays_lt
  change (calendar.weekday (date + 7)).numDaysFromMonday = _ at shifted
  omega

theorem weekday_within_week (date : Int) (weekday : Weekday) :
    ∃ days : Nat, days < 7 ∧ calendar.weekday (date + days) = weekday := by
  have here := (calendar.weekday date).numDays_lt
  have there := weekday.numDays_lt
  refine ⟨(weekday.numDaysFromMonday + 7 - (calendar.weekday date).numDaysFromMonday) % 7,
    Nat.mod_lt _ (by decide),?_⟩
  apply Weekday.numDays_injective
  rw [weekday_add]
  omega

end Week

variable (tz : Local)

private theorem nextWeekdayLoop_found (weekday : Weekday) (rounds : Nat) (date : Int) (days : Nat)
    (enough : days < rounds) (comes : tz.calendar.weekday (date + days) = weekday) :
    ∃ skipped : Nat, skipped < rounds ∧
      nextWeekdayLoop tz weekday rounds date = some (date + skipped) ∧
      tz.calendar.weekday (date + skipped) = weekday := by
  induction rounds generalizing date days with
  | zero => omega
  | succ rounds ih =>
    by_cases today : tz.calendar.weekday date = weekday
    · exact ⟨0,Nat.succ_pos rounds,by simp [nextWeekdayLoop,today],by simpa using today⟩
    · cases days with
      | zero => exact absurd (by simpa using comes) today
      | succ days =>
        have shift : date + ((days + 1 : Nat) : Int) = date + 1 + days := by omega
        rw [shift] at comes
        obtain ⟨skipped,fits,found,same⟩ := ih (date + 1) days (by omega) comes
        have back : date + 1 + (skipped : Int) = date + ((skipped + 1 : Nat) : Int) := by omega
        refine ⟨skipped + 1,by omega,?_,back ▸ same⟩
        rw [nextWeekdayLoop,if_pos today,found,back]

/-- The loop of `next_weekday` always ends, within a week, on the weekday it looks for. -/
theorem nextWeekday_found (date : Int) (weekday : Weekday) :
    ∃ skipped : Nat, skipped < 7 ∧ nextWeekday tz date weekday = some (date + skipped) ∧
      tz.calendar.weekday (date + skipped) = weekday := by
  obtain ⟨days,fits,comes⟩ := weekday_within_week tz.calendar date weekday
  exact nextWeekdayLoop_found tz weekday 7 date days fits comes

section Fixed
variable (calendar : Calendar) (offset : Int)

def Weekly (reference : Int) (weekday : Weekday) (time : NaiveTime) : Set Int :=
  {instant | reference ≤ instant ∧ (fixedLocal calendar offset).weekday instant = weekday ∧
    (fixedLocal calendar offset).time instant = time}

-- An instant at that weekday and time is a whole number of weeks after the first date that fits.
private theorem weekly_aligned {reference date : Int} {skipped : Nat} {weekday : Weekday}
    {time : NaiveTime} (today : (fixedLocal calendar offset).date reference = date)
    (fits : skipped < 7) (same : calendar.weekday (date + skipped) = weekday) {instant : Int}
    (member : instant ∈ Weekly calendar offset reference weekday time) :
    ∃ weeks : Nat,
      instant = (date + skipped + 7 * weeks) * nanosPerDay + (time.val : Int) - offset := by
  obtain ⟨after,atWeekday,atTime⟩ := member
  have start := instant_fixed calendar offset reference
  rw [today] at start
  have startTime := ((fixedLocal calendar offset).time reference).isLt
  have place := instant_fixed calendar offset instant
  rw [atTime] at place
  generalize otherDate : (fixedLocal calendar offset).date instant = day at place
  have timeBound := time.isLt
  have notEarlier : date ≤ day := by
    unfold nanosPerDay nanosPerSec at start startTime place timeBound
    omega
  have sameWeekday : calendar.weekday day = weekday := by
    rw [← otherDate]
    exact atWeekday
  by_cases order : date + skipped ≤ day
  · obtain ⟨weeks,apart⟩ := weeks_between calendar order (same.trans sameWeekday.symm)
    exact ⟨weeks,by rw [place,apart]⟩
  · obtain ⟨weeks,apart⟩ := weeks_between calendar (by omega : day ≤ date + skipped)
      (sameWeekday.trans same.symm)
    have here : day = date + skipped := by omega
    exact ⟨0,by rw [place,here]; simp⟩

theorem weekly_first (reference date : Int) (skipped : Nat) (weekday : Weekday) (time : NaiveTime)
    (today : (fixedLocal calendar offset).date reference = date) (fits : skipped < 7)
    (same : calendar.weekday (date + skipped) = weekday) :
    let found := (date + skipped) * nanosPerDay + (time.val : Int) - offset
    IsLeast (Weekly calendar offset reference weekday time)
      (if found < reference then found + nanosPerWeek else found) := by
  intro found
  have later : found + nanosPerWeek =
      (date + skipped + 7) * nanosPerDay + (time.val : Int) - offset := by
    unfold found nanosPerWeek nanosPerDay nanosPerSec
    omega
  have start := instant_fixed calendar offset reference
  rw [today] at start
  have startTime := ((fixedLocal calendar offset).time reference).isLt
  constructor
  · split
    · rename_i early
      obtain ⟨dateFound,timeFound⟩ := parts_fixed calendar offset (date + skipped + 7) time
      refine ⟨?_,?_,?_⟩
      · rw [later]
        unfold nanosPerDay nanosPerSec at start startTime ⊢
        omega
      · rw [later,Local.weekday,dateFound]
        exact (weekday_week_later calendar (date + skipped)).trans same
      · rw [later,timeFound]
    · rename_i late
      obtain ⟨dateFound,timeFound⟩ := parts_fixed calendar offset (date + skipped) time
      exact ⟨by omega,by rw [Local.weekday,dateFound]; exact same,timeFound⟩
  · intro other member
    have after := member.1
    obtain ⟨weeks,place⟩ := weekly_aligned calendar offset today fits same member
    split
    · rename_i early
      rw [later]
      unfold found at early
      unfold nanosPerDay nanosPerSec at early place ⊢
      omega
    · rename_i late
      unfold found
      unfold nanosPerDay nanosPerSec at place ⊢
      omega

def Until (last : Option Int) : Set Int := {instant | ∀ bound, last = some bound → instant ≤ bound}

theorem candidate_first (reference : Int) (last : Option Int) (weekday : Weekday)
    (time : NaiveTime) :
    IsFirst (Weekly calendar offset reference weekday time ∩ Until last)
      (Schedule.candidate (fixedLocal calendar offset) reference last weekday time) := by
  obtain ⟨skipped,fits,found,same⟩ := nextWeekday_found (fixedLocal calendar offset)
    ((fixedLocal calendar offset).date reference) weekday
  have least := weekly_first calendar offset reference _ skipped weekday time rfl fits same
  simp only [Schedule.candidate,found,Option.bind_some,andTime_fixed,Option.map_some]
  cases last with
  | none =>
    apply IsFirst.congr (a := some _) least
    intro instant
    simp [Until]
  | some bound =>
    apply (IsFirst.cut least bound).congr
    intro instant
    simp [Until]

variable (s : Schedule)

theorem search_first (reference : Int) (last : Option Int) :
    IsFirst {instant | s.Occurs (fixedLocal calendar offset) instant ∧ reference ≤ instant ∧
      instant ∈ Until last} (s.search (fixedLocal calendar offset) reference last) := by
  have all : IsFirst {instant | ∃ weekday ∈ s.weekdays.val, ∃ time ∈ s.times.val,
      instant ∈ Weekly calendar offset reference weekday time ∩ Until last}
      (s.search (fixedLocal calendar offset) reference last) :=
    IsFirst.fold_both (candidate_first calendar offset reference last)
  apply all.congr
  intro instant
  simp only [Set.mem_ofPred_eq,Set.mem_inter_iff,Weekly,Schedule.Occurs]
  constructor
  · rintro ⟨weekday,member,time,scheduled,⟨after,rfl,rfl⟩,before⟩
    exact ⟨⟨member,scheduled⟩,after,before⟩
  · rintro ⟨⟨member,scheduled⟩,after,before⟩
    exact ⟨_,member,_,scheduled,⟨after,rfl,rfl⟩,before⟩

/-- What `next_run_after` computes, whatever its bounds are. -/
theorem nextRunAfter_first (reference : Int) :
    IsFirst {instant | s.Occurs (fixedLocal calendar offset) instant ∧ reference ≤ instant ∧
      s.Admits (fixedLocal calendar offset) reference instant}
      (s.nextRunAfter (fixedLocal calendar offset) reference) := by
  apply (search_first calendar offset s _ _).congr
  intro instant
  simp only [Set.mem_ofPred_eq,Schedule.Admits,Until]
  cases s.adjustedFrom (fixedLocal calendar offset) reference with
  | none => simp
  | some first =>
    dsimp only
    split <;> simp only [Option.some.injEq,forall_eq'] <;> grind

/-- At most one bound, and that one definite. -/
inductive OneBound : DateTimeBound → DateTimeBound → Prop
  | none : OneBound .none .none
  | start (first : Int) : OneBound (.definite first) .none
  | stop (last : Int) : OneBound .none (.definite last)

theorem admits_oneBound (tz : Local) {s : Schedule} (bounds : OneBound s.fromBound s.toBound)
    (reference instant : Int) : s.Admits tz reference instant ↔
      (∀ first, s.fromBound = .definite first → first ≤ instant) ∧
        ∀ last, s.toBound = .definite last → instant ≤ last := by
  obtain ⟨times,weekdays,fromBound,toBound⟩ := s
  cases bounds <;> simp [Schedule.Admits,Schedule.adjustedFrom,DateTimeBound.resolveFrom]

theorem occurs_again {instant : Int} (occurs : s.Occurs (fixedLocal calendar offset) instant)
    (reference : Int) :
    ∃ later, reference ≤ later ∧ s.Occurs (fixedLocal calendar offset) later := by
  obtain ⟨skipped,fits,_,same⟩ := nextWeekday_found (fixedLocal calendar offset)
    ((fixedLocal calendar offset).date reference) ((fixedLocal calendar offset).weekday instant)
  obtain ⟨⟨after,atWeekday,atTime⟩,_⟩ := weekly_first calendar offset reference _ skipped _
    ((fixedLocal calendar offset).time instant) rfl fits same
  refine ⟨_,after,?_⟩
  unfold Schedule.Occurs
  rw [atWeekday,atTime]
  exact occurs

theorem one_bound_exact (bounds : OneBound s.fromBound s.toBound) (reference : Int) :
    IsFirst {instant | s.Occurs (fixedLocal calendar offset) instant ∧ reference ≤ instant ∧
      (∀ first, s.fromBound = .definite first → first ≤ instant) ∧
        ∀ last, s.toBound = .definite last → instant ≤ last}
      (s.nextRunAfter (fixedLocal calendar offset) reference) := by
  apply (nextRunAfter_first calendar offset s reference).congr
  intro instant
  rw [Set.mem_ofPred_eq,Set.mem_ofPred_eq,admits_oneBound _ bounds]

end Fixed

open ChronoModel (ymdHms) in
/-- A reference on a Monday just after 9:41, with a start in the past of it. -/
theorem one_bound_exact_late :
    IsFirst {instant | (mondays (.definite (ymdHms 2016 5 1 0 0 0)) .none).Occurs
        (fixedLocal ChronoModel.calendar 0) instant ∧ ymdHms 2016 5 2 9 41 1 ≤ instant ∧
        (∀ first, DateTimeBound.definite (ymdHms 2016 5 1 0 0 0) = .definite first →
          first ≤ instant) ∧
        ∀ last, DateTimeBound.none = .definite last → instant ≤ last}
      (some (ymdHms 2016 5 9 9 41 0)) := by
  have computed : (mondays (.definite (ymdHms 2016 5 1 0 0 0)) .none).nextRunAfter
      (fixedLocal ChronoModel.calendar 0) (ymdHms 2016 5 2 9 41 1) =
      some (ymdHms 2016 5 9 9 41 0) := by decide +kernel
  rw [← computed]
  exact one_bound_exact ChronoModel.calendar 0 (mondays (.definite (ymdHms 2016 5 1 0 0 0)) .none)
    (.start _) (ymdHms 2016 5 2 9 41 1)

-- The cases of `test_schedule`.
open ChronoModel (localAt ymdHms) in
example : [ymdHms 2016 11 14 10 30 0,ymdHms 2016 11 16 10 20 0,ymdHms 2016 11 16 10 40 0].map
    ((Schedule.new [⟨37800 * nanosPerSec,by decide⟩] [.wed] .none .none).nextRunAfter
      (localAt 0)) =
    [some (ymdHms 2016 11 16 10 30 0),some (ymdHms 2016 11 16 10 30 0),
      some (ymdHms 2016 11 23 10 30 0)] := by
  decide +kernel

end Rinklers
