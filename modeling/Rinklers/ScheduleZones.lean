import Rinklers.ScheduleSearch

/-! Schedules in a zone whose offset changes. The search takes a moment of the coming week from
the calendar, but one that is already past it moves on by a week of elapsed time. -/
namespace Rinklers
open Foundation

variable (tz : Local) (s : Schedule)

/-- In any zone the search finds the first of its candidates. -/
theorem search_candidates (reference : Int) (last : Option Int) :
    IsFirst {instant | ∃ weekday ∈ s.weekdays.val, ∃ time ∈ s.times.val,
      Schedule.candidate tz reference last weekday time = some instant}
      (s.search tz reference last) :=
  IsFirst.fold_both (fun _ _ => IsFirst.of_option _)

namespace Schedule

/-- A moment that the schedule names on the next date that has its weekday, from the date of the
reference on. It may come before the reference. -/
def Named (reference instant : Int) : Prop :=
  ∃ weekday ∈ s.weekdays.val, ∃ time ∈ s.times.val, ∃ date,
    nextWeekday tz (tz.date reference) weekday = some date ∧ tz.andTime date time = some instant

/-- What a local clock shows when it shows the schedule. -/
def OnClock (naive : Int) : Prop :=
  tz.calendar.weekday (naive / nanosPerDay) ∈ s.weekdays.val ∧
    ∃ time ∈ s.times.val, (time.val : Int) = naive % nanosPerDay

/-- How much the offset changes in the week after an instant. -/
def weekShift (instant : Int) : Int :=
  tz.zone.offset (instant + nanosPerWeek) - tz.zone.offset instant

end Schedule

theorem occurs_iff (instant : Int) : s.Occurs tz instant ↔ s.OnClock tz (tz.naive instant) := by
  have positive : (0 : Int) < nanosPerDay := by decide
  have value : ((tz.time instant).val : Int) = tz.naive instant % nanosPerDay :=
    Int.toNat_of_nonneg (Int.emod_nonneg _ positive.ne')
  apply and_congr_right
  intro _
  constructor
  · intro member
    exact ⟨_,member,value⟩
  · rintro ⟨time,member,same⟩
    have equal : time = tz.time instant := Fin.ext (by omega)
    rwa [← equal]

theorem onClock_week (naive : Int) :
    s.OnClock tz (naive + nanosPerWeek) ↔ s.OnClock tz naive := by
  have day : (naive + nanosPerWeek) / nanosPerDay = naive / nanosPerDay + 7 := by
    unfold nanosPerWeek nanosPerDay nanosPerSec
    omega
  have time : (naive + nanosPerWeek) % nanosPerDay = naive % nanosPerDay := by
    unfold nanosPerWeek nanosPerDay nanosPerSec
    omega
  rw [Schedule.OnClock,day,time,weekday_week_later,Schedule.OnClock]

/-- A week of elapsed time later the local clock shows what the shift makes of it. -/
theorem occurs_week_later (instant : Int) :
    s.Occurs tz (instant + nanosPerWeek) ↔
      s.OnClock tz (tz.naive instant + Schedule.weekShift tz instant) := by
  have shown : tz.naive (instant + nanosPerWeek) =
      tz.naive instant + Schedule.weekShift tz instant + nanosPerWeek := by
    unfold Local.naive Schedule.weekShift
    omega
  rw [occurs_iff,shown,onClock_week]

theorem andTime_occurs {date instant : Int} {weekday : Weekday} {time : NaiveTime}
    (sameDay : tz.calendar.weekday date = weekday) (day : weekday ∈ s.weekdays.val)
    (listed : time ∈ s.times.val) (placed : tz.andTime date time = some instant) :
    s.Occurs tz instant := by
  have shown : tz.naive instant = date * nanosPerDay + (time.val : Int) :=
    tz.zone.single_local _ _ placed
  have bound := time.isLt
  have quotient : tz.naive instant / nanosPerDay = date := by
    rw [shown]
    unfold nanosPerDay nanosPerSec at bound ⊢
    omega
  have remainder : (time.val : Int) = tz.naive instant % nanosPerDay := by
    rw [shown]
    unfold nanosPerDay nanosPerSec at bound ⊢
    omega
  rw [occurs_iff]
  exact ⟨by rwa [quotient,sameDay],time,listed,remainder⟩

theorem named_occurs {reference instant : Int} (named : s.Named tz reference instant) :
    s.Occurs tz instant := by
  obtain ⟨weekday,day,time,listed,date,found,placed⟩ := named
  obtain ⟨skipped,_,first,same⟩ := nextWeekday_found tz (tz.date reference) weekday
  cases first.symm.trans found
  exact andTime_occurs tz s same day listed placed

theorem candidate_none (reference : Int) (weekday : Weekday) (time : NaiveTime) (instant : Int) :
    Schedule.candidate tz reference none weekday time = some instant ↔
      ∃ date named, nextWeekday tz (tz.date reference) weekday = some date ∧
        tz.andTime date time = some named ∧
        instant = if named < reference then named + nanosPerWeek else named := by
  have plain : Schedule.candidate tz reference none weekday time =
      ((nextWeekday tz (tz.date reference) weekday).bind (fun date => tz.andTime date time)).map
        (fun named => if named < reference then named + nanosPerWeek else named) := by
    unfold Schedule.candidate
    generalize Option.map _ _ = moved
    cases moved <;> rfl
  rw [plain,Option.map_eq_some_iff]
  constructor
  · rintro ⟨named,both,same⟩
    obtain ⟨date,found,placed⟩ := Option.bind_eq_some_iff.mp both
    exact ⟨date,named,found,placed,same.symm⟩
  · rintro ⟨date,named,found,placed,same⟩
    exact ⟨named,Option.bind_eq_some_iff.mpr ⟨date,found,placed⟩,same.symm⟩

section Unbounded
variable {s} (noStart : s.fromBound = .none) (noStop : s.toBound = .none)
include noStart noStop

/-- Without bounds the candidates are the moments named by the schedule, those that are past a
week later. -/
theorem unbounded_candidates (reference : Int) :
    IsFirst {instant | ∃ named, s.Named tz reference named ∧
      instant = if named < reference then named + nanosPerWeek else named}
      (s.nextRunAfter tz reference) := by
  have computed : s.nextRunAfter tz reference = s.search tz reference none := by
    simp only [Schedule.nextRunAfter,Schedule.adjustedFrom,noStart,noStop,
      DateTimeBound.resolveFrom]
  rw [computed]
  apply (search_candidates tz s reference none).congr
  intro instant
  simp only [Set.mem_ofPred_eq,candidate_none,Schedule.Named]
  constructor
  · rintro ⟨weekday,day,time,listed,date,named,found,placed,same⟩
    exact ⟨named,⟨weekday,day,time,listed,date,found,placed⟩,same⟩
  · rintro ⟨named,⟨weekday,day,time,listed,date,found,placed⟩,same⟩
    exact ⟨weekday,day,time,listed,date,named,found,placed,same⟩

/-- Runs keep their wall-clock time exactly when the earliest moment that is past, if a week after
it comes before everything still to come, is shifted onto the schedule. -/
theorem wall_clock_kept_exactly (reference : Int) :
    (∀ run, s.nextRunAfter tz reference = some run → s.Occurs tz run) ↔
      ∀ passed, s.Named tz reference passed → passed < reference →
        (∀ named, s.Named tz reference named → named < reference → passed ≤ named) →
        (∀ named, s.Named tz reference named → reference ≤ named → passed + nanosPerWeek < named) →
        s.OnClock tz (tz.naive passed + Schedule.weekShift tz passed) := by
  have first := unbounded_candidates tz noStart noStop reference
  constructor
  · intro kept passed named past earliest late
    rw [← occurs_week_later]
    apply kept
    obtain ⟨run,computed,least⟩ := first.of_mem
      (show passed + nanosPerWeek ∈ _ from ⟨passed,named,(if_pos past).symm⟩)
    rw [computed]
    congr 1
    apply le_antisymm (least.2 ⟨passed,named,(if_pos past).symm⟩)
    obtain ⟨other,otherNamed,same⟩ := least.1
    split at same
    · rename_i otherPast
      have order := earliest other otherNamed otherPast
      omega
    · rename_i ahead
      have order := late other otherNamed (not_lt.mp ahead)
      omega
  · intro shifted run computed
    rw [computed] at first
    obtain ⟨⟨named,isNamed,same⟩,least⟩ := first
    split at same
    · rename_i past
      by_cases met : ∃ other, s.Named tz reference other ∧ reference ≤ other ∧ other ≤ run
      · obtain ⟨other,otherNamed,ahead,order⟩ := met
        have notEarlier := least ⟨other,otherNamed,(if_neg (not_lt.mpr ahead)).symm⟩
        rw [le_antisymm notEarlier order]
        exact named_occurs tz s otherNamed
      · rw [same,occurs_week_later]
        apply shifted named isNamed past
        · intro other otherNamed otherPast
          have order := least ⟨other,otherNamed,(if_pos otherPast).symm⟩
          omega
        · intro other otherNamed ahead
          by_contra early
          exact met ⟨other,otherNamed,ahead,by omega⟩
    · rw [same]
      exact named_occurs tz s isNamed

end Unbounded

section SpringForward
open ChronoModel (ymdHms)

private def changeover : Int := ymdHms 2016 3 27 1 0 0

private def hour : Int := 3600 * nanosPerSec

/-- A zone that goes from UTC to an hour ahead of it at the end of March 2016. -/
private def springForward : Local where
  calendar := ChronoModel.calendar
  zone :=
    {offset := fun instant => if instant < changeover then 0 else hour
     single := fun naive =>
      if naive < changeover then some naive
      else if changeover + hour ≤ naive then some (naive - hour) else none
     single_local := by
      intro naive instant found
      split at found
      · rename_i winter
        cases found
        rw [if_pos winter,Int.add_zero]
      · split at found
        · rename_i summer
          cases found
          rw [if_neg (by omega),Int.sub_add_cancel]
        · cases found}

/-- The schedule has just run on the last Monday of winter, and the week after has an hour less. -/
theorem monday_an_hour_late : ¬ ∀ reference run,
    (mondays .none .none).nextRunAfter springForward reference = some run →
      (mondays .none .none).Occurs springForward run := by
  intro always
  have computed : (mondays .none .none).nextRunAfter springForward (ymdHms 2016 3 21 10 0 0) =
      some (ymdHms 2016 3 28 9 41 0) := by decide +kernel
  have occurs := always _ _ computed
  have late : ¬ (mondays .none .none).Occurs springForward (ymdHms 2016 3 28 9 41 0) := by
    decide +kernel
  exact late occurs

theorem wall_clock_kept_in_winter :
    (mondays .none .none).nextRunAfter springForward (ymdHms 2016 3 14 10 0 0) =
        some (ymdHms 2016 3 21 9 41 0) ∧
      (mondays .none .none).Occurs springForward (ymdHms 2016 3 21 9 41 0) := by
  have computed : (mondays .none .none).nextRunAfter springForward (ymdHms 2016 3 14 10 0 0) =
      some (ymdHms 2016 3 21 9 41 0) := by decide +kernel
  refine ⟨computed,(wall_clock_kept_exactly springForward rfl rfl _).mpr ?_ _ computed⟩
  rintro passed ⟨weekday,day,time,listed,date,found,placed⟩ _ _ _
  have days : ∀ weekday ∈ (mondays .none .none).weekdays.val, weekday = .mon := by decide
  have times : ∀ time ∈ (mondays .none .none).times.val, time.val = 34860 * nanosPerSec := by
    intro time listed
    simp only [mondays,Schedule.new,TimeSet.fromIter,Finset.mem_sort,List.mem_toFinset,
      List.mem_singleton] at listed
    rw [listed]
  have monday : nextWeekday springForward (springForward.date (ymdHms 2016 3 14 10 0 0)) .mon =
      some (ymdHms 2016 3 14 0 0 0 / nanosPerDay) := by decide +kernel
  have morning : springForward.zone.single (ymdHms 2016 3 14 0 0 0 / nanosPerDay * nanosPerDay +
      ((34860 * nanosPerSec : Nat) : Int)) = some (ymdHms 2016 3 14 9 41 0) := by decide +kernel
  cases days weekday day
  cases monday.symm.trans found
  rw [Local.andTime,times time listed] at placed
  cases morning.symm.trans placed
  rw [← occurs_week_later]
  decide +kernel

end SpringForward
end Rinklers
