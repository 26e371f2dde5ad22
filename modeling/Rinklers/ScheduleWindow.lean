import Rinklers.ScheduleZones

/-! What holds of the next run in every zone and between any bounds: it lies ahead, inside the
bounds and not far off, and a schedule made of two others runs when the first of them does. -/
namespace Rinklers
open Foundation

variable (tz : Local) (s : Schedule)

namespace Schedule

/-- From where the search goes on: the reference, or the start where that is later. -/
def searchedFrom (reference : Int) : Int :=
  match s.adjustedFrom tz reference with
  | some first => if first > reference then first else reference
  | none => reference

theorem nextRunAfter_eq (reference : Int) : s.nextRunAfter tz reference =
    s.search tz (s.searchedFrom tz reference) (s.toBound.resolveFrom tz reference) := rfl

theorem le_searchedFrom (reference : Int) : reference ≤ s.searchedFrom tz reference := by
  unfold searchedFrom
  cases s.adjustedFrom tz reference with
  | none => exact le_rfl
  | some first =>
    by_cases later : first > reference
    · exact (if_pos later).ge.trans' later.le
    · exact (if_neg later).ge

theorem adjustedFrom_le {reference first : Int} (start : s.adjustedFrom tz reference = some first) :
    first ≤ s.searchedFrom tz reference := by
  unfold searchedFrom
  rw [start]
  by_cases later : first > reference
  · exact (if_pos later).ge
  · exact (if_neg later).ge.trans' (not_lt.mp later)

theorem searchedFrom_congr {t : Schedule} (starts : s.fromBound = t.fromBound)
    (stops : s.toBound = t.toBound) (reference : Int) :
    s.searchedFrom tz reference = t.searchedFrom tz reference := by
  unfold searchedFrom adjustedFrom
  rw [starts,stops]

def Names (weekday : Weekday) (time : NaiveTime) : Prop :=
  weekday ∈ s.weekdays.val ∧ time ∈ s.times.val

end Schedule

theorem candidate_stop (reference last : Int) (weekday : Weekday) (time : NaiveTime) :
    Schedule.candidate tz reference (some last) weekday time =
      (Schedule.candidate tz reference none weekday time).filter (fun date => date ≤ last) := by
  unfold Schedule.candidate
  generalize Option.map _ _ = moved
  cases moved with
  | none => rfl
  | some moved =>
    change (if moved > last then none else some moved) = Option.filter _ (some moved)
    by_cases late : moved > last
    · rw [if_pos late,Option.filter_some_neg (by simpa using late)]
    · rw [if_neg late,Option.filter_some_pos (by simpa using late)]

/-- A candidate is a named moment, a week later if it is past, and not past the stop. -/
theorem candidate_some {reference : Int} {last : Option Int} {weekday : Weekday} {time : NaiveTime}
    {instant : Int} (found : Schedule.candidate tz reference last weekday time = some instant) :
    (∃ date named, nextWeekday tz (tz.date reference) weekday = some date ∧
      tz.andTime date time = some named ∧
      instant = if named < reference then named + nanosPerWeek else named) ∧
    ∀ bound, last = some bound → instant ≤ bound := by
  cases last with
  | none => exact ⟨(candidate_none tz reference weekday time instant).mp found,by simp⟩
  | some last =>
    rw [candidate_stop,Option.filter_eq_some_iff] at found
    obtain ⟨plain,early⟩ := found
    refine ⟨(candidate_none tz reference weekday time instant).mp plain,?_⟩
    intro bound same
    cases same
    exact of_decide_eq_true early

/-- Offsets are less than a day, as chrono has them. -/
def OffsetsInDay : Prop :=
  ∀ instant, -nanosPerDay < tz.zone.offset instant ∧ tz.zone.offset instant < nanosPerDay

variable {tz} in
theorem candidate_near (offsets : OffsetsInDay tz) {reference : Int} {last : Option Int}
    {weekday : Weekday} {time : NaiveTime} {instant : Int}
    (found : Schedule.candidate tz reference last weekday time = some instant) :
    reference ≤ instant ∧ instant < reference + 9 * nanosPerDay := by
  obtain ⟨⟨date,named,next,placed,same⟩,_⟩ := candidate_some tz found
  obtain ⟨skipped,few,first,_⟩ := nextWeekday_found tz (tz.date reference) weekday
  cases first.symm.trans next
  have shown : named + tz.zone.offset named = _ := tz.zone.single_local _ _ placed
  have here := offsets reference
  have there := offsets named
  have today : tz.date reference = (reference + tz.zone.offset reference) / nanosPerDay := rfl
  have bound := time.isLt
  rw [today] at shown
  unfold nanosPerWeek at same
  unfold nanosPerDay nanosPerSec at *
  by_cases past : named < reference
  · rw [if_pos past] at same
    omega
  · rw [if_neg past] at same
    omega

/-- The next run lies ahead, and between the bounds as they are resolved; it is found within nine
days of where the search starts: a week, and what the offsets can make of it. -/
theorem next_run_near (offsets : OffsetsInDay tz) {reference run : Int}
    (found : s.nextRunAfter tz reference = some run) :
    reference ≤ run ∧ s.Admits tz reference run ∧
      run < s.searchedFrom tz reference + 9 * nanosPerDay := by
  have first := search_candidates tz s (s.searchedFrom tz reference)
    (s.toBound.resolveFrom tz reference)
  rw [← s.nextRunAfter_eq,found] at first
  obtain ⟨weekday,day,time,listed,candidate⟩ := first.1
  obtain ⟨ahead,near⟩ := candidate_near offsets candidate
  refine ⟨(s.le_searchedFrom tz reference).trans ahead,⟨?_,(candidate_some tz candidate).2⟩,near⟩
  intro start adjusted
  exact (s.adjustedFrom_le tz adjusted).trans ahead

open ChronoModel (localAt ymdHms) in
theorem next_run_near_next_week : ymdHms 2016 5 2 9 41 1 ≤ ymdHms 2016 5 9 9 41 0 ∧
    ymdHms 2016 5 9 9 41 0 < (mondays .none .none).searchedFrom (localAt 0)
      (ymdHms 2016 5 2 9 41 1) + 9 * nanosPerDay := by
  have computed : (mondays .none .none).nextRunAfter (localAt 0) (ymdHms 2016 5 2 9 41 1) =
      some (ymdHms 2016 5 9 9 41 0) := by decide +kernel
  have near := next_run_near (localAt 0) (mondays .none .none)
    (fun _ => ⟨(by decide : -(nanosPerDay : Int) < 0),(by decide : (0 : Int) < nanosPerDay)⟩)
    computed
  exact ⟨near.1,near.2.2⟩

/-- A schedule that names what two others name runs when the first of them does. -/
theorem next_run_joins {s t u : Schedule}
    (starts : s.fromBound = u.fromBound ∧ t.fromBound = u.fromBound)
    (stops : s.toBound = u.toBound ∧ t.toBound = u.toBound)
    (names : ∀ weekday time,
      u.Names weekday time ↔ s.Names weekday time ∨ t.Names weekday time) (reference : Int) :
    u.nextRunAfter tz reference =
      earlier (s.nextRunAfter tz reference) (t.nextRunAfter tz reference) := by
  have both := (search_candidates tz s (u.searchedFrom tz reference)
    (u.toBound.resolveFrom tz reference)).union
      (search_candidates tz t (u.searchedFrom tz reference) (u.toBound.resolveFrom tz reference))
  rw [s.nextRunAfter_eq,t.nextRunAfter_eq,u.nextRunAfter_eq,stops.1,stops.2,
    s.searchedFrom_congr tz starts.1 stops.1,t.searchedFrom_congr tz starts.2 stops.2]
  apply (search_candidates tz u _ _).unique
  apply both.congr
  intro instant
  constructor
  · rintro (⟨weekday,day,time,listed,candidate⟩ | ⟨weekday,day,time,listed,candidate⟩)
    · obtain ⟨day,listed⟩ := (names weekday time).mpr (.inl ⟨day,listed⟩)
      exact ⟨weekday,day,time,listed,candidate⟩
    · obtain ⟨day,listed⟩ := (names weekday time).mpr (.inr ⟨day,listed⟩)
      exact ⟨weekday,day,time,listed,candidate⟩
  · rintro ⟨weekday,day,time,listed,candidate⟩
    rcases (names weekday time).mp ⟨day,listed⟩ with ⟨day,listed⟩ | ⟨day,listed⟩
    · exact .inl ⟨weekday,day,time,listed,candidate⟩
    · exact .inr ⟨weekday,day,time,listed,candidate⟩

private def wednesdays : Schedule :=
  {mondays .none .none with weekdays := WeekdaySet.fromIter [.wed]}

private def mondaysAndWednesdays : Schedule :=
  {mondays .none .none with weekdays := WeekdaySet.fromIter [.mon,.wed]}

open ChronoModel (localAt ymdHms) in
theorem next_run_joins_two_days :
    mondaysAndWednesdays.nextRunAfter (localAt 0) (ymdHms 2016 5 3 0 0 0) =
      earlier ((mondays .none .none).nextRunAfter (localAt 0) (ymdHms 2016 5 3 0 0 0))
        (wednesdays.nextRunAfter (localAt 0) (ymdHms 2016 5 3 0 0 0)) := by
  have names (weekday : Weekday) (time : NaiveTime) : mondaysAndWednesdays.Names weekday time ↔
      (mondays .none .none).Names weekday time ∨ wednesdays.Names weekday time := by
    simp only [Schedule.Names,mondays,wednesdays,mondaysAndWednesdays,Schedule.new,
      WeekdaySet.fromIter,TimeSet.fromIter,List.mem_dedup,Finset.mem_sort,List.mem_toFinset,
      List.mem_cons,List.not_mem_nil,or_false]
    exact or_and_right
  have bounds : (mondays .none .none).fromBound = mondaysAndWednesdays.fromBound ∧
      wednesdays.fromBound = mondaysAndWednesdays.fromBound := ⟨rfl,rfl⟩
  have stops : (mondays .none .none).toBound = mondaysAndWednesdays.toBound ∧
      wednesdays.toBound = mondaysAndWednesdays.toBound := ⟨rfl,rfl⟩
  exact next_run_joins (localAt 0) bounds stops names (ymdHms 2016 5 3 0 0 0)

end Rinklers
