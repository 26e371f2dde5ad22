import Rinklers.ChronoModel
import Rinklers.Foundation.First
import Mathlib.Data.Finset.Sort

/-! `schedule.rs`: when an event runs next. The weekdays of a schedule are a hash set, whose
order of iteration is arbitrary: here a list in that order, and nothing depends on it. -/
namespace Rinklers
open Foundation

abbrev TimeSet := {times : List NaiveTime // times.Pairwise (· < ·)}

def TimeSet.fromIter (times : List NaiveTime) : TimeSet :=
  ⟨times.toFinset.sort,times.toFinset.sortedLT_sort.pairwise⟩

/-- A set of days of the week, in the order in which the `HashSet` happens to iterate. -/
abbrev WeekdaySet := {weekdays : List Weekday // weekdays.Nodup}

def WeekdaySet.fromIter (weekdays : List Weekday) : WeekdaySet :=
  ⟨weekdays.dedup,weekdays.nodup_dedup⟩

inductive DateTimeBound
  | none
  | yearly (dateTime : Int)
  | definite (dateTime : Int)
deriving DecidableEq, Repr

structure Schedule where
  times : TimeSet
  weekdays : WeekdaySet
  fromBound : DateTimeBound
  toBound : DateTimeBound
deriving DecidableEq

def Schedule.new (times : List NaiveTime) (weekdays : List Weekday)
    (fromBound toBound : DateTimeBound) : Schedule :=
  ⟨TimeSet.fromIter times,WeekdaySet.fromIter weekdays,fromBound,toBound⟩

/-- Mondays at 9:41, as the repository's `config.json` has it, between two bounds. -/
def mondays (fromBound toBound : DateTimeBound) : Schedule :=
  Schedule.new [⟨34860 * nanosPerSec,by decide⟩] [.mon] fromBound toBound

variable (tz : Local)

/-- Resolves this bound into an optional date-time; `date` is the reference that is used to
resolve a `yearly` bound. -/
def DateTimeBound.resolveFrom (bound : DateTimeBound) (date : Int) : Option Int :=
  match bound with
  | .none => .none
  | .yearly dateTime => tz.withYear dateTime (tz.year date)
  | .definite dateTime => some dateTime

def nextWeekdayLoop (weekday : Weekday) : Nat → Int → Option Int
  | 0, _ => none
  | rounds + 1, date =>
    if tz.calendar.weekday date ≠ weekday then nextWeekdayLoop weekday rounds (date + 1)
    else some date

/-- Gets the next date matching the `weekday` after `date`; seven rounds always suffice. -/
def nextWeekday (date : Int) (weekday : Weekday) : Option Int :=
  nextWeekdayLoop tz weekday 7 date

def nanosPerWeek : Nat := 7 * nanosPerDay

namespace Schedule

def candidate (reference : Int) (last : Option Int) (weekday : Weekday) (time : NaiveTime) :
    Option Int :=
  let date := ((nextWeekday tz (tz.date reference) weekday).bind
    (fun date => tz.andTime date time)).map
      (fun date => if date < reference then date + nanosPerWeek else date)
  match date, last with
  | some date, some last => if date > last then none else some date
  | date, _ => date

def search (s : Schedule) (reference : Int) (last : Option Int) : Option Int :=
  s.weekdays.val.foldl
    (fun best weekday => s.times.val.foldl
      (fun best time => earlier best (candidate tz reference last weekday time)) best) none

/-- The `from` bound, adjusted to the next year where the `to` bound is later. -/
def adjustedFrom (s : Schedule) (reference : Int) : Option Int :=
  match s.fromBound.resolveFrom tz reference, s.toBound.resolveFrom tz reference with
  | some first, some last =>
    if first < last then tz.withYear first (tz.year first + 1) else some first
  | first, _ => first

def nextRunAfter (s : Schedule) (reference : Int) : Option Int :=
  let last := s.toBound.resolveFrom tz reference
  let reference := match s.adjustedFrom tz reference with
    | some first => if first > reference then first else reference
    | none => reference
  s.search tz reference last

def Occurs (s : Schedule) (instant : Int) : Prop :=
  tz.weekday instant ∈ s.weekdays.val ∧ tz.time instant ∈ s.times.val

instance (s : Schedule) (instant : Int) : Decidable (s.Occurs tz instant) :=
  inferInstanceAs (Decidable (_ ∧ _))

/-- The bounds, resolved for `reference` the way `nextRunAfter` does it, admit `instant`. -/
def Admits (s : Schedule) (reference instant : Int) : Prop :=
  (∀ first, s.adjustedFrom tz reference = some first → first ≤ instant) ∧
    ∀ last, s.toBound.resolveFrom tz reference = some last → instant ≤ last

end Schedule

/-! A zone with a fixed offset: dates and times are quotient and remainder of the instant. -/
section Fixed
variable (calendar : Calendar) (offset : Int)

def fixedLocal : Local := ⟨calendar,TimeZone.fixed offset⟩

theorem date_fixed (instant : Int) :
    (fixedLocal calendar offset).date instant = (instant + offset) / nanosPerDay := rfl

theorem time_fixed (instant : Int) :
    (((fixedLocal calendar offset).time instant).val : Int) = (instant + offset) % nanosPerDay := by
  have positive : (0 : Int) < nanosPerDay := by decide
  exact Int.toNat_of_nonneg (Int.emod_nonneg _ positive.ne')

theorem andTime_fixed (date : Int) (time : NaiveTime) :
    (fixedLocal calendar offset).andTime date time =
      some (date * nanosPerDay + (time.val : Int) - offset) := rfl

theorem instant_fixed (instant : Int) :
    instant = (fixedLocal calendar offset).date instant * nanosPerDay +
      (((fixedLocal calendar offset).time instant).val : Int) - offset := by
  rw [date_fixed,time_fixed]
  have parts := Int.mul_ediv_add_emod (instant + offset) nanosPerDay
  rw [Int.mul_comm] at parts
  omega

theorem parts_fixed (date : Int) (time : NaiveTime) :
    (fixedLocal calendar offset).date (date * nanosPerDay + (time.val : Int) - offset) = date ∧
      (fixedLocal calendar offset).time (date * nanosPerDay + (time.val : Int) - offset) = time := by
  have bound := time.isLt
  constructor
  · rw [date_fixed]
    unfold nanosPerDay nanosPerSec at bound ⊢
    omega
  · apply Fin.ext
    have value := time_fixed calendar offset (date * nanosPerDay + (time.val : Int) - offset)
    unfold nanosPerDay nanosPerSec at bound value ⊢
    omega

end Fixed
end Rinklers
