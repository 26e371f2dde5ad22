import Mathlib.Algebra.Group.Int.Defs
import Mathlib.Algebra.Group.Nat.Defs
import Mathlib.Data.Int.Basic
import Mathlib.Order.Lattice
import Mathlib.Data.Prod.Lex
import Mathlib.Order.Fin.Basic

/-! What the program uses of the standard library's and of chrono's times.
`std` types are modelled as they are documented. Chrono is not part of the repository: its
durations, its calendar and the local time zone are parameters, each a structure whose
proof fields are the documented facts that the program relies on.

A `DateTime<Local>` is an `Int`, the instant in UTC nanoseconds, as which chrono compares
date-times. A `Date<Local>` is an `Int`, the number of its local day from 1 January 1970. -/
namespace Rinklers

def nanosPerSec : Nat := 1000000000

def nanosPerDay : Nat := 86400 * nanosPerSec

/-- `std::time::Duration`: a `u64` number of seconds and a sub-second part, as the total. -/
@[ext] structure Duration where
  nanos : Nat
  bound : nanos < 2 ^ 64 * nanosPerSec
deriving DecidableEq, Repr

namespace Duration

def asSecs (dur : Duration) : Nat := dur.nanos / nanosPerSec

def subsecNanos (dur : Duration) : Nat := dur.nanos % nanosPerSec

instance : LE Duration := ⟨fun a b => a.nanos ≤ b.nanos⟩

instance : LT Duration := ⟨fun a b => a.nanos < b.nanos⟩

instance (a b : Duration) : Decidable (a ≤ b) := inferInstanceAs (Decidable (a.nanos ≤ b.nanos))

instance (a b : Duration) : Decidable (a < b) := inferInstanceAs (Decidable (a.nanos < b.nanos))

theorem le_def (a b : Duration) : a ≤ b ↔ a.nanos ≤ b.nanos := Iff.rfl

def sub (a b : Duration) : Duration := ⟨a.nanos - b.nanos,by have := a.bound; omega⟩

end Duration

@[ext] structure Instant where
  nanos : Nat
  bound : nanos < 2 ^ 63 * nanosPerSec
deriving DecidableEq, Repr

instance : LE Instant := ⟨fun a b => a.nanos ≤ b.nanos⟩

theorem Instant.le_def (a b : Instant) : a ≤ b ↔ a.nanos ≤ b.nanos := Iff.rfl

def Instant.elapsed (start now : Instant) : Duration :=
  ⟨now.nanos - start.nanos,by have := now.bound; omega⟩

abbrev NaiveTime := Fin nanosPerDay

inductive Weekday
  | mon | tue | wed | thu | fri | sat | sun
deriving DecidableEq, Repr

namespace Weekday

def succ : Weekday → Weekday
  | .mon => .tue
  | .tue => .wed
  | .wed => .thu
  | .thu => .fri
  | .fri => .sat
  | .sat => .sun
  | .sun => .mon

def numDaysFromMonday : Weekday → Nat
  | .mon => 0
  | .tue => 1
  | .wed => 2
  | .thu => 3
  | .fri => 4
  | .sat => 5
  | .sun => 6

def fromU32 : Nat → Option Weekday
  | 0 => some .mon
  | 1 => some .tue
  | 2 => some .wed
  | 3 => some .thu
  | 4 => some .fri
  | 5 => some .sat
  | 6 => some .sun
  | _ => none

end Weekday

def CDuration.maxNanos : Int := (2 ^ 63 - 1) * 1000000

def CDuration.minNanos : Int := -2 ^ 63 * 1000000

/-- The lengths that have an `i64` count of milliseconds whichever their sign. The shortest
`chrono::Duration` is not one of them: there is no such count of its opposite, and chrono, asked for
it, panics or, in a release build, wraps around. -/
def CDuration.Countable (nanos : Int) : Prop :=
  -CDuration.maxNanos ≤ nanos ∧ nanos ≤ CDuration.maxNanos

/-- `chrono::Duration` as the program uses it; `nanos` is the length a duration stands for.
The constructors from a count of units panic, here `none`, when the result is out of bounds. -/
structure CDuration where
  Carrier : Type
  nanos : Carrier → Int
  eq_of_nanos : ∀ a b, nanos a = nanos b → a = b
  zero : Carrier
  nanos_zero : nanos zero = 0
  isZero : Carrier → Bool
  isZero_iff : ∀ dur, isZero dur = true ↔ nanos dur = 0
  lt : Carrier → Carrier → Bool
  lt_iff : ∀ a b, lt a b = true ↔ nanos a < nanos b
  neg : Carrier → Carrier
  nanos_neg : ∀ dur, CDuration.Countable (nanos dur) → nanos (neg dur) = -nanos dur
  numWeeks : Carrier → Int
  numWeeks_eq : ∀ dur, CDuration.Countable (nanos dur) →
    numWeeks dur = (nanos dur).tdiv (7 * nanosPerDay)
  numDays : Carrier → Int
  numDays_eq : ∀ dur, CDuration.Countable (nanos dur) → numDays dur = (nanos dur).tdiv nanosPerDay
  numHours : Carrier → Int
  numHours_eq : ∀ dur, CDuration.Countable (nanos dur) →
    numHours dur = (nanos dur).tdiv (3600 * nanosPerSec)
  numMinutes : Carrier → Int
  numMinutes_eq : ∀ dur, CDuration.Countable (nanos dur) →
    numMinutes dur = (nanos dur).tdiv (60 * nanosPerSec)
  numSeconds : Carrier → Int
  numSeconds_eq : ∀ dur, CDuration.Countable (nanos dur) →
    numSeconds dur = (nanos dur).tdiv nanosPerSec
  numMilliseconds : Carrier → Int
  numMilliseconds_eq : ∀ dur, CDuration.Countable (nanos dur) →
    numMilliseconds dur = (nanos dur).tdiv 1000000
  numMicroseconds : Carrier → Option Int
  numMicroseconds_eq : ∀ dur, CDuration.Countable (nanos dur) → numMicroseconds dur =
    if -2 ^ 63 ≤ (nanos dur).tdiv 1000 ∧ (nanos dur).tdiv 1000 < 2 ^ 63
    then some ((nanos dur).tdiv 1000) else none
  numNanoseconds : Carrier → Option Int
  numNanoseconds_eq : ∀ dur, CDuration.Countable (nanos dur) → numNanoseconds dur =
    if -2 ^ 63 ≤ nanos dur ∧ nanos dur < 2 ^ 63 then some (nanos dur) else none
  weeks : Int → Option Carrier
  weeks_isSome : ∀ n, (weeks n).isSome = true ↔
    CDuration.minNanos ≤ n * (7 * nanosPerDay) ∧ n * (7 * nanosPerDay) ≤ CDuration.maxNanos
  nanos_weeks : ∀ n dur, weeks n = some dur → nanos dur = n * (7 * nanosPerDay)
  days : Int → Option Carrier
  days_isSome : ∀ n, (days n).isSome = true ↔
    CDuration.minNanos ≤ n * nanosPerDay ∧ n * nanosPerDay ≤ CDuration.maxNanos
  nanos_days : ∀ n dur, days n = some dur → nanos dur = n * nanosPerDay
  hours : Int → Option Carrier
  hours_isSome : ∀ n, (hours n).isSome = true ↔
    CDuration.minNanos ≤ n * (3600 * nanosPerSec) ∧ n * (3600 * nanosPerSec) ≤ CDuration.maxNanos
  nanos_hours : ∀ n dur, hours n = some dur → nanos dur = n * (3600 * nanosPerSec)
  minutes : Int → Option Carrier
  minutes_isSome : ∀ n, (minutes n).isSome = true ↔
    CDuration.minNanos ≤ n * (60 * nanosPerSec) ∧ n * (60 * nanosPerSec) ≤ CDuration.maxNanos
  nanos_minutes : ∀ n dur, minutes n = some dur → nanos dur = n * (60 * nanosPerSec)
  seconds : Int → Option Carrier
  seconds_isSome : ∀ n, (seconds n).isSome = true ↔
    CDuration.minNanos ≤ n * nanosPerSec ∧ n * nanosPerSec ≤ CDuration.maxNanos
  nanos_seconds : ∀ n dur, seconds n = some dur → nanos dur = n * nanosPerSec
  milliseconds : Int → Carrier
  nanos_milliseconds : ∀ n, nanos (milliseconds n) = n * 1000000
  microseconds : Int → Carrier
  nanos_microseconds : ∀ n, nanos (microseconds n) = n * 1000
  nanoseconds : Int → Carrier
  nanos_nanoseconds : ∀ n, nanos (nanoseconds n) = n
  add : Carrier → Carrier → Carrier
  nanos_add : ∀ a b, CDuration.minNanos ≤ nanos a + nanos b →
    nanos a + nanos b ≤ CDuration.maxNanos → nanos (add a b) = nanos a + nanos b
  fromStd : Duration → Option Carrier
  fromStd_isSome : ∀ dur, (fromStd dur).isSome = true ↔ (dur.nanos : Int) ≤ CDuration.maxNanos
  nanos_fromStd : ∀ dur result, fromStd dur = some result → nanos result = dur.nanos
  toStd : Carrier → Option Duration
  toStd_isSome : ∀ dur, nanos dur ≤ CDuration.maxNanos →
    ((toStd dur).isSome = true ↔ 0 ≤ nanos dur)
  nanos_toStd : ∀ dur result, toStd dur = some result → (result.nanos : Int) = nanos dur
  between : Int → Int → Carrier
  nanos_between : ∀ a b, nanos (between a b) = a - b

/-- Chrono's date-times are those of the years -262144 to 262143. -/
def InCalendar (instant : Int) : Prop :=
  -8334632851200 * nanosPerSec ≤ instant ∧ instant < 8210298412800 * nanosPerSec

instance (instant : Int) : Decidable (InCalendar instant) := inferInstanceAs (Decidable (_ ∧ _))

theorem InCalendar.sub_le_maxNanos {a b : Int} (later : InCalendar a) (earlier : InCalendar b) :
    a - b ≤ CDuration.maxNanos := by
  unfold InCalendar nanosPerSec at later earlier
  unfold CDuration.maxNanos
  omega

/-- Chrono's proleptic Gregorian calendar, on day numbers. -/
structure Calendar where
  year : Int → Int
  month : Int → Nat
  day : Int → Nat
  weekday : Int → Weekday
  withYear : Int → Int → Option Int
  weekday_succ : ∀ date, weekday (date + 1) = (weekday date).succ
  lt_iff : ∀ a b, a < b ↔ year a < year b ∨ year a = year b ∧
    (month a < month b ∨ month a = month b ∧ day a < day b)
  withYear_some : ∀ date y moved, withYear date y = some moved →
    year moved = y ∧ month moved = month date ∧ day moved = day date
  withYear_none : ∀ date y, withYear date y = none → month date = 2 ∧ day date = 29

/-- A local time zone: the UTC offset in force at each instant, and the instant that
`from_local_datetime(..).single()` picks for a local date and time, where there is just one. That
its local time is the one asked for is documented, and assumed here. Chrono 0.2.25 breaks it in one
case: for a local time that a change of the offset skips, its `Local` answers with an instant of
another local time instead of with none. -/
structure TimeZone where
  offset : Int → Int
  single : Int → Option Int
  single_local : ∀ naive instant, single naive = some instant →
    instant + offset instant = naive

def TimeZone.fixed (offset : Int) : TimeZone where
  offset _ := offset
  single naive := some (naive - offset)
  single_local := by
    intro naive instant found
    cases Option.some.inj found
    exact Int.sub_add_cancel naive offset

structure Local where
  calendar : Calendar
  zone : TimeZone

namespace Local
variable (tz : Local)

/-- Local wall-clock nanoseconds since the local midnight that starts 1 January 1970. -/
def naive (instant : Int) : Int := instant + tz.zone.offset instant

def date (instant : Int) : Int := tz.naive instant / nanosPerDay

def time (instant : Int) : NaiveTime :=
  ⟨(tz.naive instant % nanosPerDay).toNat,by unfold nanosPerDay nanosPerSec; omega⟩

def andTime (date : Int) (time : NaiveTime) : Option Int :=
  tz.zone.single (date * nanosPerDay + (time.val : Int))

def year (instant : Int) : Int := tz.calendar.year (tz.date instant)

def weekday (instant : Int) : Weekday := tz.calendar.weekday (tz.date instant)

def withYear (instant : Int) (year : Int) : Option Int :=
  (tz.calendar.withYear (tz.date instant) year).bind (fun date => tz.andTime date (tz.time instant))

def leapDay (instant : Int) : Prop :=
  tz.calendar.month (tz.date instant) = 2 ∧ tz.calendar.day (tz.date instant) = 29

end Local

end Rinklers
