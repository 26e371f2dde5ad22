import Rinklers.Chrono
import Mathlib.Tactic.IntervalCases

/-! The real calendar, zone and durations satisfy what `Rinklers.Chrono` asks of them: the
proleptic Gregorian calendar on day numbers, zones with a fixed offset, and chrono durations
as integral numbers of nanoseconds. -/
namespace Rinklers.ChronoModel

def isLeap (y : Int) : Bool := y % 4 = 0 && (y % 100 ≠ 0 || y % 400 = 0)

/-- The day number of 1 January; 719162 days lie between the years 1 and 1970. -/
def yearStart (y : Int) : Int :=
  365 * (y - 1) + (y - 1) / 4 - (y - 1) / 100 + (y - 1) / 400 - 719162

def yearLength (leap : Bool) : Nat := if leap then 366 else 365

theorem yearStart_succ (y : Int) : yearStart (y + 1) = yearStart y + yearLength (isLeap y) := by
  by_cases leap : isLeap y = true
  · simp only [leap,yearLength,if_true,yearStart]
    simp only [isLeap,Bool.and_eq_true,Bool.or_eq_true,decide_eq_true_eq] at leap
    omega
  · simp only [leap,yearLength,yearStart]
    simp only [isLeap,Bool.and_eq_true,Bool.or_eq_true,decide_eq_true_eq] at leap
    simp
    omega

/-- The year of a day: the mean length of a year gives it up to one. -/
def year (date : Int) : Int :=
  let guess := (400 * (date + 719162)) / 146097 + 1
  if date < yearStart guess then guess - 1
  else if yearStart (guess + 1) ≤ date then guess + 1
  else guess

theorem year_bounds (date : Int) :
    yearStart (year date) ≤ date ∧ date < yearStart (year date + 1) := by
  have guessed : yearStart ((400 * (date + 719162)) / 146097) ≤ date ∧
      date < yearStart ((400 * (date + 719162)) / 146097 + 3) := by
    simp only [yearStart]
    omega
  unfold year
  dsimp only
  split
  · rename_i early
    rw [Int.add_sub_cancel]
    exact ⟨guessed.1,early⟩
  · rename_i late
    split
    · rename_i later
      refine ⟨later,?_⟩
      rw [Int.add_assoc,Int.add_assoc]
      exact guessed.2
    · rename_i inside
      exact ⟨by omega,by omega⟩

theorem yearStart_mono {a b : Int} (before : a < b) : yearStart (a + 1) ≤ yearStart b := by
  simp only [yearStart]
  omega

theorem year_unique {date y : Int} (low : yearStart y ≤ date) (high : date < yearStart (y + 1)) :
    year date = y := by
  obtain ⟨start,stop⟩ := year_bounds date
  rcases lt_trichotomy (year date) y with before | same | after
  · have := yearStart_mono before
    omega
  · exact same
  · have := yearStart_mono after
    omega

def ordinal (date : Int) : Nat := (date - yearStart (year date)).toNat

theorem ordinal_lt (date : Int) : ordinal date < yearLength (isLeap (year date)) := by
  have bounds := year_bounds date
  rw [yearStart_succ] at bounds
  unfold ordinal
  omega

theorem ordinal_add (date : Int) : yearStart (year date) + (ordinal date : Int) = date := by
  have bounds := year_bounds date
  unfold ordinal
  omega

def monthLengths (leap : Bool) : List Nat :=
  [31,if leap then 29 else 28,31,30,31,30,31,31,30,31,30,31]

private def countMonths : List Nat → Nat → Nat → Nat × Nat
  | [], month, days => (month,days + 1)
  | length::rest, month, days =>
    if days < length then (month,days + 1) else countMonths rest (month + 1) (days - length)

def monthDay (leap : Bool) (days : Nat) : Nat × Nat := countMonths (monthLengths leap) 1 days

def dayOfYear (leap : Bool) (month day : Nat) : Nat :=
  ((monthLengths leap).take (month - 1)).sum + (day - 1)

private def Earlier (a b : Nat × Nat) : Prop := a.1 < b.1 ∨ a.1 = b.1 ∧ a.2 < b.2

private instance (a b : Nat × Nat) : Decidable (Earlier a b) :=
  inferInstanceAs (Decidable (_ ∨ _ ∧ _))

private theorem monthDay_succ : ∀ leap : Bool, ∀ days < 365, days + 1 < yearLength leap →
    Earlier (monthDay leap days) (monthDay leap (days + 1)) := by
  decide +kernel

private theorem monthDay_mono (leap : Bool) (first second : Nat) (before : first < second)
    (inside : second < yearLength leap) : Earlier (monthDay leap first) (monthDay leap second) := by
  have short : yearLength leap ≤ 366 := by cases leap <;> decide
  induction second with
  | zero => omega
  | succ second ih =>
    have last := monthDay_succ leap second (by omega) inside
    rcases Nat.lt_succ_iff_lt_or_eq.mp before with earlier | rfl
    · have head := ih earlier (by omega)
      unfold Earlier at head last ⊢
      omega
    · exact last

private theorem monthDay_dayOfYear : ∀ leap other : Bool, ∀ days < 366, days < yearLength leap →
    ((monthDay leap days).1 = 2 ∧ (monthDay leap days).2 = 29 ∧ other = false) ∨
    (dayOfYear other (monthDay leap days).1 (monthDay leap days).2 < yearLength other ∧
      monthDay other (dayOfYear other (monthDay leap days).1 (monthDay leap days).2) =
        monthDay leap days) := by
  decide +kernel

def month (date : Int) : Nat := (monthDay (isLeap (year date)) (ordinal date)).1

def day (date : Int) : Nat := (monthDay (isLeap (year date)) (ordinal date)).2

def withYear (date y : Int) : Option Int :=
  if month date = 2 ∧ day date = 29 ∧ isLeap y = false then none
  else some (yearStart y + dayOfYear (isLeap y) (month date) (day date))

def weekday (date : Int) : Weekday := (Weekday.fromU32 ((date + 3) % 7).toNat).getD .mon

theorem weekday_succ (date : Int) : weekday (date + 1) = (weekday date).succ := by
  have low : 0 ≤ (date + 3) % 7 := Int.emod_nonneg _ (by decide)
  have high : (date + 3) % 7 < 7 := Int.emod_lt_of_pos _ (by decide)
  have next : (date + 1 + 3) % 7 = ((date + 3) % 7 + 1) % 7 := by omega
  unfold weekday
  rw [next]
  generalize (date + 3) % 7 = residue at low high
  interval_cases residue <;> rfl

theorem withYear_some (date y moved : Int) (found : withYear date y = some moved) :
    year moved = y ∧ month moved = month date ∧ day moved = day date := by
  unfold withYear at found
  split at found
  · contradiction
  · rename_i allowed
    have short : yearLength (isLeap (year date)) ≤ 366 := by cases isLeap (year date) <;> decide
    have inside := ordinal_lt date
    obtain ⟨fits,back⟩ := (monthDay_dayOfYear (isLeap (year date)) (isLeap y) (ordinal date)
      (by omega) inside).resolve_left allowed
    have place := Option.some.inj found
    change dayOfYear (isLeap y) (month date) (day date) < yearLength (isLeap y) at fits
    have same : year moved = y := by
      apply year_unique
      · omega
      · rw [yearStart_succ]
        omega
    have days : ordinal moved = dayOfYear (isLeap y) (month date) (day date) := by
      unfold ordinal
      rw [same]
      omega
    have parts : monthDay (isLeap (year moved)) (ordinal moved) =
        monthDay (isLeap (year date)) (ordinal date) := by
      rw [same,days]
      exact back
    exact ⟨same,congrArg Prod.fst parts,congrArg Prod.snd parts⟩

theorem withYear_none (date y : Int) (missing : withYear date y = none) :
    month date = 2 ∧ day date = 29 := by
  unfold withYear at missing
  split at missing
  · rename_i leap
    exact ⟨leap.1,leap.2.1⟩
  · contradiction

private theorem same_year_lt (a b : Int) (same : year a = year b) :
    a < b ↔ Earlier (month a,day a) (month b,day b) := by
  have first := ordinal_add a
  have second := ordinal_add b
  have insideA := ordinal_lt a
  have insideB := ordinal_lt b
  unfold month day
  rw [same] at first insideA ⊢
  rcases lt_trichotomy (ordinal a) (ordinal b) with before | equal | after
  · exact iff_of_true (by omega) (monthDay_mono _ _ _ before insideB)
  · rw [equal]
    refine iff_of_false (by omega) ?_
    unfold Earlier
    omega
  · have reversed := monthDay_mono _ _ _ after insideA
    refine iff_of_false (by omega) ?_
    unfold Earlier at reversed ⊢
    omega

theorem lt_iff (a b : Int) : a < b ↔ year a < year b ∨ year a = year b ∧
    (month a < month b ∨ month a = month b ∧ day a < day b) := by
  have boundsA := year_bounds a
  have boundsB := year_bounds b
  rcases lt_trichotomy (year a) (year b) with before | same | after
  · have apart := yearStart_mono before
    exact iff_of_true (by omega) (Or.inl before)
  · rw [same_year_lt a b same]
    simp only [same,lt_irrefl,false_or,true_and]
    rfl
  · have apart := yearStart_mono after
    exact iff_of_false (by omega) (by omega)

def calendar : Calendar where
  year := year
  month := month
  day := day
  weekday := weekday
  withYear := withYear
  weekday_succ := weekday_succ
  lt_iff := lt_iff
  withYear_some := withYear_some
  withYear_none := withYear_none

def localAt (offset : Int) : Local := ⟨calendar,TimeZone.fixed offset⟩

def ymdHms (y : Int) (month day hour minute second : Nat) : Int :=
  (yearStart y + dayOfYear (isLeap y) month day) * nanosPerDay +
    ((hour * 3600 + minute * 60 + second) * nanosPerSec : Nat)

private def bounded (nanos : Int) : Option Int :=
  if CDuration.minNanos ≤ nanos ∧ nanos ≤ CDuration.maxNanos then some nanos else none

private theorem bounded_isSome (nanos : Int) : (bounded nanos).isSome = true ↔
    CDuration.minNanos ≤ nanos ∧ nanos ≤ CDuration.maxNanos := by
  unfold bounded
  split <;> simp_all

private theorem bounded_value (nanos result : Int) (found : bounded nanos = some result) :
    result = nanos := by
  unfold bounded at found
  split at found
  · exact (Option.some.inj found).symm
  · contradiction

def toStd (nanos : Int) : Option Duration :=
  if inside : 0 ≤ nanos ∧ nanos < 2 ^ 64 * nanosPerSec then some ⟨nanos.toNat,by omega⟩ else none

def fromStd (dur : Duration) : Option Int := bounded dur.nanos

theorem fromStd_isSome (dur : Duration) :
    (fromStd dur).isSome = true ↔ (dur.nanos : Int) ≤ CDuration.maxNanos := by
  rw [fromStd,bounded_isSome]
  unfold CDuration.minNanos
  omega

theorem toStd_isSome (nanos : Int) (small : nanos ≤ CDuration.maxNanos) :
    (toStd nanos).isSome = true ↔ 0 ≤ nanos := by
  have room : CDuration.maxNanos < 2 ^ 64 * nanosPerSec := by decide
  unfold toStd
  split
  · rename_i inside
    simp [inside.1]
  · rename_i outside
    simp only [Option.isSome_none,Bool.false_eq_true,false_iff]
    omega

theorem nanos_toStd (nanos : Int) (result : Duration) (found : toStd nanos = some result) :
    (result.nanos : Int) = nanos := by
  unfold toStd at found
  split at found
  · rename_i inside
    cases Option.some.inj found
    exact Int.toNat_of_nonneg inside.1
  · contradiction

def duration : CDuration where
  Carrier := Int
  nanos := id
  eq_of_nanos _ _ same := same
  zero := 0
  nanos_zero := rfl
  isZero nanos := nanos == 0
  isZero_iff := by simp
  lt a b := a < b
  lt_iff := by simp
  neg nanos := -nanos
  nanos_neg _ _ := rfl
  numWeeks nanos := nanos.tdiv (7 * nanosPerDay)
  numWeeks_eq _ _ := rfl
  numDays nanos := nanos.tdiv nanosPerDay
  numDays_eq _ _ := rfl
  numHours nanos := nanos.tdiv (3600 * nanosPerSec)
  numHours_eq _ _ := rfl
  numMinutes nanos := nanos.tdiv (60 * nanosPerSec)
  numMinutes_eq _ _ := rfl
  numSeconds nanos := nanos.tdiv nanosPerSec
  numSeconds_eq _ _ := rfl
  numMilliseconds nanos := nanos.tdiv 1000000
  numMilliseconds_eq _ _ := rfl
  numMicroseconds nanos :=
    if -2 ^ 63 ≤ nanos.tdiv 1000 ∧ nanos.tdiv 1000 < 2 ^ 63 then some (nanos.tdiv 1000) else none
  numMicroseconds_eq _ _ := rfl
  numNanoseconds nanos := if -2 ^ 63 ≤ nanos ∧ nanos < 2 ^ 63 then some nanos else none
  numNanoseconds_eq _ _ := rfl
  weeks n := bounded (n * (7 * nanosPerDay))
  weeks_isSome _ := bounded_isSome _
  nanos_weeks _ := bounded_value _
  days n := bounded (n * nanosPerDay)
  days_isSome _ := bounded_isSome _
  nanos_days _ := bounded_value _
  hours n := bounded (n * (3600 * nanosPerSec))
  hours_isSome _ := bounded_isSome _
  nanos_hours _ := bounded_value _
  minutes n := bounded (n * (60 * nanosPerSec))
  minutes_isSome _ := bounded_isSome _
  nanos_minutes _ := bounded_value _
  seconds n := bounded (n * nanosPerSec)
  seconds_isSome _ := bounded_isSome _
  nanos_seconds _ := bounded_value _
  milliseconds n := n * 1000000
  nanos_milliseconds _ := rfl
  microseconds n := n * 1000
  nanos_microseconds _ := rfl
  nanoseconds n := n
  nanos_nanoseconds _ := rfl
  add a b := a + b
  nanos_add _ _ _ _ := rfl
  fromStd := fromStd
  fromStd_isSome := fromStd_isSome
  nanos_fromStd dur := bounded_value dur.nanos
  toStd := toStd
  toStd_isSome := toStd_isSome
  nanos_toStd := nanos_toStd
  between a b := a - b
  nanos_between _ _ := rfl

end Rinklers.ChronoModel
