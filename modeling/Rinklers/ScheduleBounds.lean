import Rinklers.ScheduleSearch

/-! What the bounds of a schedule do to its runs: a definite window, a yearly season, and two
references that fall in different years. The search itself is exact, so that each result
compares two sets of occurrences: those that the resolved bounds admit and those meant. -/
namespace Rinklers
open Foundation

/-- The place of an instant in its year: local month, day of the month and time of day. -/
def Local.moment (tz : Local) (instant : Int) : Nat ×ₗ Nat ×ₗ NaiveTime :=
  toLex (tz.calendar.month (tz.date instant),
    toLex (tz.calendar.day (tz.date instant),tz.time instant))

private theorem Calendar.date_ext (calendar : Calendar) {a b : Int}
    (year : calendar.year a = calendar.year b) (month : calendar.month a = calendar.month b)
    (day : calendar.day a = calendar.day b) : a = b := by
  have forward := calendar.lt_iff a b
  have backward := calendar.lt_iff b a
  omega

section Fixed
variable (calendar : Calendar) (offset : Int)

private theorem lt_fixed (a b : Int) :
    a < b ↔ (fixedLocal calendar offset).date a < (fixedLocal calendar offset).date b ∨
      (fixedLocal calendar offset).date a = (fixedLocal calendar offset).date b ∧
        (fixedLocal calendar offset).time a < (fixedLocal calendar offset).time b := by
  rw [Fin.lt_def]
  have first := time_fixed calendar offset a
  have second := time_fixed calendar offset b
  have positive : (0 : Int) < nanosPerDay := by decide
  rw [date_fixed,date_fixed]
  unfold nanosPerDay nanosPerSec at first second ⊢
  omega

theorem instant_lt_iff (a b : Int) :
    a < b ↔ (fixedLocal calendar offset).year a < (fixedLocal calendar offset).year b ∨
      (fixedLocal calendar offset).year a = (fixedLocal calendar offset).year b ∧
        (fixedLocal calendar offset).moment a < (fixedLocal calendar offset).moment b := by
  rw [lt_fixed calendar offset,calendar.lt_iff]
  unfold Local.moment Local.year
  rw [Prod.Lex.toLex_lt_toLex,Prod.Lex.toLex_lt_toLex]
  generalize (fixedLocal calendar offset).date a = first
  generalize (fixedLocal calendar offset).date b = second
  have same : first = second ↔ calendar.year first = calendar.year second ∧
      calendar.month first = calendar.month second ∧
      calendar.day first = calendar.day second := by
    constructor
    · rintro rfl
      exact ⟨rfl,rfl,rfl⟩
    · rintro ⟨year,month,day⟩
      exact calendar.date_ext year month day
  rw [same]
  change _ ↔ calendar.year first < calendar.year second ∨
    calendar.year first = calendar.year second ∧ _
  tauto

theorem year_mono {a b : Int} (before : a ≤ b) :
    (fixedLocal calendar offset).year a ≤ (fixedLocal calendar offset).year b := by
  by_contra later
  exact absurd ((instant_lt_iff calendar offset b a).mpr (Or.inl (not_le.mp later)))
    (not_lt.mpr before)

theorem withYear_place {instant year moved : Int}
    (found : (fixedLocal calendar offset).withYear instant year = some moved) :
    (fixedLocal calendar offset).year moved = year ∧
      (fixedLocal calendar offset).moment moved = (fixedLocal calendar offset).moment instant := by
  obtain ⟨date,placed,rest⟩ := Option.bind_eq_some_iff.mp found
  obtain ⟨sameYear,sameMonth,sameDay⟩ := calendar.withYear_some _ _ _ placed
  rw [andTime_fixed] at rest
  cases Option.some.inj rest
  obtain ⟨dateParts,timeParts⟩ := parts_fixed calendar offset date
    ((fixedLocal calendar offset).time instant)
  unfold Local.moment Local.year
  rw [dateParts,timeParts]
  refine ⟨sameYear,?_⟩
  change toLex (calendar.month date,toLex (calendar.day date,_)) = _
  rw [sameMonth,sameDay]
  rfl

theorem instant_unique {a b : Int}
    (year : (fixedLocal calendar offset).year a = (fixedLocal calendar offset).year b)
    (moment : (fixedLocal calendar offset).moment a = (fixedLocal calendar offset).moment b) :
    a = b := by
  apply le_antisymm <;> rw [← not_lt,instant_lt_iff calendar offset,year,moment]
  · simp
  · simp

theorem withYear_meet {first last year opens closes : Int}
    (same : (fixedLocal calendar offset).moment first = (fixedLocal calendar offset).moment last)
    (opened : (fixedLocal calendar offset).withYear first year = some opens)
    (closed : (fixedLocal calendar offset).withYear last year = some closes) : opens = closes := by
  obtain ⟨opensYear,opensMoment⟩ := withYear_place calendar offset opened
  obtain ⟨closesYear,closesMoment⟩ := withYear_place calendar offset closed
  apply instant_unique calendar offset
  · rw [opensYear,closesYear]
  · rw [opensMoment,closesMoment,same]

private theorem leapDay_of_moment (tz : Local) {a b : Int} (same : tz.moment a = tz.moment b)
    (leap : tz.leapDay a) : tz.leapDay b := by
  have month := congrArg (fun moment => (ofLex moment).1) same
  have day := congrArg (fun moment => (ofLex (ofLex moment).2).1) same
  exact ⟨month.symm.trans leap.1,day.symm.trans leap.2⟩

theorem withYear_found {instant : Int} (ordinary : ¬(fixedLocal calendar offset).leapDay instant)
    (year : Int) :
    ∃ moved, (fixedLocal calendar offset).withYear instant year = some moved := by
  cases placed : calendar.withYear ((fixedLocal calendar offset).date instant) year with
  | none => exact absurd (calendar.withYear_none _ _ placed) ordinary
  | some date =>
    have rest := andTime_fixed calendar offset date ((fixedLocal calendar offset).time instant)
    exact ⟨_,Option.bind_eq_some_iff.mpr ⟨date,placed,rest⟩⟩

variable (s : Schedule)

open ChronoModel (ymdHms)

/-- What is meant by a definite window: the occurrences from `reference` on inside it. -/
def Window (first last reference : Int) : Set Int :=
  {instant | s.Occurs (fixedLocal calendar offset) instant ∧ reference ≤ instant ∧
    first ≤ instant ∧ instant ≤ last}

/-- The window has no occurrence that moving its start on by a year would take away or, where the
start is a leap day and the code drops it, none before the window that this would let in. -/
def UnmovedStart (first last reference : Int) : Prop :=
  match (fixedLocal calendar offset).withYear first
      ((fixedLocal calendar offset).year first + 1) with
  | some moved => ∀ instant ∈ Window calendar offset s first last reference, moved ≤ instant
  | none => ∀ instant, s.Occurs (fixedLocal calendar offset) instant → reference ≤ instant →
      instant ≤ last → first ≤ instant

/-- A window with definite bounds is honoured exactly when its start can be moved. -/
theorem definite_window_kept_exactly (first last reference : Int) (before : first < last)
    (start : s.fromBound = .definite first) (stop : s.toBound = .definite last) :
    IsFirst (Window calendar offset s first last reference)
        (s.nextRunAfter (fixedLocal calendar offset) reference) ↔
      UnmovedStart calendar offset s first last reference := by
  have computed := nextRunAfter_first calendar offset s reference
  have adjusted : s.adjustedFrom (fixedLocal calendar offset) reference =
      (fixedLocal calendar offset).withYear first
        ((fixedLocal calendar offset).year first + 1) := by
    simp only [Schedule.adjustedFrom,start,stop,DateTimeBound.resolveFrom,if_pos before]
  unfold UnmovedStart
  cases placed : (fixedLocal calendar offset).withYear first
      ((fixedLocal calendar offset).year first + 1) with
  | none =>
    -- The search has lost its start: it covers everything up to `last`.
    have covered : IsFirst {instant | s.Occurs (fixedLocal calendar offset) instant ∧
        reference ≤ instant ∧ instant ≤ last}
        (s.nextRunAfter (fixedLocal calendar offset) reference) := by
      apply computed.congr
      intro instant
      simp [Schedule.Admits,adjusted,placed,stop,DateTimeBound.resolveFrom]
    have window : Window calendar offset s first last reference =
        {instant | s.Occurs (fixedLocal calendar offset) instant ∧ reference ≤ instant ∧
          instant ≤ last} ∩ Set.Ici first := by
      ext instant
      simp only [Window,Set.mem_ofPred_eq,Set.mem_inter_iff,Set.mem_Ici]
      tauto
    rw [window,covered.above_iff]
    simp only [Set.mem_ofPred_eq,and_imp]
  | some moved =>
    have later : first < moved := by
      rw [instant_lt_iff calendar offset]
      left
      have place := (withYear_place calendar offset placed).1
      omega
    have covered : IsFirst (Window calendar offset s first last reference ∩ Set.Ici moved)
        (s.nextRunAfter (fixedLocal calendar offset) reference) := by
      apply computed.congr
      intro instant
      simp only [Window,Schedule.Admits,adjusted,placed,stop,DateTimeBound.resolveFrom,
        Set.mem_ofPred_eq,Set.mem_inter_iff,Set.mem_Ici,Option.some.injEq,forall_eq']
      constructor
      · rintro ⟨occurs,after,moved,ends⟩
        exact ⟨⟨occurs,after,by omega,ends⟩,moved⟩
      · rintro ⟨⟨occurs,after,_,ends⟩,moved⟩
        exact ⟨occurs,after,moved,ends⟩
    exact covered.below_iff

private def summer (last : Nat) : Schedule :=
  mondays (.definite (ymdHms 2016 6 1 0 0 0)) (.definite (ymdHms last 8 1 0 0 0))

theorem three_summers_kept : IsFirst
    (Window ChronoModel.calendar 0 (summer 2018) (ymdHms 2016 6 1 0 0 0) (ymdHms 2018 8 1 0 0 0)
      (ymdHms 2017 7 1 0 0 0))
    ((summer 2018).nextRunAfter (fixedLocal ChronoModel.calendar 0) (ymdHms 2017 7 1 0 0 0)) := by
  apply (definite_window_kept_exactly ChronoModel.calendar 0 (summer 2018) _ _ _ (by decide +kernel)
    rfl rfl).mpr
  have moved : (fixedLocal ChronoModel.calendar 0).withYear (ymdHms 2016 6 1 0 0 0)
      ((fixedLocal ChronoModel.calendar 0).year (ymdHms 2016 6 1 0 0 0) + 1) =
        some (ymdHms 2017 6 1 0 0 0) := by decide +kernel
  rw [UnmovedStart,moved]
  rintro instant ⟨_,after,_,_⟩
  exact le_trans (by decide +kernel) after

theorem one_summer_missed : ¬IsFirst
    (Window ChronoModel.calendar 0 (summer 2016) (ymdHms 2016 6 1 0 0 0) (ymdHms 2016 8 1 0 0 0)
      (ymdHms 2016 5 1 0 0 0))
    ((summer 2016).nextRunAfter (fixedLocal ChronoModel.calendar 0) (ymdHms 2016 5 1 0 0 0)) := by
  have computed : (summer 2016).nextRunAfter (fixedLocal ChronoModel.calendar 0)
      (ymdHms 2016 5 1 0 0 0) = none := by decide +kernel
  have monday : ymdHms 2016 6 6 9 41 0 ∈ Window ChronoModel.calendar 0 (summer 2016)
      (ymdHms 2016 6 1 0 0 0) (ymdHms 2016 8 1 0 0 0) (ymdHms 2016 5 1 0 0 0) := by
    refine ⟨?_,?_,?_,?_⟩ <;> decide +kernel
  rw [computed]
  intro nothing
  change _ = ∅ at nothing
  simp [nothing] at monday

/-- The season of `year`; one whose end comes earlier in the year than its start wraps over. -/
def InSeason (first last year instant : Int) : Prop :=
  ∃ start stop, (fixedLocal calendar offset).withYear first year = some start ∧
    (fixedLocal calendar offset).withYear last
      (if (fixedLocal calendar offset).moment last < (fixedLocal calendar offset).moment first
        then year + 1 else year) = some stop ∧ start ≤ instant ∧ instant ≤ stop

/-- What is meant by a yearly season: the occurrences from `reference` on in that of any year. -/
def Seasons (first last reference : Int) : Set Int :=
  {instant | s.Occurs (fixedLocal calendar offset) instant ∧ reference ≤ instant ∧
    ∃ year, InSeason calendar offset first last year instant}

/-- What is left of it: where both bounds are the same moment, that moment of this year. -/
def Anniversary (first last reference : Int) : Set Int :=
  {instant | s.Occurs (fixedLocal calendar offset) instant ∧ reference ≤ instant ∧
    (fixedLocal calendar offset).moment first = (fixedLocal calendar offset).moment last ∧
    (fixedLocal calendar offset).withYear first ((fixedLocal calendar offset).year reference) =
      some instant}

private theorem yearly_bounds_admit (first last reference instant : Int)
    (start : s.fromBound = .yearly first) (stop : s.toBound = .yearly last)
    (ordinary : ¬(fixedLocal calendar offset).leapDay first)
    (ordinaryEnd : ¬(fixedLocal calendar offset).leapDay last) :
    s.Admits (fixedLocal calendar offset) reference instant ↔
      (fixedLocal calendar offset).moment first = (fixedLocal calendar offset).moment last ∧
      (fixedLocal calendar offset).withYear first ((fixedLocal calendar offset).year reference) =
        some instant := by
  obtain ⟨opens,opened⟩ := withYear_found calendar offset ordinary
    ((fixedLocal calendar offset).year reference)
  obtain ⟨closes,closed⟩ := withYear_found calendar offset ordinaryEnd
    ((fixedLocal calendar offset).year reference)
  obtain ⟨opensYear,opensMoment⟩ := withYear_place calendar offset opened
  obtain ⟨closesYear,closesMoment⟩ := withYear_place calendar offset closed
  have order := instant_lt_iff calendar offset opens closes
  rw [opensYear,closesYear,opensMoment,closesMoment] at order
  simp only [Schedule.Admits,Schedule.adjustedFrom,start,stop,DateTimeBound.resolveFrom,opened,
    closed,Option.some.injEq,forall_eq']
  by_cases before : opens < closes
  · -- The start is moved into the next year, and so behind the end.
    have apart : (fixedLocal calendar offset).moment first ≠
        (fixedLocal calendar offset).moment last := by
      intro same
      simp [same,before] at order
    obtain ⟨moved,placed⟩ := withYear_found calendar offset
      (fun leap => ordinary (leapDay_of_moment _ opensMoment leap))
      ((fixedLocal calendar offset).year opens + 1)
    have movedYear := (withYear_place calendar offset placed).1
    have behind : closes < moved := by
      rw [instant_lt_iff calendar offset]
      left
      omega
    rw [if_pos before,placed]
    simp only [Option.some.injEq,forall_eq',apart,false_and,iff_false,not_and,not_le]
    intro after
    omega
  · rw [if_neg before]
    simp only [Option.some.injEq,forall_eq']
    constructor
    · rintro ⟨after,ends⟩
      have same : opens = closes := by omega
      refine ⟨?_,by omega⟩
      rw [← opensMoment,← closesMoment,same]
    · rintro ⟨same,rfl⟩
      exact ⟨le_rfl,(withYear_meet calendar offset same opened closed).le⟩

private theorem anniversary_in_season (first last reference : Int)
    (ordinaryEnd : ¬(fixedLocal calendar offset).leapDay last) :
    Anniversary calendar offset s first last reference ⊆
      Seasons calendar offset s first last reference := by
  rintro instant ⟨occurs,after,same,placed⟩
  obtain ⟨closes,closed⟩ := withYear_found calendar offset ordinaryEnd
    ((fixedLocal calendar offset).year reference)
  have meet : instant = closes := withYear_meet calendar offset same placed closed
  refine ⟨occurs,after,_,instant,closes,placed,?_,le_rfl,meet.le⟩
  rw [if_neg (by simp [same])]
  exact closed

/-- The anniversary of this year comes before those of all years to come. -/
private theorem anniversary_first (first last reference : Int) :
    ∀ now ∈ Anniversary calendar offset s first last reference,
      ∀ instant ∈ Seasons calendar offset s first last reference, now ≤ instant := by
  rintro now ⟨_,_,same,placed⟩ instant ⟨_,after,year,opens,closes,opened,closed,begun,ends⟩
  rw [if_neg (by simp [same])] at closed
  have meet := withYear_meet calendar offset same opened closed
  have only : instant = opens := by omega
  obtain ⟨nowYear,nowMoment⟩ := withYear_place calendar offset placed
  obtain ⟨opensYear,opensMoment⟩ := withYear_place calendar offset opened
  have notBefore := year_mono calendar offset after
  rw [only,opensYear] at notBefore
  rw [only,← not_lt,instant_lt_iff calendar offset,nowYear,opensYear,nowMoment,opensMoment]
  simp only [lt_irrefl,and_false,or_false]
  exact not_lt.mpr notBefore

/-- A yearly season is honoured exactly when it holds no occurrence at all, or when it is a single
moment that occurs this year and has not yet passed. -/
theorem yearly_season_kept_exactly (first last reference : Int)
    (start : s.fromBound = .yearly first) (stop : s.toBound = .yearly last)
    (ordinary : ¬(fixedLocal calendar offset).leapDay first)
    (ordinaryEnd : ¬(fixedLocal calendar offset).leapDay last) :
    IsFirst (Seasons calendar offset s first last reference)
        (s.nextRunAfter (fixedLocal calendar offset) reference) ↔
      Seasons calendar offset s first last reference = ∅ ∨
        (Anniversary calendar offset s first last reference).Nonempty := by
  have computed : IsFirst (Anniversary calendar offset s first last reference)
      (s.nextRunAfter (fixedLocal calendar offset) reference) := by
    apply (nextRunAfter_first calendar offset s reference).congr
    intro instant
    apply and_congr_right
    intro occurs
    apply and_congr_right
    intro after
    exact yearly_bounds_admit calendar offset s first last reference instant start stop ordinary
      ordinaryEnd
  have inside := anniversary_in_season calendar offset s first last reference ordinaryEnd
  rw [computed.same_iff,Set.union_eq_self_of_subset_left inside,
    Set.inter_eq_self_of_subset_left inside]
  constructor
  · intro shared
    rcases Set.eq_empty_or_nonempty (Seasons calendar offset s first last reference) with
      nothing | ⟨instant,member⟩
    · exact Or.inl nothing
    · obtain ⟨now,anniversary,_⟩ := shared instant member
      exact Or.inr ⟨now,anniversary⟩
  · rintro (nothing | ⟨now,anniversary⟩) instant member
    · simp [nothing] at member
    · have notAfter := anniversary_first calendar offset s first last reference now anniversary
      exact ⟨now,anniversary,notAfter instant member⟩

private def season (first last : Int) : Schedule := mondays (.yearly first) (.yearly last)

theorem one_moment_kept : IsFirst
    (Seasons ChronoModel.calendar 0 (season (ymdHms 2016 6 6 9 41 0) (ymdHms 2016 6 6 9 41 0))
      (ymdHms 2016 6 6 9 41 0) (ymdHms 2016 6 6 9 41 0) (ymdHms 2016 5 1 0 0 0))
    ((season (ymdHms 2016 6 6 9 41 0) (ymdHms 2016 6 6 9 41 0)).nextRunAfter
      (fixedLocal ChronoModel.calendar 0) (ymdHms 2016 5 1 0 0 0)) := by
  have ordinary :
      ¬(fixedLocal ChronoModel.calendar 0).leapDay (ymdHms 2016 6 6 9 41 0) := by
    unfold Local.leapDay
    decide +kernel
  apply (yearly_season_kept_exactly ChronoModel.calendar 0
    (season (ymdHms 2016 6 6 9 41 0) (ymdHms 2016 6 6 9 41 0)) _ _ _ rfl rfl ordinary ordinary).mpr
  refine Or.inr ⟨ymdHms 2016 6 6 9 41 0,?_,?_,rfl,?_⟩ <;> decide +kernel

theorem season_missed : ¬IsFirst
    (Seasons ChronoModel.calendar 0 (season (ymdHms 2016 4 1 0 0 0) (ymdHms 2016 10 1 0 0 0))
      (ymdHms 2016 4 1 0 0 0) (ymdHms 2016 10 1 0 0 0) (ymdHms 2016 7 1 0 0 0))
    ((season (ymdHms 2016 4 1 0 0 0) (ymdHms 2016 10 1 0 0 0)).nextRunAfter
      (fixedLocal ChronoModel.calendar 0) (ymdHms 2016 7 1 0 0 0)) := by
  have computed : (season (ymdHms 2016 4 1 0 0 0) (ymdHms 2016 10 1 0 0 0)).nextRunAfter
      (fixedLocal ChronoModel.calendar 0) (ymdHms 2016 7 1 0 0 0) = none := by decide +kernel
  have monday : ymdHms 2016 7 4 9 41 0 ∈ Seasons ChronoModel.calendar 0
      (season (ymdHms 2016 4 1 0 0 0) (ymdHms 2016 10 1 0 0 0))
      (ymdHms 2016 4 1 0 0 0) (ymdHms 2016 10 1 0 0 0) (ymdHms 2016 7 1 0 0 0) := by
    refine ⟨?_,?_,2016,ymdHms 2016 4 1 0 0 0,ymdHms 2016 10 1 0 0 0,?_,?_,?_,?_⟩ <;> decide +kernel
  rw [computed]
  intro nothing
  change _ = ∅ at nothing
  simp [nothing] at monday

/-- A run that is computed at `reference` is still the one at `later`, and none comes back. -/
def Coherent (reference later : Int) : Prop :=
  (s.nextRunAfter (fixedLocal calendar offset) reference = none →
    s.nextRunAfter (fixedLocal calendar offset) later = none) ∧
  ∀ run, s.nextRunAfter (fixedLocal calendar offset) reference = some run → later ≤ run →
    s.nextRunAfter (fixedLocal calendar offset) later = some run

/-- An instant lies within a resolved start and a resolved end. A start that comes before the end
is moved on by a year first, and dropped if it is a leap day. -/
def Within : Option Int → Option Int → Int → Prop
  | none, none, _ => True
  | none, some last, instant => instant ≤ last
  | some first, none, instant => first ≤ instant
  | some first, some last, instant =>
    instant ≤ last ∧ if first < last then
      ∀ moved, (fixedLocal calendar offset).withYear first
        ((fixedLocal calendar offset).year first + 1) = some moved → moved ≤ instant
      else first ≤ instant

private theorem admits_within (reference instant : Int) :
    s.Admits (fixedLocal calendar offset) reference instant ↔
      Within calendar offset (s.fromBound.resolveFrom (fixedLocal calendar offset) reference)
        (s.toBound.resolveFrom (fixedLocal calendar offset) reference) instant := by
  unfold Schedule.Admits Schedule.adjustedFrom
  cases s.fromBound.resolveFrom (fixedLocal calendar offset) reference with
  | none => cases s.toBound.resolveFrom (fixedLocal calendar offset) reference <;> simp [Within]
  | some first =>
    cases s.toBound.resolveFrom (fixedLocal calendar offset) reference with
    | none => simp [Within]
    | some last =>
      rw [Within,and_comm]
      by_cases before : first < last <;> simp [before]

/-- The occurrences from `start` on within the bounds as they resolve for `reference`. -/
def Admitted (reference start : Int) : Set Int :=
  {instant | s.Occurs (fixedLocal calendar offset) instant ∧ start ≤ instant ∧
    Within calendar offset (s.fromBound.resolveFrom (fixedLocal calendar offset) reference)
      (s.toBound.resolveFrom (fixedLocal calendar offset) reference) instant}

private theorem nextRunAfter_admitted (reference : Int) :
    IsFirst (Admitted calendar offset s reference reference)
      (s.nextRunAfter (fixedLocal calendar offset) reference) := by
  apply (nextRunAfter_first calendar offset s reference).congr
  intro instant
  exact and_congr_right fun _ => and_congr_right fun _ =>
    admits_within calendar offset s reference instant

/-- From `later` on, no occurrence that only one of the two resolutions admits comes before all
that both of them admit. -/
def AgreeFrom (reference later : Int) : Prop :=
  ∀ instant ∈ Admitted calendar offset s reference later ∪ Admitted calendar offset s later later,
    ∃ both ∈ Admitted calendar offset s reference later ∩ Admitted calendar offset s later later,
      both ≤ instant

variable {s} in
private theorem coherent_passed {reference later run : Int}
    (admitted : run ∈ Admitted calendar offset s reference reference) (before : run < later) :
    Coherent calendar offset s reference later := by
  have early := nextRunAfter_admitted calendar offset s reference
  constructor
  · intro nothing
    rw [nothing] at early
    change _ = ∅ at early
    simp [early] at admitted
  · intro first found after
    rw [found] at early
    exact absurd (early.2 admitted) (by omega)

variable {s} in
private theorem coherent_upcoming {reference later : Int} (order : reference ≤ later)
    (upcoming : ¬∃ run ∈ Admitted calendar offset s reference reference, run < later) :
    Coherent calendar offset s reference later ↔ AgreeFrom calendar offset s reference later := by
  have early : IsFirst (Admitted calendar offset s reference later)
      (s.nextRunAfter (fixedLocal calendar offset) reference) := by
    apply (nextRunAfter_admitted calendar offset s reference).congr
    intro instant
    constructor
    · intro admitted
      refine ⟨admitted.1,?_,admitted.2.2⟩
      by_contra before
      exact upcoming ⟨instant,admitted,not_le.mp before⟩
    · rintro ⟨occurs,after,within⟩
      exact ⟨occurs,order.trans after,within⟩
  have late := nextRunAfter_admitted calendar offset s later
  have same : Coherent calendar offset s reference later ↔
      s.nextRunAfter (fixedLocal calendar offset) later =
        s.nextRunAfter (fixedLocal calendar offset) reference := by
    unfold Coherent
    cases found : s.nextRunAfter (fixedLocal calendar offset) reference with
    | none => simp
    | some run =>
      rw [found] at early
      simp [early.1.2.1]
  rw [same,AgreeFrom,← early.same_iff]
  constructor
  · intro equal
    rw [← equal]
    exact late
  · intro first
    exact late.unique first

private theorem resolveFrom_same_year (tz : Local) (bound : DateTimeBound) {reference later : Int}
    (year : tz.year reference = tz.year later) :
    bound.resolveFrom tz reference = bound.resolveFrom tz later := by
  cases bound <;> simp only [DateTimeBound.resolveFrom,year]

private theorem resolveFrom_not_yearly (tz : Local) {bound : DateTimeBound}
    (other : ∀ dateTime, bound ≠ .yearly dateTime) (reference later : Int) :
    bound.resolveFrom tz reference = bound.resolveFrom tz later := by
  cases bound with
  | none => rfl
  | yearly dateTime => exact absurd rfl (other dateTime)
  | definite dateTime => rfl

variable {s} in
private theorem coherent_of_resolved {reference later : Int} (order : reference ≤ later)
    (start : s.fromBound.resolveFrom (fixedLocal calendar offset) reference =
      s.fromBound.resolveFrom (fixedLocal calendar offset) later)
    (stop : s.toBound.resolveFrom (fixedLocal calendar offset) reference =
      s.toBound.resolveFrom (fixedLocal calendar offset) later) :
    Coherent calendar offset s reference later := by
  by_cases passed : ∃ run ∈ Admitted calendar offset s reference reference, run < later
  · obtain ⟨run,admitted,before⟩ := passed
    exact coherent_passed calendar offset admitted before
  · rw [coherent_upcoming calendar offset order passed]
    have same : Admitted calendar offset s reference later =
        Admitted calendar offset s later later := by
      unfold Admitted
      rw [start,stop]
    intro instant member
    rw [same,Set.union_self] at member
    rw [same,Set.inter_self]
    exact ⟨instant,member,le_rfl⟩

theorem coherent_within_year (reference later : Int) (order : reference ≤ later)
    (year : (fixedLocal calendar offset).year reference = (fixedLocal calendar offset).year later) :
    Coherent calendar offset s reference later := by
  apply coherent_of_resolved calendar offset order
  · exact resolveFrom_same_year _ s.fromBound year
  · exact resolveFrom_same_year _ s.toBound year

theorem coherent_without_yearly (reference later : Int) (order : reference ≤ later)
    (start : ∀ dateTime, s.fromBound ≠ .yearly dateTime)
    (stop : ∀ dateTime, s.toBound ≠ .yearly dateTime) :
    Coherent calendar offset s reference later := by
  apply coherent_of_resolved calendar offset order
  · exact resolveFrom_not_yearly _ start _ _
  · exact resolveFrom_not_yearly _ stop _ _

/-- A later reference gives the same answer exactly when the earlier answer has passed or the two
resolutions of the bounds agree on what comes first: always within one year, and without a yearly
bound. -/
theorem coherent_exactly (reference later : Int) (order : reference ≤ later) :
    (Coherent calendar offset s reference later ↔
      (∃ run ∈ Admitted calendar offset s reference reference, run < later) ∨
        AgreeFrom calendar offset s reference later) ∧
      ((fixedLocal calendar offset).year reference = (fixedLocal calendar offset).year later →
        Coherent calendar offset s reference later) ∧
      ((∀ dateTime, s.fromBound ≠ .yearly dateTime) → (∀ dateTime, s.toBound ≠ .yearly dateTime) →
        Coherent calendar offset s reference later) := by
  refine ⟨?_,coherent_within_year calendar offset s reference later order,
    coherent_without_yearly calendar offset s reference later order⟩
  by_cases passed : ∃ run ∈ Admitted calendar offset s reference reference, run < later
  · obtain ⟨run,admitted,before⟩ := passed
    have coherent := coherent_passed calendar offset admitted before
    exact iff_of_true coherent (Or.inl ⟨run,admitted,before⟩)
  · rw [or_iff_right passed]
    exact coherent_upcoming calendar offset order passed

private def untilJune : Schedule := mondays .none (.yearly (ymdHms 2016 6 1 0 0 0))

theorem coherent_in_may : Coherent ChronoModel.calendar 0 untilJune (ymdHms 2016 5 1 0 0 0)
    (ymdHms 2016 5 15 0 0 0) := by
  apply (coherent_exactly ChronoModel.calendar 0 untilJune _ _ (by decide +kernel)).1.mpr
  have last : untilJune.toBound.resolveFrom (fixedLocal ChronoModel.calendar 0)
      (ymdHms 2016 5 1 0 0 0) = some (ymdHms 2016 6 1 0 0 0) := by decide +kernel
  refine Or.inl ⟨ymdHms 2016 5 2 9 41 0,⟨?_,?_,?_⟩,?_⟩
  · decide +kernel
  · decide +kernel
  · rw [last]
    change ymdHms 2016 5 2 9 41 0 ≤ ymdHms 2016 6 1 0 0 0
    decide +kernel
  · decide +kernel

theorem incoherent_in_july : ¬Coherent ChronoModel.calendar 0 untilJune (ymdHms 2016 7 4 0 0 0)
    (ymdHms 2017 1 2 0 0 0) := by
  rintro ⟨stays,_⟩
  have never : untilJune.nextRunAfter (fixedLocal ChronoModel.calendar 0)
      (ymdHms 2016 7 4 0 0 0) = none := by decide +kernel
  have again : untilJune.nextRunAfter (fixedLocal ChronoModel.calendar 0)
      (ymdHms 2017 1 2 0 0 0) = some (ymdHms 2017 1 2 9 41 0) := by decide +kernel
  simp [stays never] at again

end Fixed
end Rinklers
