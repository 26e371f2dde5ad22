import Rinklers.ScheduleRunner

/-! When the schedule runner can sleep past a deadline or over the request to quit. The thread
computes how long to sleep in a pass and looks at nothing between the pass and its wait, so that
what clients change in this gap, or before the first wait, goes unseen. -/
namespace Rinklers.ScheduleRunner
open Foundation
open Foundation.Monitor (Step Reachable Runs Settles Quiet Timely Rule)

variable {Data : Type}

/-- The wait that follows the latest pass is over by `deadline`. -/
def Thread.WakesBy (thread : Thread) (deadline : Int) : Prop :=
  ∃ bound, thread.waitPeriod = .atMost bound ∧ thread.passTime + (bound.nanos : Int) ≤ deadline

def Calm (w : World Data) (thread : Thread) : Prop :=
  w.data.quit = false ∧
    ∀ run ∈ w.data.runs.values, ∀ deadline, run.nextRun = some deadline → thread.WakesBy deadline

/-- A thread that is blocked with no wake-up pending is not to quit and wakes up by the next run
of everything that is scheduled; one that is blocked for good has nothing to run. -/
def NeverOversleeps (s : State Data) : Prop :=
  s.phase = .waiting false →
    s.data.data.quit = false ∧
    (∀ run ∈ s.data.data.runs.values, ∀ deadline, run.nextRun = some deadline →
      ∃ bound, s.thread.waitPeriod = .atMost bound ∧
        s.thread.passTime + (bound.nanos : Int) ≤ deadline) ∧
    (s.thread.waitPeriod = .wait → ∀ run ∈ s.data.data.runs.values, run.nextRun = none)

private theorem neverOversleeps_iff (s : State Data) : NeverOversleeps s ↔ Quiet Calm s := by
  apply forall_congr'
  intro asleep
  constructor
  · rintro ⟨going,timed,_⟩
    exact ⟨going,timed⟩
  · rintro ⟨going,timed⟩
    refine ⟨going,timed,?_⟩
    intro untimed run live
    by_contra pending
    obtain ⟨deadline,next⟩ := Option.ne_none_iff_exists'.mp pending
    obtain ⟨bound,period,_⟩ := timed run live deadline next
    simp [untimed] at period

def AboutToSleep (s : State Data) : Prop :=
  s.phase = .top ∧ s.thread.waitPeriod.sleeps = true

/-- While the thread is about to sleep, no schedule comes in whose next run is before the end of
the sleep already decided on, and the runner is not dropped. -/
def InTime (tz : Local) : Rule (Op Data) (World Data) Thread :=
  fun s op _ => AboutToSleep s → match op with
    | .schedule sched _ now | .updateSchedule _ sched now =>
      ∀ deadline, sched.nextRunAfter tz now = some deadline → s.thread.WakesBy deadline
    | .updateData _ _ | .stop _ => True
    | .quit => False

section Period
variable {start deadline : Int}

private def Covers (start : Int) (period : WaitPeriod) (deadline : Int) : Prop :=
  period = .none ∨ Thread.WakesBy ⟨period,start⟩ deadline

private theorem covers_min_left {period : WaitPeriod} (covered : Covers start period deadline)
    (other : WaitPeriod) : Covers start (period.min other) deadline := by
  unfold WaitPeriod.min
  split
  · rename_i shorter
    rcases covered with rfl | ⟨bound,same,ends⟩
    · cases other <;> simp [WaitPeriod.cmp] at shorter
    · dsimp only at same ends
      subst same
      cases other with
      | wait => simp [WaitPeriod.cmp] at shorter
      | none => exact Or.inl rfl
      | atMost dur =>
        have less : dur.nanos < bound.nanos := Nat.compare_eq_gt.mp shorter
        exact Or.inr ⟨dur,rfl,by dsimp only; omega⟩
  · exact covered

private theorem covers_min_right {other : WaitPeriod} (covered : Covers start other deadline)
    (period : WaitPeriod) : Covers start (period.min other) deadline := by
  unfold WaitPeriod.min
  split
  · exact covered
  · rename_i shorter
    rcases covered with rfl | ⟨bound,same,ends⟩
    · cases period <;> simp [WaitPeriod.cmp] at shorter
      exact Or.inl rfl
    · dsimp only at same ends
      subst same
      cases period with
      | wait => simp [WaitPeriod.cmp] at shorter
      | none => exact Or.inl rfl
      | atMost dur =>
        have less : ¬ bound.nanos < dur.nanos := fun greater =>
          shorter (Nat.compare_eq_gt.mpr greater)
        exact Or.inr ⟨dur,rfl,by dsimp only; omega⟩

end Period

variable (tz : Local) (chrono : CDuration)

private def Settled (start : Int) (walk : Walk Data) (run : SchedRun Data) : Prop :=
  walk.panicked = true ∨
    ∀ deadline, run.nextRun = some deadline → Covers start walk.waitPeriod deadline

private theorem visit_settles {readings : Readings} (steady : ∀ k, readings k = readings 0)
    (walk : Walk Data) (index : Nat) (run : SchedRun Data) :
    Settled (readings 0) (visit tz chrono readings walk index run).1
        (visit tz chrono readings walk index run).2 ∧
      ∀ other, Settled (readings 0) walk other →
        Settled (readings 0) (visit tz chrono readings walk index run).1 other := by
  have visited := visit_visited tz chrono readings walk index run
  generalize visit tz chrono readings walk index run = result at visited
  cases visited with
  | skipped panicked => exact ⟨Or.inl panicked,fun _ => id⟩
  | unscheduled going never =>
    refine ⟨Or.inr ?_,fun _ => id⟩
    intro deadline next
    simp [never] at next
  | executed occurrence going next due =>
    exact ⟨Or.inr fun _ _ => Or.inl rfl,fun _ => Or.imp_right fun _ _ _ => Or.inl rfl⟩
  | ahead occurrence left going next length =>
    rw [steady] at length
    constructor
    · right
      intro deadline same
      cases next.symm.trans same
      apply covers_min_right
      exact Or.inr ⟨left,rfl,by dsimp only; omega⟩
    · intro other
      apply Or.imp_right
      intro covered deadline same
      exact covers_min_left (covered deadline same) (.atMost left)
  | failed occurrence going next early => exact ⟨Or.inl rfl,fun _ _ => Or.inl rfl⟩

private theorem walk_settles {readings : Readings} (steady : ∀ k, readings k = readings 0)
    (runs : IndexMap (SchedRun Data)) (walk : Walk Data) :
    ∀ run ∈ (runs.forMut (visit tz chrono readings) walk).2.values,
      Settled (readings 0) (runs.forMut (visit tz chrono readings) walk).1 run := by
  have rule : True ∧ ∀ run ∈ (runs.forMut (visit tz chrono readings) walk).2.values,
      Settled (readings 0) (runs.forMut (visit tz chrono readings) walk).1 run := by
    apply @IndexMap.forMut_rule _ _ _ (fun _ => True) _ runs walk trivial
    · intro walk index run _
      exact ⟨trivial,(visit_settles tz chrono steady walk index run).1⟩
    · intro walk index run other _
      exact (visit_settles tz chrono steady walk index run).2 other
  exact rule.2

theorem body_settles : Settles (@runner Data tz chrono OneInstant) Calm where
  body := by
    rintro w thread next after ⟨readings,steady,exit,rfl,rfl⟩ sleeps
    have settled := walk_settles tz chrono steady w.data.runs ⟨.wait,[],false⟩
    cases going : w.data.quit with
    | true =>
      rw [loopBody_quit tz chrono going] at exit
      cases exit
    | false =>
      rw [loopBody_going tz chrono going] at exit sleeps ⊢
      refine ⟨going,?_⟩
      intro run live deadline next
      rcases settled run live with panicked | covered
      · simp [panicked] at exit
      · rcases covered deadline next with passes | wakes
        · simp [runner,passes,WaitPeriod.sleeps] at sleeps
        · exact wakes
  outside := by
    intro w next thread changed calm
    cases changed
    exact calm

private def Brings (w next : World Data) (nextRun : Option Int) : Prop :=
  next.data.quit = w.data.quit ∧ (∃ run ∈ next.data.runs.values, run.nextRun = nextRun) ∧
    ∀ run ∈ next.data.runs.values,
      run.nextRun = nextRun ∨ ∃ old ∈ w.data.runs.values, run.nextRun = old.nextRun

private def Keeps (w next : World Data) : Prop :=
  next.data.quit = w.data.quit ∧
    ∀ run ∈ next.data.runs.values, ∃ old ∈ w.data.runs.values, run.nextRun = old.nextRun

section Operations
variable {w next : World Data} {guard : Guard} {sched : Schedule} {data : Data} {now : Int}

private theorem schedule_brings (made : w.schedule tz sched data now = some next) :
    Brings w next (sched.nextRunAfter tz now) := by
  obtain ⟨⟨runs,index⟩,inserted,rfl⟩ := Option.map_eq_some_iff.mp made
  obtain ⟨live,others⟩ := IndexMap.values_insert inserted
  refine ⟨rfl,⟨_,live,rfl⟩,?_⟩
  intro run member
  rcases others run member with rfl | old
  · exact Or.inl rfl
  · exact Or.inr ⟨run,old,rfl⟩

private theorem updateSchedule_brings (made : w.updateSchedule tz guard sched now = some next) :
    Brings w next (sched.nextRunAfter tz now) := by
  obtain ⟨⟨result,runs⟩,changed,rfl⟩ := Option.map_eq_some_iff.mp made
  obtain ⟨before,_,live,others⟩ := IndexMap.values_update changed
  refine ⟨rfl,⟨_,live,rfl⟩,?_⟩
  intro run member
  rcases others run member with rfl | old
  · exact Or.inl rfl
  · exact Or.inr ⟨run,old,rfl⟩

private theorem updateData_keeps (made : w.updateData guard data = some next) : Keeps w next := by
  obtain ⟨⟨result,runs⟩,changed,rfl⟩ := Option.map_eq_some_iff.mp made
  obtain ⟨before,kept,_,others⟩ := IndexMap.values_update changed
  refine ⟨rfl,?_⟩
  intro run member
  rcases others run member with rfl | old
  · exact ⟨before,kept,rfl⟩
  · exact ⟨run,old,rfl⟩

private theorem stop_keeps (made : w.stop guard = some next) : Keeps w next := by
  obtain ⟨⟨removed,runs⟩,changed,rest⟩ := Option.bind_eq_some_iff.mp made
  obtain ⟨_,_,rfl⟩ := Option.map_eq_some_iff.mp rest
  exact ⟨rfl,fun run member => ⟨run,IndexMap.values_remove changed run member,rfl⟩⟩

private theorem Brings.timed {nextRun : Option Int} (brings : Brings w next nextRun)
    {thread : Thread} (calm : Calm next thread) :
    ∀ deadline, nextRun = some deadline → thread.WakesBy deadline := by
  obtain ⟨_,⟨run,live,brought⟩,_⟩ := brings
  intro deadline due
  exact calm.2 run live deadline (brought.trans due)

private theorem Brings.calm {nextRun : Option Int} (brings : Brings w next nextRun)
    {thread : Thread} (calm : Calm w thread)
    (timed : ∀ deadline, nextRun = some deadline → thread.WakesBy deadline) :
    Calm next thread := by
  obtain ⟨same,_,others⟩ := brings
  refine ⟨same.trans calm.1,?_⟩
  intro run member deadline due
  rcases others run member with new | ⟨old,kept,equal⟩
  · exact timed deadline (new.symm.trans due)
  · exact calm.2 old kept deadline (equal.symm.trans due)

private theorem Keeps.calm (keeps : Keeps w next) {thread : Thread} (calm : Calm w thread) :
    Calm next thread := by
  obtain ⟨same,others⟩ := keeps
  refine ⟨same.trans calm.1,?_⟩
  intro run member deadline due
  obtain ⟨old,kept,equal⟩ := others run member
  exact calm.2 old kept deadline (equal.symm.trans due)

end Operations

private theorem timely_of_inTime (s : State Data) (op : Op Data) (next : State Data)
    (gap : s.phase = .top → s.thread.waitPeriod.sleeps = true → Calm s.data s.thread)
    (step : Step (runner tz chrono OneInstant) s (.update op) next) (inTime : InTime tz s op next) :
    Timely (runner tz chrono OneInstant) Calm s op next := by
  intro top sleeps
  have calm := gap top sleeps
  have allowed := inTime ⟨top,sleeps⟩
  cases step with
  | update _ data free updated =>
    cases op with
    | schedule sched sdata now =>
      obtain ⟨_,_,made⟩ := updated
      exact (schedule_brings tz made).calm calm allowed
    | updateSchedule guard sched now =>
      obtain ⟨_,_,made⟩ := updated
      exact (updateSchedule_brings tz made).calm calm allowed
    | updateData guard newData =>
      obtain ⟨_,made⟩ := updated
      exact (updateData_keeps made).calm calm
    | stop guard =>
      obtain ⟨_,made⟩ := updated
      exact (stop_keeps made).calm calm
    | quit => exact absurd allowed id

private theorem late_of_not_inTime (s : State Data) (op : Op Data) (next : State Data)
    (step : Step (runner tz chrono OneInstant) s (.update op) next)
    (late : ¬ InTime tz s op next) :
    ¬ Timely (runner tz chrono OneInstant) Calm s op next := by
  intro timely
  apply late
  rintro ⟨top,sleeps⟩
  have calm := timely top sleeps
  cases step with
  | update _ data free updated =>
    cases op with
    | schedule sched sdata now =>
      obtain ⟨_,_,made⟩ := updated
      exact (schedule_brings tz made).timed calm
    | updateSchedule guard sched now =>
      obtain ⟨_,_,made⟩ := updated
      exact (updateSchedule_brings tz made).timed calm
    | updateData guard newData => trivial
    | stop guard => trivial
    | quit =>
      obtain ⟨_,_,rfl⟩ := updated
      cases calm.1

/-- In a run whose client operations all come in time the runner never oversleeps, and every
operation that does not is slept over: the thread's next step is to wait past it. -/
theorem never_oversleeps_exactly (start : Int) :
    (∀ s : State Data, Runs (runner tz chrono OneInstant) (InTime tz) (startNew start) s →
      NeverOversleeps s) ∧
    ∀ (s : State Data) op next, Reachable (runner tz chrono OneInstant) (startNew start) s →
      Step (runner tz chrono OneInstant) s (.update op) next → ¬ InTime tz s op next →
      ∃ asleep, Step (runner tz chrono OneInstant) next .sleep asleep ∧
        ¬ NeverOversleeps asleep := by
  simp only [neverOversleeps_iff]
  constructor
  · intro s run
    apply Monitor.quiet_of_rule (body_settles tz chrono) (timely_of_inTime tz chrono) rfl _ run
    intro _
    refine ⟨rfl,?_⟩
    intro run live
    simp [startNew,World.new,RunnerData.new,IndexMap.values_new] at live
  · intro s op next _ step late
    exact Monitor.untimely_lost step (late_of_not_inTime tz chrono s op next step late)

open ChronoModel (localAt ymdHms)

theorem first_schedule_slept_past : ¬ ∀ s : State Unit,
    Reachable (runner (localAt 0) ChronoModel.duration OneInstant)
      (startNew (ymdHms 2016 5 1 0 0 0)) s → NeverOversleeps s := by
  intro always
  have made : ∃ w, (World.new (ymdHms 2016 5 1 0 0 0)).schedule (localAt 0) (mondays .none .none) ()
      (ymdHms 2016 5 1 0 0 0) = some w ∧
      ∃ run ∈ w.data.runs.values, run.nextRun = some (ymdHms 2016 5 2 9 41 0) := by
    refine ⟨_,rfl,SchedRun.new (localAt 0) (mondays .none .none) () (ymdHms 2016 5 1 0 0 0),?_,?_⟩
    · exact List.mem_singleton_self _
    · decide +kernel
  obtain ⟨w,scheduled,run,live,next⟩ := made
  have first : Step (runner (localAt 0) ChronoModel.duration OneInstant)
      (startNew (ymdHms 2016 5 1 0 0 0))
      (.update (.schedule (mondays .none .none) () (ymdHms 2016 5 1 0 0 0)))
      ⟨.top,w,⟨.wait,ymdHms 2016 5 1 0 0 0⟩⟩ :=
    .update _ w rfl ⟨rfl,fun _ => rfl,scheduled⟩
  have second : Step (runner (localAt 0) ChronoModel.duration OneInstant)
      ⟨.top,w,⟨.wait,ymdHms 2016 5 1 0 0 0⟩⟩ .sleep
      ⟨.waiting false,w,⟨.wait,ymdHms 2016 5 1 0 0 0⟩⟩ := .sleep rfl rfl
  have reached : Reachable (runner (localAt 0) ChronoModel.duration OneInstant)
      (startNew (ymdHms 2016 5 1 0 0 0)) ⟨.waiting false,w,⟨.wait,ymdHms 2016 5 1 0 0 0⟩⟩ :=
    .tail (.single ⟨_,first⟩) ⟨_,second⟩
  obtain ⟨_,_,untimed⟩ := always _ reached rfl
  have never := untimed rfl run live
  simp [never] at next

end Rinklers.ScheduleRunner
