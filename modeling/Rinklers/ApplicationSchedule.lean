import Rinklers.ApplicationQueue
import Rinklers.ScheduleRunnerHistory

/-! The program runner in the whole program: it has the programs of the configuration, each in the
slot of its number under its own schedule, and executes no others. -/
namespace Rinklers.Application
open Foundation
open ScheduleRunner (SchedRun Execution Readings)

section Timetable
variable (tz : Local)

structure Slot (program : ProgramRef) (run : SchedRun ProgramRef) : Prop where
  sched : run.sched = program.schedule
  data : run.data = program
  next : ∀ instant, run.nextRun = some instant →
    ∃ reference, program.schedule.nextRunAfter tz reference = some instant

structure Timetable (programs : List ProgramRef) (runs : IndexMap (SchedRun ProgramRef)) :
    Prop where
  full : runs.nextEmpty = none
  count : runs.entries.length = programs.length
  slot : ∀ (i : Nat) (program : ProgramRef), programs[i]? = some program →
    ∃ run, runs.entries[i]? = some (.element run) ∧ Slot tz program run

/-- An execution of the program with the number of the slot, at an occurrence of its schedule or
after it. -/
structure Due (programs : List ProgramRef) (execution : Execution ProgramRef) : Prop where
  program : programs[execution.index]? = some execution.data
  next : ∃ reference,
    execution.data.schedule.nextRunAfter tz reference = some execution.occurrence
  due : execution.occurrence ≤ execution.time

variable {tz}

theorem Slot.new (program : ProgramRef) (now : Int) :
    Slot tz program (SchedRun.new tz program.schedule program now) where
  sched := rfl
  data := rfl
  next _ found := ⟨now,found⟩

theorem Slot.update {program : ProgramRef} {run : SchedRun ProgramRef} (slot : Slot tz program run)
    (now : Int) : Slot tz program (run.updateNextRun tz now) where
  sched := slot.sched
  data := slot.data
  next _ found := ⟨now,slot.sched ▸ found⟩

variable {programs : List ProgramRef} {runs after : IndexMap (SchedRun ProgramRef)}

theorem Timetable.insert (table : Timetable tz programs runs) (program : ProgramRef)
    {run : SchedRun ProgramRef} (slot : Slot tz program run) {key : Nat}
    (inserted : runs.insert run = some (after,key)) :
    Timetable tz (programs ++ [program]) after ∧ key = programs.length := by
  rw [IndexMap.insert,table.full] at inserted
  cases inserted
  refine ⟨⟨rfl,?_,?_⟩,table.count⟩
  · simp [table.count]
  · intro i other found
    rcases Nat.lt_or_ge i programs.length with before | after
    · rw [List.getElem?_append_left before] at found
      rw [List.getElem?_append_left (table.count ▸ before)]
      exact table.slot i other found
    · rw [List.getElem?_append_right after,List.getElem?_singleton] at found
      split at found
      · cases found
        refine ⟨run,?_,slot⟩
        rw [List.getElem?_append_right (table.count ▸ after),table.count,List.getElem?_singleton]
        simp only [*,if_true]
      · cases found

theorem Timetable.find (table : Timetable tz programs runs) {key : Nat}
    {run : SchedRun ProgramRef} (live : runs.index key = some run) :
    ∃ program, programs[key]? = some program ∧ Slot tz program run := by
  have inside : key < programs.length := table.count ▸ IndexMap.index_lt live
  obtain ⟨other,place,slot⟩ := table.slot key _ (List.getElem?_eq_getElem inside)
  cases (IndexMap.entry_of_index live).symm.trans place
  exact ⟨_,List.getElem?_eq_getElem inside,slot⟩

theorem Timetable.set (table : Timetable tz programs runs) {key : Nat} {program : ProgramRef}
    (found : programs[key]? = some program) {run : SchedRun ProgramRef}
    (slot : Slot tz program run) :
    Timetable tz programs {runs with entries := runs.entries.set key (.element run)} where
  full := table.full
  count := by simp [table.count]
  slot i other place := by
    by_cases same : i = key
    · subst same
      cases found.symm.trans place
      obtain ⟨inside,_⟩ := List.getElem?_eq_some_iff.mp found
      exact ⟨run,List.getElem?_set_self (table.count.symm ▸ inside),slot⟩
    · rw [List.getElem?_set_ne (Ne.symm same)]
      exact table.slot i other place

/-- A pass keeps the timetable and executes what is due by it. -/
theorem Timetable.pass {data : ScheduleRunner.RunnerData ProgramRef} (chrono : CDuration)
    (readings : Readings) (waitPeriod : WaitPeriod) (table : Timetable tz programs data.runs) :
    Timetable tz programs
        (ScheduleRunner.loopBody tz chrono readings data waitPeriod).data.runs ∧
      ∀ execution ∈ (ScheduleRunner.loopBody tz chrono readings data waitPeriod).executed,
        Due tz programs execution := by
  cases quit : data.quit with
  | true =>
    rw [ScheduleRunner.loopBody_quit tz chrono quit]
    exact ⟨table,by simp⟩
  | false =>
    rw [ScheduleRunner.loopBody_going tz chrono quit]
    apply @IndexMap.forMut_steps _ _ _ (fun (walk : ScheduleRunner.Walk ProgramRef) map =>
      Timetable tz programs map ∧ ∀ execution ∈ walk.executed, Due tz programs execution) _ _ _
      ⟨table,by simp⟩
    rintro walk map key run after ⟨table,due⟩ live updated
    obtain ⟨program,found,slot⟩ := table.find live
    rw [IndexMap.update,live] at updated
    cases updated
    rcases ScheduleRunner.visit_fires tz chrono readings walk key run with
      ⟨still,unchanged⟩ | ⟨occurrence,next,late,fired,recomputed⟩
    · rw [still,unchanged]
      exact ⟨table.set found slot,due⟩
    · rw [fired,recomputed]
      refine ⟨table.set found (slot.update _),?_⟩
      intro execution member
      rcases List.mem_append.mp member with before | now
      · exact due execution before
      · rw [List.mem_singleton.mp now]
        obtain ⟨reference,computed⟩ := slot.next occurrence next
        exact ⟨slot.data ▸ found,⟨reference,slot.data ▸ computed⟩,late⟩

theorem Due.extend {execution : Execution ProgramRef} (due : Due tz programs execution)
    (more : List ProgramRef) : Due tz (programs ++ more) execution where
  program := by
    obtain ⟨inside,_⟩ := List.getElem?_eq_some_iff.mp due.program
    rw [List.getElem?_append_left inside]
    exact due.program
  next := due.next
  due := due.due

end Timetable

section Programs
variable {setting : Setting}

/-- Which of the programs have been scheduled, by where the main thread is. -/
def Main.Scheduled (programs scheduled : List ProgramRef) : Main → Prop
  | .initializing _ => scheduled = []
  | .scheduling left => programs = scheduled ++ left
  | .panicked => ∃ left, programs = scheduled ++ left
  | _ => scheduled = programs

structure Planned (setting : Setting) (s : Application) (scheduled : List ProgramRef) : Prop where
  stage : s.main.Scheduled setting.state.programs scheduled
  table : Timetable setting.tz scheduled s.shared.programs.data.data.runs
  due : ∀ execution ∈ executions s.shared.programs.data.trace, Due setting.tz scheduled execution

theorem Main.Scheduled.rest {main : Main} {programs scheduled : List ProgramRef}
    (stage : main.Scheduled programs scheduled) : ∃ left, programs = scheduled ++ left := by
  cases main with
  | initializing left => exact ⟨programs,by rw [show scheduled = [] from stage,List.nil_append]⟩
  | scheduling left => exact ⟨left,stage⟩
  | panicked => exact stage
  | _ => exact ⟨[],by rw [List.append_nil]; exact Eq.symm stage⟩

/-- A step of the thread of the program runner keeps the timetable. -/
theorem Timetable.step {scheduled : List ProgramRef} {s next : ScheduleRunner.State ProgramRef}
    {label : Monitor.Label (ScheduleRunner.Op ProgramRef)} (own : ownStep label = true)
    (step : Monitor.Step (scheduleRunner setting) s label next)
    (table : Timetable setting.tz scheduled s.data.data.runs) :
    Timetable setting.tz scheduled next.data.data.runs ∧
      ∃ executed, executions next.data.trace = executions s.data.trace ++ executed ∧
        ∀ execution ∈ executed, Due setting.tz scheduled execution := by
  cases step with
  | update | outside => cases own
  | sleep | release => exact ⟨table,[],(List.append_nil _).symm,by simp⟩
  | pass exit data thread awake ran =>
    obtain ⟨readings,_,_,_,rfl⟩ := ran
    obtain ⟨kept,due⟩ := table.pass setting.chrono readings s.thread.waitPeriod
    refine ⟨kept,_,?_,due⟩
    rw [executions_append,executions_executed]

theorem Planned.keep {s next : Application} {scheduled : List ProgramRef}
    (planned : Planned setting s scheduled)
    (stage : next.main.Scheduled setting.state.programs scheduled)
    (same : next.shared.programs = s.shared.programs) : Planned setting next scheduled where
  stage := stage
  table := same ▸ planned.table
  due := same ▸ planned.due

private theorem planned_main {s next : Application} {scheduled : List ProgramRef}
    (planned : Planned setting s scheduled) (step : MainStep setting s next) :
    ∃ more, Planned setting next more := by
  have stage := planned.stage
  cases step with
  | schedules program left now guard world here free inserted returned =>
    rw [here] at stage
    obtain ⟨_,_,inserted⟩ := inserted
    have silent := schedule_executions inserted
    obtain ⟨⟨runs,key⟩,placed,rfl⟩ := Option.map_eq_some_iff.mp inserted
    refine ⟨scheduled ++ [program],?_,(planned.table.insert program (.new program now) placed).1,?_⟩
    · exact Eq.trans stage (List.append_cons scheduled program left)
    · intro execution member
      exact (planned.due execution (silent ▸ member)).extend [program]
  | stopsPrograms world here free stopped =>
    rw [here] at stage
    obtain ⟨_,_,rfl⟩ := stopped
    exact ⟨scheduled,stage,planned.table,planned.due⟩
  | initialized here =>
    rw [here] at stage
    have nothing : scheduled = [] := stage
    exact ⟨scheduled,planned.keep (by rw [nothing]; rfl) rfl⟩
  | serves here =>
    rw [here] at stage
    exact ⟨scheduled,planned.keep (Eq.symm (Eq.trans stage (List.append_nil _))) rfl⟩
  | schedulePanics | killFails | joinFails | unwrapFails | stopSectionsPanics
  | joinSectionsPanics | stopProgramsPanics | joinProgramsPanics =>
    exact ⟨scheduled,planned.keep stage.rest rfl⟩
  | setState sec left here | interrupted here | upgrades session here | exited session here
  | clears here | kills here | joins session here | unwraps session panicking here
  | stopsSections world here | joinsSections here | joinsPrograms here =>
    rw [here] at stage
    exact ⟨scheduled,planned.keep stage rfl⟩

theorem planned_reachable {clock : Instant} {now : Int} {s : Application}
    (reached : Reachable setting clock now s) : ∃ scheduled, Planned setting s scheduled := by
  apply reached.invariant (fun s => ∃ scheduled, Planned setting s scheduled)
  · refine ⟨[],rfl,⟨rfl,rfl,by simp⟩,?_⟩
    simp [new,ScheduleRunner.startNew,ScheduleRunner.World.new,executions]
  rintro before after ⟨scheduled,planned⟩ step
  cases step with
  | main next step => exact planned_main planned step
  | api session next shared here step =>
    refine ⟨scheduled,planned.keep planned.stage ?_⟩
    rcases MqttApi.step_effect step with ⟨msg,result,done,_⟩ | ⟨rfl,_⟩
    · exact (processes_handled done).programs
    · rfl
  | runner shared step =>
    cases step with
    | programs label next executed own idle step did =>
      obtain ⟨table,more,grown,due⟩ := planned.table.step own step
      refine ⟨scheduled,planned.stage,table,?_⟩
      intro execution member
      rcases List.mem_append.mp (grown ▸ member) with earlier | new
      · exact planned.due execution earlier
      · exact due execution new
    | _ => exact ⟨scheduled,planned.keep planned.stage rfl⟩

theorem Planned.due_whole {s : Application} {scheduled : List ProgramRef}
    (planned : Planned setting s scheduled) :
    ∀ execution ∈ executions s.shared.programs.data.trace,
      Due setting.tz setting.state.programs execution := by
  obtain ⟨left,all⟩ := planned.stage.rest
  intro execution member
  rw [all]
  exact (planned.due execution member).extend left

/-- The program runner has the programs of the configuration that have been scheduled so far, each
under its own schedule, and has executed no others, and none before an occurrence. -/
theorem programs_as_configured {clock : Instant} {now : Int} {s : Application}
    (reached : Reachable setting clock now s) : ∃ scheduled,
      s.main.Scheduled setting.state.programs scheduled ∧
      Timetable setting.tz scheduled s.shared.programs.data.data.runs ∧
      ∀ execution ∈ executions s.shared.programs.data.trace,
        Due setting.tz scheduled execution := by
  obtain ⟨scheduled,planned⟩ := planned_reachable reached
  exact ⟨scheduled,planned.stage,planned.table,planned.due⟩

theorem programs_as_configured_mown : ∃ s : Application,
    (executions s.shared.programs.data.trace).map Execution.data = [mow] ∧
      ∃ scheduled, s.main.Scheduled [mow] scheduled ∧
        Timetable (ChronoModel.localAt 0) scheduled s.shared.programs.data.data.runs ∧
        ∀ execution ∈ executions s.shared.programs.data.trace,
          Due (ChronoModel.localAt 0) scheduled execution := by
  obtain ⟨programs,executed,fired⟩ := mow_executed
  exact ⟨_,fired,programs_as_configured executed⟩

/-- What has become of an instant at which the program with this number is to run. -/
inductive Met (s : Application) (i : Nat) (program : ProgramRef) (instant : Int) : Prop
  | executed (execution : Execution ProgramRef)
      (fired : execution ∈ executions s.shared.programs.data.trace) (slot : execution.index = i)
      (exactly : execution.occurrence = instant)
  | passed (execution : Execution ProgramRef)
      (fired : execution ∈ executions s.shared.programs.data.trace) (slot : execution.index = i)
      (earlier : execution.occurrence < instant) (late : instant < execution.recomputed)
  | awaited (run : SchedRun ProgramRef) (next : Int)
      (live : s.shared.programs.data.data.runs.index i = some run) (data : run.data = program)
      (stored : run.nextRun = some next) (ahead : next ≤ instant)

theorem mem_executions {guard : ScheduleRunner.Guard} {execution : Execution ProgramRef}
    {trace : List (ScheduleRunner.Event ProgramRef)}
    (fired : execution ∈ ScheduleRunner.firedSince guard trace) :
    execution ∈ executions trace ∧ execution.index = guard.index := by
  obtain ⟨executed,slot⟩ := ScheduleRunner.firedSince_mem fired
  exact ⟨List.mem_filterMap.mpr ⟨_,executed,rfl⟩,slot⟩

theorem Main.Scheduled.all {main : Main} {programs scheduled : List ProgramRef}
    (stage : main.Scheduled programs scheduled) (started : main.starting = false)
    (going : main ≠ .panicked) : scheduled = programs := by
  cases main with
  | initializing | scheduling => cases started
  | panicked => exact absurd rfl going
  | _ => exact stage

/-- From the moment at which it has been scheduled, a program misses no instant of its schedule: it
is executed for it, or was executed too late for an earlier one, or is still to be executed. -/
theorem programs_not_missed {calendar : Calendar} {offset : Int} {clock : Instant} {now : Int}
    {s : Application} (zone : setting.tz = fixedLocal calendar offset)
    (reached : Reachable setting clock now s) (started : s.main.starting = false)
    (going : s.main ≠ .panicked) {i : Nat} {program : ProgramRef}
    (configured : setting.state.programs[i]? = some program)
    (bounds : OneBound program.schedule.fromBound program.schedule.toBound) :
    ∃ guard since, guard.index = i ∧ ScheduleRunner.latest (ScheduleRunner.Event.schedule? guard)
        s.shared.programs.data.trace = some (program.schedule,since) ∧
      ∀ instant ∈ ScheduleRunner.Asks setting.tz program.schedule, since ≤ instant →
        Met s i program instant := by
  obtain ⟨scheduled,planned⟩ := planned_reachable reached
  cases planned.stage.all started going
  obtain ⟨run,place,slot⟩ := planned.table.slot i program configured
  have live : s.shared.programs.data.data.runs.index i = some run := by
    rw [IndexMap.index,place]
    rfl
  have recorded := ScheduleRunner.recorded_reachable (programs_reachable reached)
  obtain ⟨guard,here,alive,⟨since,set⟩,_⟩ := recorded.registered.owned i run live
  rw [slot.sched] at set
  refine ⟨guard,since,here,set,?_⟩
  intro instant asked after
  rw [zone] at asked
  have reachable := programs_reachable reached
  rw [scheduleRunner,zone] at reachable
  rcases ScheduleRunner.occurrence_kept reachable alive set bounds asked after with
    ⟨execution,fired,exactly⟩ | ⟨execution,fired,earlier,late⟩ | ⟨other,next,found,stored,ahead⟩
  · obtain ⟨executed,slot⟩ := mem_executions fired
    exact .executed execution executed (slot.trans here) exactly
  · obtain ⟨executed,slot⟩ := mem_executions fired
    exact .passed execution executed (slot.trans here) earlier late
  · rw [here] at found
    cases live.symm.trans found
    exact .awaited run next live slot.data stored ahead

theorem programs_not_missed_mown : ∃ s : Application, ∃ guard since, guard.index = 0 ∧
    ScheduleRunner.latest (ScheduleRunner.Event.schedule? guard)
        s.shared.programs.data.trace = some (mow.schedule,since) ∧
      ∀ instant ∈ ScheduleRunner.Asks (ChronoModel.localAt 0) mow.schedule, since ≤ instant →
        Met s 0 mow instant := by
  have serving := mow_scheduled.tail (.main _ (.serves rfl))
  exact ⟨_,programs_not_missed rfl serving rfl (by simp) rfl .none⟩

end Programs
end Rinklers.Application
