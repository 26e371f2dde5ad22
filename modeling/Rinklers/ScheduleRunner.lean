import Rinklers.IndexMap
import Rinklers.Schedule
import Rinklers.Util
import Rinklers.Foundation.Monitor

/-! `schedule_runner.rs`: the scheduled runs and the thread that executes them when they are due.
The executor is whatever `execute` does with its argument: here it records it. As in the section
runner, a trace that the program does not have says what happened, and at which clock reading.
The log texts are left out; printing them neither fails nor changes anything. -/
namespace Rinklers.ScheduleRunner
open Foundation

variable {Data : Type}

structure SchedRun (Data : Type) where
  sched : Schedule
  data : Data
  nextRun : Option Int
deriving DecidableEq

section SchedRun
variable (tz : Local) (chrono : CDuration)

def SchedRun.updateNextRun (run : SchedRun Data) (now : Int) : SchedRun Data :=
  {run with nextRun := run.sched.nextRunAfter tz now}

@[simp] theorem SchedRun.updateNextRun_sched (run : SchedRun Data) (now : Int) :
    (run.updateNextRun tz now).sched = run.sched := rfl

@[simp] theorem SchedRun.updateNextRun_data (run : SchedRun Data) (now : Int) :
    (run.updateNextRun tz now).data = run.data := rfl

def SchedRun.new (sched : Schedule) (data : Data) (now : Int) : SchedRun Data :=
  SchedRun.updateNextRun tz ⟨sched,data,none⟩ now

def SchedRun.tillRun (run : SchedRun Data) (now : Int) : Option chrono.Carrier :=
  run.nextRun.map (fun nextRun => chrono.between nextRun now)

def SchedRun.updateSchedule (newSchedule : Schedule) (now : Int) (run : SchedRun Data) :
    Schedule × SchedRun Data :=
  (run.sched,SchedRun.updateNextRun tz {run with sched := newSchedule} now)

end SchedRun

structure RunnerData (Data : Type) where
  quit : Bool
  runs : IndexMap (SchedRun Data)
deriving DecidableEq

def RunnerData.new : RunnerData Data := ⟨false,IndexMap.new⟩

/-- A call of `execute`: for which slot, with what data, for which occurrence, at which reading of
the clock, and the reading with which `next_run` is computed after it. -/
structure Execution (Data : Type) where
  index : Nat
  data : Data
  occurrence : Int
  time : Int
  recomputed : Int
deriving DecidableEq, Repr

/-- The readings of the clock that a pass over the runs takes: the one of `till_run` for slot `i`
at `2 * i`, and the one of `next_run`, where the run was due, after it. -/
abbrev Readings := Nat → Int

/-- The variables of the loop over the runs. A loop that has panicked visits nothing more. -/
structure Walk (Data : Type) where
  waitPeriod : WaitPeriod
  executed : List (Execution Data)
  panicked : Bool
deriving DecidableEq, Repr

structure Pass (Data : Type) where
  exit : Monitor.Exit
  data : RunnerData Data
  waitPeriod : WaitPeriod
  executed : List (Execution Data)
deriving DecidableEq

section Loop
variable (tz : Local) (chrono : CDuration)

def visit (readings : Readings) (walk : Walk Data) (index : Nat) (run : SchedRun Data) :
    Walk Data × SchedRun Data :=
  if walk.panicked then (walk,run) else
  match run.nextRun, run.tillRun chrono (readings (2 * index)) with
  | some occurrence, some left =>
    if !chrono.lt chrono.zero left then
      ({walk with
          executed := walk.executed ++
            [⟨index,run.data,occurrence,readings (2 * index),readings (2 * index + 1)⟩]
          waitPeriod := .none},
        run.updateNextRun tz (readings (2 * index + 1)))
    else
      match chrono.toStd left with
      | some left => ({walk with waitPeriod := walk.waitPeriod.min (.atMost left)},run)
      | none => ({walk with panicked := true},run)
  | _, _ => (walk,run)

/-- What a visit can do, with the guards under which the source does it. -/
inductive Visited (readings : Readings) (walk : Walk Data) (index : Nat) (run : SchedRun Data) :
    Walk Data × SchedRun Data → Prop
  | skipped (panicked : walk.panicked = true) : Visited readings walk index run (walk,run)
  | unscheduled (going : walk.panicked = false) (never : run.nextRun = none) :
      Visited readings walk index run (walk,run)
  | executed (occurrence : Int) (going : walk.panicked = false)
      (next : run.nextRun = some occurrence) (due : occurrence ≤ readings (2 * index)) :
      Visited readings walk index run
        ({walk with
            executed := walk.executed ++
              [⟨index,run.data,occurrence,readings (2 * index),readings (2 * index + 1)⟩]
            waitPeriod := .none},
          run.updateNextRun tz (readings (2 * index + 1)))
  | ahead (occurrence : Int) (left : Duration) (going : walk.panicked = false)
      (next : run.nextRun = some occurrence)
      (length : (left.nanos : Int) = occurrence - readings (2 * index)) :
      Visited readings walk index run
        ({walk with waitPeriod := walk.waitPeriod.min (.atMost left)},run)
  | failed (occurrence : Int) (going : walk.panicked = false)
      (next : run.nextRun = some occurrence) (early : readings (2 * index) < occurrence) :
      Visited readings walk index run ({walk with panicked := true},run)

theorem visit_visited (readings : Readings) (walk : Walk Data) (index : Nat)
    (run : SchedRun Data) :
    Visited tz readings walk index run (visit tz chrono readings walk index run) := by
  unfold visit SchedRun.tillRun
  split
  · rename_i panicked
    exact .skipped panicked
  · rename_i unstopped
    have going : walk.panicked = false := by simpa using unstopped
    cases next : run.nextRun with
    | none => exact .unscheduled going next
    | some occurrence =>
      have ahead := chrono.lt_iff chrono.zero (chrono.between occurrence (readings (2 * index)))
      rw [chrono.nanos_zero,chrono.nanos_between] at ahead
      simp only [Option.map_some,Bool.not_eq_true']
      split
      · rename_i due
        simp only [due,Bool.false_eq_true,false_iff] at ahead
        exact .executed occurrence going next (by omega)
      · rename_i early
        cases converted : chrono.toStd (chrono.between occurrence (readings (2 * index))) with
        | some left =>
          have length := chrono.nanos_toStd _ _ converted
          rw [chrono.nanos_between] at length
          exact .ahead occurrence left going next length
        | none =>
          rw [Bool.not_eq_false] at early
          have positive := ahead.mp early
          exact .failed occurrence going next (by omega)

/-- One iteration of the loop of `ScheduleRunner::run`, from the moment it has the lock. -/
def loopBody (readings : Readings) (data : RunnerData Data) (waitPeriod : WaitPeriod) :
    Pass Data :=
  if data.quit then ⟨.done,data,waitPeriod,[]⟩ else
  let (walk, runs) := data.runs.forMut (visit tz chrono readings) ⟨.wait,[],false⟩
  ⟨if walk.panicked then .panic else .next,{data with runs := runs},walk.waitPeriod,walk.executed⟩

theorem loopBody_quit {data : RunnerData Data} (quit : data.quit = true) (readings : Readings)
    (waitPeriod : WaitPeriod) :
    loopBody tz chrono readings data waitPeriod = ⟨.done,data,waitPeriod,[]⟩ := by
  simp only [loopBody,quit,if_true]

theorem loopBody_going {data : RunnerData Data} (going : data.quit = false) (readings : Readings)
    (waitPeriod : WaitPeriod) :
    loopBody tz chrono readings data waitPeriod =
      let walked := data.runs.forMut (visit tz chrono readings) ⟨.wait,[],false⟩
      ⟨if walked.1.panicked then .panic else .next,{data with runs := walked.2},
        walked.1.waitPeriod,walked.1.executed⟩ := by
  simp only [loopBody,going,Bool.false_eq_true,if_false]

end Loop

/-- A `ScheduleGuard`: its index, and the number of the call of `schedule` that returned it. -/
structure Guard where
  number : Nat
  index : Nat
deriving DecidableEq, Repr

inductive Event (Data : Type)
  | scheduled (guard : Guard) (sched : Schedule) (data : Data) (time : Int)
  | scheduleUpdated (guard : Guard) (sched : Schedule) (time : Int)
  | dataUpdated (guard : Guard) (data : Data)
  | stopped (guard : Guard) (sched : Schedule) (data : Data)
  | executed (execution : Execution Data)
deriving DecidableEq

/-- Everything around the lock: the data it protects, the guards that clients hold, the number of
calls of `schedule`, the latest clock reading and the trace. -/
structure World (Data : Type) where
  data : RunnerData Data
  guards : List Guard
  scheduled : Nat
  clock : Int
  trace : List (Event Data)
deriving DecidableEq

namespace World
variable (tz : Local) (w : World Data)

/-- `ScheduleRunner::schedule`. Here and below `none` is a panic. -/
def schedule (sched : Schedule) (data : Data) (now : Int) : Option (World Data) :=
  (w.data.runs.insert (SchedRun.new tz sched data now)).map (fun (runs, index) =>
    let guard : Guard := ⟨w.scheduled,index⟩
    {data := {w.data with runs := runs}
     guards := w.guards ++ [guard]
     scheduled := w.scheduled + 1
     clock := now
     trace := w.trace ++ [.scheduled guard sched data now]})

def updateSchedule (guard : Guard) (newSchedule : Schedule) (now : Int) : Option (World Data) :=
  (w.data.runs.update guard.index (SchedRun.updateSchedule tz newSchedule now)).map
    (fun (_, runs) =>
      {w with
        data := {w.data with runs := runs}
        clock := now
        trace := w.trace ++ [.scheduleUpdated guard newSchedule now]})

def updateData (guard : Guard) (newData : Data) : Option (World Data) :=
  (w.data.runs.update guard.index (fun run => (run.data,{run with data := newData}))).map
    (fun (_, runs) =>
      {w with
        data := {w.data with runs := runs}
        trace := w.trace ++ [.dataUpdated guard newData]})

def stop (guard : Guard) : Option (World Data) :=
  (w.data.runs.remove guard.index).bind (fun (removed, runs) => removed.map (fun run =>
    {w with
      data := {w.data with runs := runs}
      guards := w.guards.erase guard
      trace := w.trace ++ [.stopped guard run.sched run.data]}))

def quit : World Data := {w with data := {w.data with quit := true}}

def forget (guard : Guard) : World Data := {w with guards := w.guards.erase guard}

end World

inductive Op (Data : Type)
  | schedule (sched : Schedule) (data : Data) (now : Int)
  | updateSchedule (guard : Guard) (newSchedule : Schedule) (now : Int)
  | updateData (guard : Guard) (newData : Data)
  | stop (guard : Guard)
  | quit

abbrev Timekeeping := Int → Readings → Prop

/-- The clock does not move while a thread holds the lock; between two such moments it may do
anything. -/
def OneInstant : Timekeeping := fun _ readings => ∀ k, readings k = readings 0

section Runner
variable (tz : Local) (chrono : CDuration) (timekeeping : Timekeeping)

/-- A guard borrows the runner, so that the runner is dropped, once, when no guards are left. -/
def update : Op Data → World Data → World Data → Prop
  | .schedule sched data now => fun w next =>
    w.data.quit = false ∧ timekeeping w.clock (fun _ => now) ∧
      w.schedule tz sched data now = some next
  | .updateSchedule guard newSchedule now => fun w next =>
    guard ∈ w.guards ∧ timekeeping w.clock (fun _ => now) ∧
      w.updateSchedule tz guard newSchedule now = some next
  | .updateData guard newData => fun w next =>
    guard ∈ w.guards ∧ w.updateData guard newData = some next
  | .stop guard => fun w next => guard ∈ w.guards ∧ w.stop guard = some next
  | .quit => fun w next => w.data.quit = false ∧ w.guards = [] ∧ next = w.quit

inductive Outside : World Data → World Data → Prop
  | forget (w : World Data) (guard : Guard) (held : guard ∈ w.guards) : Outside w (w.forget guard)

/-- The variables of the thread; `passTime` is the clock when its latest pass began. -/
structure Thread where
  waitPeriod : WaitPeriod
  passTime : Int
deriving DecidableEq, Repr

def body (w : World Data) (thread : Thread) (exit : Monitor.Exit) (next : World Data)
    (after : Thread) : Prop :=
  ∃ readings, timekeeping w.clock readings ∧
    let pass := loopBody tz chrono readings w.data thread.waitPeriod
    pass.exit = exit ∧ after = ⟨pass.waitPeriod,readings 0⟩ ∧
      next = {w with
        data := pass.data
        clock := readings (2 * w.data.runs.entries.length)
        trace := w.trace ++ pass.executed.map .executed}

def runner : Monitor.Loop (Op Data) (World Data) Thread where
  update := update tz timekeeping
  outside := Outside
  body := body tz chrono timekeeping
  sleeps thread := thread.waitPeriod.sleeps = true

end Runner

abbrev State (Data : Type) := Monitor.State (World Data) Thread

def World.new (clock : Int) : World Data := ⟨RunnerData.new,[],0,clock,[]⟩

def startNew (clock : Int) : State Data := ⟨.top,World.new clock,⟨.wait,clock⟩⟩

end Rinklers.ScheduleRunner
