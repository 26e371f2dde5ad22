import Rinklers.Util
import Rinklers.ChronoModel
import Rinklers.Foundation.Monitor
import Mathlib.Logic.Function.Basic

/-! `section_runner.rs`: the queue of section runs and the thread that serves it.
The thread and its clients share a mutex and a condition variable. What the thread does to
the outside (valves and notifications) is returned as a list of effects and recorded, with
the clock reading it was done at, in a trace that the program itself does not have. -/
namespace Rinklers.SectionRunner
open Foundation

variable {Sec : Type}

inductive RunNotification
  | start
  | finish
  | interrupted
deriving DecidableEq, Repr

/-- The sending end of the channel of one run; every call of `run_section` makes a new one. -/
abbrev Sender := Nat

structure SecRun (Sec : Type) where
  sec : Sec
  dur : Duration
  notificationSender : Sender
deriving DecidableEq, Repr

structure RunnerData (Sec : Type) where
  quit : Bool
  queue : List (SecRun Sec)
deriving DecidableEq, Repr

def RunnerData.new : RunnerData Sec := ⟨false,[]⟩

structure Run (Sec : Type) where
  sec : Sec
  dur : Duration
  startTime : Instant
  notify : Sender
deriving DecidableEq, Repr

structure Thread (Sec : Type) where
  currentRun : Option (Run Sec)
  waitPeriod : WaitPeriod
deriving DecidableEq, Repr

inductive Effect (Sec : Type)
  | setState (sec : Sec) (state : Bool)
  | send (sender : Sender) (notification : RunNotification)
deriving DecidableEq, Repr

structure Pass (Sec : Type) where
  exit : Monitor.Exit
  data : RunnerData Sec
  thread : Thread Sec
  effects : List (Effect Sec)
deriving DecidableEq, Repr

/-- A log line that prints durations panics when it is evaluated and one cannot be printed. -/
def logPanics (chrono : CDuration) (evaluated : Bool) (durations : List Duration) : Bool :=
  evaluated && durations.any (fun dur => (durationString chrono dur).isNone)

/-- One iteration of the loop of `SectionRunner::run`, from the moment it has the lock; `now` is
the reading of the clock in it. -/
def loopBody (chrono : CDuration) (log : LogLevelFilter) (now : Instant) (data : RunnerData Sec)
    (thread : Thread Sec) : Pass Sec :=
  if logPanics chrono log.traces (data.queue.map SecRun.dur) then ⟨.panic,data,thread,[]⟩
  else if data.quit then
    match thread.currentRun with
    | some run =>
      if logPanics chrono log.debugs [run.startTime.elapsed now] then ⟨.panic,data,thread,[]⟩
      else
        ⟨.done,{data with queue := []},{thread with currentRun := none},
          .setState run.sec false :: .send run.notify .interrupted ::
            data.queue.map (fun run => .send run.notificationSender .interrupted)⟩
    | none => ⟨.done,data,thread,[]⟩
  else
    match thread.currentRun with
    | some run =>
      let elapsed := run.startTime.elapsed now
      if run.dur ≤ elapsed then
        if logPanics chrono log.traces [elapsed] then ⟨.panic,data,thread,[]⟩
        else ⟨.next,data,⟨none,.none⟩,[.setState run.sec false,.send run.notify .finish]⟩
      else ⟨.next,data,⟨some run,.atMost (run.dur.sub elapsed)⟩,[]⟩
    | none =>
      match data.queue with
      | run::queue =>
        if logPanics chrono log.debugs [run.dur] then ⟨.panic,{data with queue := queue},thread,[]⟩
        else
          ⟨.next,{data with queue := queue},
            ⟨some ⟨run.sec,run.dur,now,run.notificationSender⟩,.atMost run.dur⟩,
            [.setState run.sec true,.send run.notificationSender .start]⟩
      | [] => ⟨.next,data,⟨none,.wait⟩,[]⟩

/-- What one iteration can do, with the guards under which the source does it. -/
inductive Outcome (now : Instant) (data : RunnerData Sec) (thread : Thread Sec) :
    Pass Sec → Prop
  | failed : Outcome now data thread ⟨.panic,data,thread,[]⟩
  | dropped (run : SecRun Sec) (queue) (going : data.quit = false)
      (free : thread.currentRun = none) (front : data.queue = run::queue) :
      Outcome now data thread ⟨.panic,{data with queue := queue},thread,[]⟩
  | interrupted (run : Run Sec) (quit : data.quit = true) (running : thread.currentRun = some run) :
      Outcome now data thread
        ⟨.done,{data with queue := []},{thread with currentRun := none},
          .setState run.sec false :: .send run.notify .interrupted ::
            data.queue.map (fun run => .send run.notificationSender .interrupted)⟩
  | left (quit : data.quit = true) (free : thread.currentRun = none) :
      Outcome now data thread ⟨.done,data,thread,[]⟩
  | finished (run : Run Sec) (going : data.quit = false) (running : thread.currentRun = some run)
      (due : run.dur ≤ run.startTime.elapsed now) :
      Outcome now data thread
        ⟨.next,data,⟨none,.none⟩,[.setState run.sec false,.send run.notify .finish]⟩
  | continued (run : Run Sec) (going : data.quit = false) (running : thread.currentRun = some run)
      (early : ¬ run.dur ≤ run.startTime.elapsed now) :
      Outcome now data thread
        ⟨.next,data,⟨some run,.atMost (run.dur.sub (run.startTime.elapsed now))⟩,[]⟩
  | started (run : SecRun Sec) (queue) (going : data.quit = false)
      (free : thread.currentRun = none) (front : data.queue = run::queue) :
      Outcome now data thread
        ⟨.next,{data with queue := queue},
          ⟨some ⟨run.sec,run.dur,now,run.notificationSender⟩,.atMost run.dur⟩,
          [.setState run.sec true,.send run.notificationSender .start]⟩
  | rested (going : data.quit = false) (free : thread.currentRun = none)
      (empty : data.queue = []) : Outcome now data thread ⟨.next,data,⟨none,.wait⟩,[]⟩

theorem loopBody_outcome (chrono : CDuration) (log : LogLevelFilter) (now : Instant)
    (data : RunnerData Sec) (thread : Thread Sec) :
    Outcome now data thread (loopBody chrono log now data thread) := by
  unfold loopBody
  split
  · exact .failed
  · split
    · rename_i quit
      cases running : thread.currentRun with
      | some run =>
        dsimp only
        split
        · exact .failed
        · exact .interrupted run quit running
      | none => exact .left quit running
    · rename_i quit
      have going : data.quit = false := by simpa using quit
      cases running : thread.currentRun with
      | some run =>
        dsimp only
        split
        · rename_i due
          split
          · exact .failed
          · exact .finished run going running due
        · rename_i early
          exact .continued run going running early
      | none =>
        cases front : data.queue with
        | cons run queue =>
          dsimp only
          split
          · exact .dropped run queue going running front
          · exact .started run queue going running front
        | nil => exact .rested going running front

/-- The receiving end of a channel: whether it is still held, and what waits in it. -/
structure Channel where
  connected : Bool
  buffer : List RunNotification
deriving DecidableEq, Repr

/-- A send to a receiver that has hung up fails, and the runner ignores the failure. -/
def Channel.send (channel : Channel) (notification : RunNotification) : Channel :=
  if channel.connected then {channel with buffer := channel.buffer ++ [notification]} else channel

def Channel.receive (channel : Channel) : Channel :=
  {channel with buffer := channel.buffer.tail}

inductive Event (Sec : Type)
  | pushed (run : SecRun Sec)
  | performed (time : Instant) (effect : Effect Sec)
deriving DecidableEq, Repr

/-- Everything around the lock: the data it protects, the valves, the channels made so far, the
latest clock reading and the trace. -/
structure World (Sec : Type) where
  data : RunnerData Sec
  sections : Sec → Bool
  channel : Sender → Channel
  channels : Nat
  clock : Instant
  trace : List (Event Sec)

variable [DecidableEq Sec]

namespace World

def perform (now : Instant) (w : World Sec) : Effect Sec → World Sec
  | .setState sec state =>
    {w with
      sections := Function.update w.sections sec state
      trace := w.trace ++ [.performed now (.setState sec state)]}
  | .send sender notification =>
    {w with
      channel := Function.update w.channel sender ((w.channel sender).send notification)
      trace := w.trace ++ [.performed now (.send sender notification)]}

def runSection (w : World Sec) (sec : Sec) (dur : Duration) : World Sec :=
  let run : SecRun Sec := ⟨sec,dur,w.channels⟩
  {w with
    data := {w.data with queue := w.data.queue ++ [run]}
    channel := Function.update w.channel w.channels ⟨true,[]⟩
    channels := w.channels + 1
    trace := w.trace ++ [.pushed run]}

def stop (w : World Sec) : World Sec := {w with data := {w.data with quit := true}}

def hangUp (w : World Sec) (sender : Sender) : World Sec :=
  {w with channel := Function.update w.channel sender ⟨false,[]⟩}

def receive (w : World Sec) (sender : Sender) : World Sec :=
  {w with channel := Function.update w.channel sender (w.channel sender).receive}

end World

namespace World

theorem performs_data (now : Instant) (effects : List (Effect Sec)) (w : World Sec) :
    (effects.foldl (perform now) w).data = w.data := by
  induction effects generalizing w with
  | nil => rfl
  | cons effect rest ih =>
    rw [List.foldl_cons,ih]
    cases effect <;> rfl

theorem performs_channels (now : Instant) (effects : List (Effect Sec)) (w : World Sec) :
    (effects.foldl (perform now) w).channels = w.channels := by
  induction effects generalizing w with
  | nil => rfl
  | cons effect rest ih =>
    rw [List.foldl_cons,ih]
    cases effect <;> rfl

theorem performs_clock (now : Instant) (effects : List (Effect Sec)) (w : World Sec) :
    (effects.foldl (perform now) w).clock = w.clock := by
  induction effects generalizing w with
  | nil => rfl
  | cons effect rest ih =>
    rw [List.foldl_cons,ih]
    cases effect <;> rfl

theorem performs_trace (now : Instant) (effects : List (Effect Sec)) (w : World Sec) :
    (effects.foldl (perform now) w).trace = w.trace ++ effects.map (.performed now) := by
  induction effects generalizing w with
  | nil => simp
  | cons effect rest ih =>
    rw [List.foldl_cons,ih]
    cases effect <;> simp [perform]

end World

inductive Op (Sec : Type)
  | runSection (sec : Sec) (dur : Duration)
  | stop

/-- `stop` consumes the one `SectionRunner` that can join the thread, so it runs at most once. -/
def update : Op Sec → World Sec → World Sec → Prop
  | .runSection sec dur => fun w next => next = w.runSection sec dur
  | .stop => fun w next => w.data.quit = false ∧ next = w.stop

inductive Outside : World Sec → World Sec → Prop
  | hangUp (w : World Sec) (sender : Sender) : Outside w (w.hangUp sender)
  | receive (w : World Sec) (sender : Sender) : Outside w (w.receive sender)

variable (chrono : CDuration) (log : LogLevelFilter)

def body (w : World Sec) (thread : Thread Sec) (exit : Monitor.Exit) (next : World Sec)
    (after : Thread Sec) : Prop :=
  ∃ now, w.clock ≤ now ∧
    let pass := loopBody chrono log now w.data thread
    pass.exit = exit ∧ pass.thread = after ∧
      next = pass.effects.foldl (World.perform now) {w with data := pass.data, clock := now}

variable {chrono log} in
theorem body_outcome {w next : World Sec} {thread after : Thread Sec} {exit : Monitor.Exit}
    (ran : body chrono log w thread exit next after) :
    ∃ now pass, w.clock ≤ now ∧ Outcome now w.data thread pass ∧ exit = pass.exit ∧
      after = pass.thread ∧
      next = pass.effects.foldl (World.perform now) {w with data := pass.data, clock := now} := by
  obtain ⟨now,later,exits,threads,made⟩ := ran
  have outcome := loopBody_outcome chrono log now w.data thread
  exact ⟨now,_,later,outcome,exits.symm,threads.symm,made⟩

def runner : Monitor.Loop (Op Sec) (World Sec) (Thread Sec) where
  update := update
  outside := Outside
  body := body chrono log
  sleeps thread := thread.waitPeriod.sleeps = true

abbrev State (Sec : Type) := Monitor.State (World Sec) (Thread Sec)

def World.new (clock : Instant) : World Sec :=
  ⟨RunnerData.new,fun _ => false,fun _ => ⟨false,[]⟩,0,clock,[]⟩

def startNew (clock : Instant) : State Sec :=
  ⟨.top,World.new clock,⟨none,.wait⟩⟩

inductive Move (Sec : Type)
  | runSection (sec : Sec) (dur : Duration)
  | stop
  | sleep
  | pass (now : Instant)
  | release

def Move.label : Move Sec → Monitor.Label (Op Sec)
  | .runSection sec dur => .update (.runSection sec dur)
  | .stop => .update .stop
  | .sleep => .sleep
  | .pass _ => .pass
  | .release => .release

def awake (s : State Sec) : Bool :=
  match s.phase with
  | .top => !s.thread.waitPeriod.sleeps
  | .waiting _ => true
  | .holding | .returned | .panicked => false

def move (s : State Sec) : Move Sec → Option (State Sec)
  | .runSection sec dur =>
    if s.phase.free then some ⟨s.phase.notify,s.data.runSection sec dur,s.thread⟩ else none
  | .stop =>
    if s.phase.free && !s.data.data.quit then some ⟨s.phase.notify,s.data.stop,s.thread⟩ else none
  | .sleep =>
    if s.phase = .top ∧ s.thread.waitPeriod.sleeps then some {s with phase := .waiting false}
    else none
  | .pass now =>
    if awake s ∧ s.data.clock.nanos ≤ now.nanos then
      let pass := loopBody chrono log now s.data.data s.thread
      some ⟨pass.exit.phase,
        pass.effects.foldl (World.perform now) {s.data with data := pass.data, clock := now},
        pass.thread⟩
    else none
  | .release => if s.phase = .holding then some {s with phase := .top} else none

def play (s : State Sec) (moves : List (Move Sec)) : Option (State Sec) :=
  moves.foldlM (move chrono log) s

theorem move_step {s next : State Sec} {choice : Move Sec}
    (moved : move chrono log s choice = some next) :
    Monitor.Step (runner chrono log) s choice.label next := by
  cases choice with
  | runSection sec dur =>
    simp only [move,Option.ite_none_right_eq_some,Option.some.injEq] at moved
    obtain ⟨free,rfl⟩ := moved
    exact .update _ _ free rfl
  | stop =>
    simp only [move,Option.ite_none_right_eq_some,Option.some.injEq,Bool.and_eq_true,
      Bool.not_eq_true'] at moved
    obtain ⟨⟨free,going⟩,rfl⟩ := moved
    exact .update _ _ free ⟨going,rfl⟩
  | sleep =>
    simp only [move,Option.ite_none_right_eq_some,Option.some.injEq] at moved
    obtain ⟨⟨top,sleeps⟩,rfl⟩ := moved
    exact .sleep top sleeps
  | pass now =>
    simp only [move,Option.ite_none_right_eq_some,Option.some.injEq] at moved
    obtain ⟨⟨ready,later⟩,rfl⟩ := moved
    refine .pass _ _ _ ?_ ⟨now,later,rfl,rfl,rfl⟩
    cases phase : s.phase with
    | top => exact Or.inl ⟨phase,by simpa [runner,awake,phase] using ready⟩
    | waiting notified => exact Or.inr ⟨notified,phase⟩
    | holding | returned | panicked => simp [awake,phase] at ready
  | release =>
    simp only [move,Option.ite_none_right_eq_some,Option.some.injEq] at moved
    obtain ⟨holding,rfl⟩ := moved
    exact .release holding

/-- The rule for moves played one after the other: what each of them keeps. -/
theorem play_rule {holds : State Sec → Prop}
    (keep : ∀ s first next, holds s → move chrono log s first = some next → holds next)
    {s final : State Sec} {moves : List (Move Sec)} (start : holds s)
    (played : play chrono log s moves = some final) : holds final := by
  induction moves generalizing s with
  | nil =>
    cases Option.some.inj played
    exact start
  | cons first rest ih =>
    simp only [play,List.foldlM_cons] at played
    cases moved : move chrono log s first with
    | none => simp [moved] at played
    | some next =>
      rw [moved] at played
      exact ih (keep s first next start moved) played

theorem play_reachable {s final : State Sec} {moves : List (Move Sec)}
    (played : play chrono log s moves = some final) :
    Monitor.Reachable (runner chrono log) s final := by
  apply play_rule chrono log _ Relation.ReflTransGen.refl played
  intro t first next reached moved
  exact reached.tail ⟨_,move_step chrono log moved⟩

def atSecond (second : UInt8) : Instant :=
  ⟨second.toNat * nanosPerSec,by have := second.toNat_lt; unfold nanosPerSec; omega⟩

def forSeconds (seconds : UInt8) : Duration :=
  ⟨seconds.toNat * nanosPerSec,by have := seconds.toNat_lt; unfold nanosPerSec; omega⟩

abbrev byHand (moves : List (Move Nat)) : Option (State Nat) :=
  play ChronoModel.duration initLog (startNew (atSecond 0)) moves

theorem byHand_reachable (moves : List (Move Nat)) (possible : (byHand moves).isSome = true) :
    Monitor.Reachable (runner ChronoModel.duration initLog) (startNew (atSecond 0))
      ((byHand moves).get possible) :=
  play_reachable _ _ (Option.some_get possible).symm

end Rinklers.SectionRunner
