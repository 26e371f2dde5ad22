import Rinklers.State
import Rinklers.MqttSession
import Rinklers.ScheduleRunnerGuards
import Rinklers.SectionRunnerValves

/-! The whole program, from `main` with the state it has made of its configuration: the main
thread, the thread of the program runner with its executor, the thread of the section runner and
the thread of the API. Each step is one step of one thread. A thread that panics takes no more
steps, and leaves a lock that it holds poisoned. -/
namespace Rinklers.Application
open Foundation
open SectionRunner (Sender turn)

structure Setting where
  chrono : CDuration
  log : LogLevelFilter
  tz : Local
  timekeeping : ScheduleRunner.Timekeeping
  decoders : MqttApi.Decoders
  topicPrefix : String
  prefixPath : MqttApi.TopicPath
  state : AppState

/-- What is left to do of the programs that a pass over the runs executes: the items `left` of the
present program, `notifiers` being the receivers for those that have been queued, and the programs
after it. The passes of the thread are modelled without the executor, which does not see them; it
queues the items after them, before the thread goes on. `aborted` is a panic in `run_section`. -/
inductive Executor
  | working (notifiers : List Sender) (left : List (ProgItem SectionRef))
    (waiting : List ProgramRef)
  | aborted
deriving DecidableEq

def Executor.idle : Executor := .working [] [] []

/-- `valves` is what the sections are; the world of the section runner has what its thread alone
has made of them. -/
structure Shared where
  running : Bool
  programs : ScheduleRunner.State ProgramRef
  executor : Executor
  sections : SectionRunner.State SectionRef
  valves : SectionRef → Bool

/-- Where the main thread is, from the first section that it turns off. `unwrapping` is the attempt
to take the state out of its `Arc`. -/
inductive Main
  | initializing (left : List SectionRef)
  | scheduling (left : List ProgramRef)
  | serving
  | stopping
  | clearing
  | killing
  | joining
  | unwrapping
  | stoppingSections
  | joiningSections
  | stoppingPrograms
  | joiningPrograms
  | done
  | panicked

end Rinklers.Application

namespace Rinklers

structure Application where
  main : Application.Main
  api : Option (MqttApi.Session SectionRef)
  shared : Application.Shared

namespace Application
open Foundation
open SectionRunner (Sender turn)

section Threads

/-- The steps that the looping thread itself takes. -/
def ownStep {Op : Type} : Monitor.Label Op → Bool
  | .sleep | .pass | .release => true
  | .update _ | .outside => false

namespace Shared

def sectionsPoisoned (s : Shared) : Bool := s.sections.phase == .panicked

/-- The lock of the program runner is poisoned once its thread has unwound. -/
def programsPoisoned (s : Shared) : Bool :=
  match s.executor with
  | .aborted => true
  | .working _ [] [] => s.programs.phase == .panicked
  | .working _ _ _ => false

/-- The world in which a message is processed. -/
def world (s : Shared) : SectionRunner.World SectionRef :=
  {s.sections.data with sections := s.valves}

def adopt (s : Shared) (phase : Monitor.Phase) (w : SectionRunner.World SectionRef) : Shared :=
  {s with
    sections := ⟨phase,{w with sections := s.sections.data.sections},s.sections.thread⟩
    valves := w.sections}

end Shared

variable (setting : Setting)

def sectionRunner : Monitor.Loop (SectionRunner.Op SectionRef) (SectionRunner.World SectionRef)
    (SectionRunner.Thread SectionRef) :=
  SectionRunner.runner setting.chrono setting.log

def scheduleRunner : Monitor.Loop (ScheduleRunner.Op ProgramRef) (ScheduleRunner.World ProgramRef)
    ScheduleRunner.Thread :=
  ScheduleRunner.runner setting.tz setting.chrono setting.timekeeping

/-- A step of the thread of the section runner or of the program runner. -/
inductive RunnerStep (s : Shared) : Shared → Prop
  | sections (label : Monitor.Label (SectionRunner.Op SectionRef))
      (next : SectionRunner.State SectionRef) (now : Instant)
      (effects : List (SectionRunner.Effect SectionRef)) (own : ownStep label = true)
      (step : Monitor.Step (sectionRunner setting) s.sections label next)
      (did : next.data.trace = s.sections.data.trace ++ effects.map (.performed now)) :
      RunnerStep s {s with sections := next, valves := effects.foldl turn s.valves}
  | programs (label : Monitor.Label (ScheduleRunner.Op ProgramRef))
      (next : ScheduleRunner.State ProgramRef)
      (executed : List (ScheduleRunner.Execution ProgramRef)) (own : ownStep label = true)
      (here : s.executor = .idle)
      (step : Monitor.Step (scheduleRunner setting) s.programs label next)
      (did : next.data.trace = s.programs.data.trace ++ executed.map .executed) :
      RunnerStep s {s with
        programs := next
        executor := .working [] [] (executed.map ScheduleRunner.Execution.data)}
  | executes (program : ProgramRef) (waiting : List ProgramRef)
      (here : s.executor = .working [] [] (program::waiting)) :
      RunnerStep s {s with executor := .working [] program.sequence waiting}
  | queueRun (notifiers : List Sender) (item : ProgItem SectionRef)
      (left : List (ProgItem SectionRef)) (waiting : List ProgramRef)
      (here : s.executor = .working notifiers (item::left) waiting)
      (free : s.sections.phase.free = true) :
      RunnerStep s {s with
        executor := .working (notifiers ++ [s.sections.data.channels]) left waiting
        sections := ⟨s.sections.phase.notify,
          s.sections.data.runSection item.sec item.duration,s.sections.thread⟩}
  | queued (notifiers : List Sender) (waiting : List ProgramRef)
      (here : s.executor = .working notifiers [] waiting) (held : notifiers ≠ []) :
      RunnerStep s {s with
        executor := .working [] [] waiting
        sections := {s.sections with
          data := notifiers.foldl SectionRunner.World.hangUp s.sections.data}}
  | aborts (notifiers : List Sender) (item : ProgItem SectionRef)
      (left : List (ProgItem SectionRef)) (waiting : List ProgramRef)
      (here : s.executor = .working notifiers (item::left) waiting)
      (poisoned : s.sectionsPoisoned = true) : RunnerStep s {s with executor := .aborted}

/-- What processing a message comes to, from the moment at which it takes effect. A run can be
queued only under the lock of the section runner. -/
def Processes (msg : MqttApi.Message) (s : Shared)
    (result : Option (Except MqttApi.ApiError MqttApi.ApiResponse)) (next : Shared) : Prop :=
  ∃ w, MqttApi.processMsg setting.chrono setting.decoders setting.prefixPath setting.state.sections
      SectionRef.name msg s.world = (result,w) ∧
    if w.channels = s.sections.data.channels then next = s.adopt s.sections.phase w
    else s.sections.phase.free = true ∧ next = s.adopt s.sections.phase.notify w

def surroundings : MqttApi.Surroundings SectionRef Shared where
  running := Shared.running
  state := Shared.valves
  process := Processes setting
  poisoned msg s := s.sectionsPoisoned = true ∧ ∃ sec dur,
    msg.meaning setting.decoders setting.prefixPath setting.state.sections = .ok (.runFor sec dur)
  others s next := s.running = false → next.running = false
  process_running := by
    rintro msg s result next ⟨w,_,done⟩
    split at done
    · rw [done]
      rfl
    · rw [done.2]
      rfl
  others_running := fun kept => kept

def ApiStep : MqttApi.Session SectionRef → Shared → MqttApi.Session SectionRef → Shared → Prop :=
  MqttApi.Step setting.topicPrefix setting.state.sections SectionRef.name (surroundings setting)

/-- Whether the API thread still holds `running`, and the state. -/
def holdsRunning (session : MqttApi.Session SectionRef) : Bool :=
  match session.stage with
  | .dropped _ | .gone _ => false
  | _ => true

/-- A step of `main`, which consumes the one `SectionRunner` that can join its thread and the one
`ProgramRunner`. The guard that `schedule_program` returns is dropped at once. -/
inductive MainStep (s : Application) : Application → Prop
  | setState (sec : SectionRef) (left : List SectionRef)
      (here : s.main = .initializing (sec::left)) :
      MainStep s {s with
        main := .initializing left
        shared := {s.shared with valves := Function.update s.shared.valves sec false}}
  | initialized (here : s.main = .initializing []) :
      MainStep s {s with main := .scheduling setting.state.programs}
  | schedules (program : ProgramRef) (left : List ProgramRef) (now : Int)
      (guard : ScheduleRunner.Guard) (next : ScheduleRunner.World ProgramRef)
      (here : s.main = .scheduling (program::left)) (free : s.shared.programs.phase.free = true)
      (scheduled : ScheduleRunner.update setting.tz setting.timekeeping
        (.schedule program.schedule program now) s.shared.programs.data next)
      (returned : next.guards = s.shared.programs.data.guards ++ [guard]) :
      MainStep s {s with
        main := .scheduling left
        shared := {s.shared with programs :=
          ⟨s.shared.programs.phase.notify,next.forget guard,s.shared.programs.thread⟩}}
  | schedulePanics (program : ProgramRef) (left : List ProgramRef)
      (here : s.main = .scheduling (program::left)) (poisoned : s.shared.programsPoisoned = true) :
      MainStep s {s with main := .panicked}
  | serves (here : s.main = .scheduling []) :
      MainStep s {s with
        main := .serving, api := some MqttApi.startNew, shared := {s.shared with running := true}}
  | interrupted (here : s.main = .serving) : MainStep s {s with main := .stopping}
  | upgrades (session : MqttApi.Session SectionRef) (here : s.main = .stopping)
      (api : s.api = some session) (held : holdsRunning session = true) :
      MainStep s {s with main := .clearing}
  | exited (session : MqttApi.Session SectionRef) (here : s.main = .stopping)
      (api : s.api = some session) (dropped : holdsRunning session = false) :
      MainStep s {s with main := .unwrapping}
  | clears (here : s.main = .clearing) :
      MainStep s {s with main := .killing, shared := {s.shared with running := false}}
  | kills (here : s.main = .killing) : MainStep s {s with main := .joining}
  | killFails (session : MqttApi.Session SectionRef) (panicking : Bool) (here : s.main = .killing)
      (api : s.api = some session) (gone : session.stage = .gone panicking) :
      MainStep s {s with main := .panicked}
  | joins (session : MqttApi.Session SectionRef) (here : s.main = .joining)
      (api : s.api = some session) (gone : session.stage = .gone false) :
      MainStep s {s with main := .unwrapping}
  | joinFails (session : MqttApi.Session SectionRef) (here : s.main = .joining)
      (api : s.api = some session) (gone : session.stage = .gone true) :
      MainStep s {s with main := .panicked}
  | unwraps (session : MqttApi.Session SectionRef) (panicking : Bool) (here : s.main = .unwrapping)
      (api : s.api = some session) (gone : session.stage = .gone panicking) :
      MainStep s {s with main := .stoppingSections}
  | unwrapFails (session : MqttApi.Session SectionRef) (here : s.main = .unwrapping)
      (api : s.api = some session) (held : ∀ panicking, session.stage ≠ .gone panicking) :
      MainStep s {s with main := .panicked}
  | stopsSections (next : SectionRunner.World SectionRef) (here : s.main = .stoppingSections)
      (free : s.shared.sections.phase.free = true)
      (stopped : SectionRunner.update .stop s.shared.sections.data next) :
      MainStep s {s with
        main := .joiningSections
        shared := {s.shared with sections :=
          ⟨s.shared.sections.phase.notify,next,s.shared.sections.thread⟩}}
  | stopSectionsPanics (here : s.main = .stoppingSections)
      (poisoned : s.shared.sectionsPoisoned = true) : MainStep s {s with main := .panicked}
  | joinsSections (here : s.main = .joiningSections)
      (returned : s.shared.sections.phase = .returned) :
      MainStep s {s with main := .stoppingPrograms}
  | joinSectionsPanics (here : s.main = .joiningSections)
      (panicked : s.shared.sections.phase = .panicked) : MainStep s {s with main := .panicked}
  | stopsPrograms (next : ScheduleRunner.World ProgramRef) (here : s.main = .stoppingPrograms)
      (free : s.shared.programs.phase.free = true)
      (stopped : ScheduleRunner.update setting.tz setting.timekeeping .quit s.shared.programs.data
        next) :
      MainStep s {s with
        main := .joiningPrograms
        shared := {s.shared with programs :=
          ⟨s.shared.programs.phase.notify,next,s.shared.programs.thread⟩}}
  | stopProgramsPanics (here : s.main = .stoppingPrograms)
      (poisoned : s.shared.programsPoisoned = true) : MainStep s {s with main := .panicked}
  | joinsPrograms (here : s.main = .joiningPrograms)
      (returned : s.shared.programs.phase = .returned) : MainStep s {s with main := .done}
  | joinProgramsPanics (here : s.main = .joiningPrograms)
      (poisoned : s.shared.programsPoisoned = true) : MainStep s {s with main := .panicked}

inductive Step (s : Application) : Application → Prop
  | main (next : Application) (step : MainStep setting s next) : Step s next
  | api (session next : MqttApi.Session SectionRef) (shared : Shared) (here : s.api = some session)
      (step : ApiStep setting session s.shared next shared) :
      Step s {s with api := some next, shared := shared}
  | runner (shared : Shared) (step : RunnerStep setting s.shared shared) :
      Step s {s with shared := shared}

/-- The state from which `main` goes on, when the two runners have just been started. -/
def new (clock : Instant) (now : Int) : Application where
  main := .initializing setting.state.sections
  api := none
  shared := {
    running := false
    programs := ScheduleRunner.startNew now
    executor := .idle
    sections := SectionRunner.startNew clock
    valves := fun _ => false}

def Reachable (clock : Instant) (now : Int) : Application → Prop :=
  Relation.ReflTransGen (Step setting) (new setting clock now)

end Threads

section Components
variable {setting : Setting}

/-- What processing a message can do, by what the message means. -/
inductive Handled (setting : Setting) (msg : MqttApi.Message) (s : Shared) :
    Option (Except MqttApi.ApiError MqttApi.ApiResponse) → Shared → Prop
  | rejected (error : MqttApi.ApiError)
      (means : msg.meaning setting.decoders setting.prefixPath setting.state.sections =
        .error error) : Handled setting msg s (some (.error error)) s
  | stateSet (sec : SectionRef) (state : Bool) (response : MqttApi.ApiResponse)
      (means : msg.meaning setting.decoders setting.prefixPath setting.state.sections =
        .ok (.setState sec state)) :
      Handled setting msg s (some (.ok response)) {s with
        valves := Function.update s.valves sec state}
  | queued (sec : SectionRef) (dur : Duration) (response : Option MqttApi.ApiResponse)
      (means : msg.meaning setting.decoders setting.prefixPath setting.state.sections =
        .ok (.runFor sec dur))
      (free : s.sections.phase.free = true) :
      Handled setting msg s (response.map .ok) {s with
        sections := ⟨s.sections.phase.notify,
          (s.sections.data.runSection sec dur).hangUp s.sections.data.channels,s.sections.thread⟩}

theorem processes_handled {msg : MqttApi.Message} {s next : Shared}
    {result : Option (Except MqttApi.ApiError MqttApi.ApiResponse)}
    (done : Processes setting msg s result next) : Handled setting msg s result next := by
  obtain ⟨w,processed,done⟩ := done
  rw [MqttApi.processMsg_meaning] at processed
  cases means : msg.meaning setting.decoders setting.prefixPath setting.state.sections with
  | error error =>
    rw [means] at processed
    cases processed
    have same : s.world.channels = s.sections.data.channels := rfl
    rw [if_pos same] at done
    rw [done]
    exact .rejected error means
  | ok command =>
    rw [means] at processed
    cases command with
    | setState sec state =>
      cases processed
      have same : (MqttApi.Command.perform s.world (.setState sec state)).channels =
        s.sections.data.channels := rfl
      rw [if_pos same] at done
      rw [done]
      exact .stateSet sec state _ means
    | runFor sec dur =>
      cases processed
      have more : (MqttApi.Command.perform s.world (.runFor sec dur)).channels =
        s.sections.data.channels + 1 := rfl
      rw [more,if_neg (Nat.succ_ne_self _)] at done
      obtain ⟨free,rfl⟩ := done
      exact .queued sec dur _ means free

theorem Handled.programs {msg : MqttApi.Message} {s next : Shared}
    {result : Option (Except MqttApi.ApiError MqttApi.ApiResponse)}
    (handled : Handled setting msg s result next) :
    next.programs = s.programs := by
  cases handled <;> rfl

theorem hangUps_reachable (s : SectionRunner.State SectionRef) (notifiers : List Sender) :
    Monitor.Reachable (sectionRunner setting) s
      {s with data := notifiers.foldl SectionRunner.World.hangUp s.data} := by
  induction notifiers generalizing s with
  | nil => exact .refl
  | cons notifier notifiers ih =>
    have first : Monitor.Step (sectionRunner setting) s .outside
        {s with data := s.data.hangUp notifier} := .outside _ (.hangUp _ notifier)
    exact .head ⟨_,first⟩ (ih {s with data := s.data.hangUp notifier})

theorem handled_sections {msg : MqttApi.Message} {s next : Shared}
    {result : Option (Except MqttApi.ApiError MqttApi.ApiResponse)}
    (handled : Handled setting msg s result next) :
    Monitor.Reachable (sectionRunner setting) s.sections next.sections := by
  cases handled with
  | rejected | stateSet => exact .refl
  | queued sec dur response means free =>
    have pushed : Monitor.Step (sectionRunner setting) s.sections (.update (.runSection sec dur))
        ⟨s.sections.phase.notify,s.sections.data.runSection sec dur,s.sections.thread⟩ :=
      .update _ _ free rfl
    exact (Relation.ReflTransGen.single ⟨_,pushed⟩).tail
      ⟨_,.outside _ (SectionRunner.Outside.hangUp _ _)⟩

theorem runnerStep_sections {s next : Shared} (step : RunnerStep setting s next) :
    Monitor.Reachable (sectionRunner setting) s.sections next.sections := by
  cases step with
  | sections label after now effects own step did => exact .single ⟨label,step⟩
  | programs | executes | aborts => exact .refl
  | queueRun notifiers item left waiting here free =>
    exact .single ⟨.update (.runSection item.sec item.duration),.update _ _ free rfl⟩
  | queued notifiers waiting here held => exact hangUps_reachable s.sections notifiers

theorem apiStep_sections {session after : MqttApi.Session SectionRef} {s next : Shared}
    (step : ApiStep setting session s after next) :
    Monitor.Reachable (sectionRunner setting) s.sections next.sections := by
  cases step with
  | processes msg result _ here done => exact handled_sections (processes_handled done)
  | panics msg _ here done => exact handled_sections (processes_handled done)
  | _ => exact .refl

theorem mainStep_sections {s next : Application} (step : MainStep setting s next) :
    Monitor.Reachable (sectionRunner setting) s.shared.sections next.shared.sections := by
  cases step with
  | stopsSections world here free stopped => exact .single ⟨.update .stop,.update _ _ free stopped⟩
  | _ => exact .refl

/-- A step of the whole is steps of the section runner, or none. -/
theorem step_sections {s next : Application} (step : Step setting s next) :
    Monitor.Reachable (sectionRunner setting) s.shared.sections next.shared.sections := by
  cases step with
  | main after step => exact mainStep_sections step
  | api session after shared here step => exact apiStep_sections step
  | runner shared step => exact runnerStep_sections step

theorem steps_sections {s later : Application} (goes : Relation.ReflTransGen (Step setting) s later) :
    Monitor.Reachable (sectionRunner setting) s.shared.sections later.shared.sections :=
  Relation.ReflTransGen.lift' (fun state : Application => state.shared.sections)
    (fun _ _ => step_sections) _ _ goes

theorem sections_reachable {clock : Instant} {now : Int} {s : Application}
    (reached : Reachable setting clock now s) :
    Monitor.Reachable (sectionRunner setting) (SectionRunner.startNew clock) s.shared.sections :=
  steps_sections reached

theorem step_programs {s next : Application} (step : Step setting s next) :
    Monitor.Reachable (scheduleRunner setting) s.shared.programs next.shared.programs := by
  cases step with
  | main after step =>
    cases step with
    | schedules program left now guard world here free scheduled returned =>
      have held : guard ∈ world.guards := by
        rw [returned]
        exact List.mem_append_right _ (List.mem_singleton_self _)
      have inserted : Monitor.Step (scheduleRunner setting) s.shared.programs
          (.update (.schedule program.schedule program now))
          ⟨s.shared.programs.phase.notify,world,s.shared.programs.thread⟩ :=
        .update _ _ free scheduled
      exact (Relation.ReflTransGen.single ⟨_,inserted⟩).tail
        ⟨.outside,.outside _ (ScheduleRunner.Outside.forget _ guard held)⟩
    | stopsPrograms world here free stopped =>
      exact .single ⟨.update .quit,.update _ _ free stopped⟩
    | _ => exact .refl
  | api session after shared here step =>
    cases step with
    | processes msg result _ here done =>
      rw [(processes_handled done).programs]
      exact .refl
    | panics msg _ here done =>
      rw [(processes_handled done).programs]
      exact .refl
    | _ => exact .refl
  | runner shared step =>
    cases step with
    | programs label after executed own idle step did => exact .single ⟨label,step⟩
    | _ => exact .refl

theorem programs_reachable {clock : Instant} {now : Int} {s : Application}
    (reached : Reachable setting clock now s) :
    Monitor.Reachable (scheduleRunner setting) (ScheduleRunner.startNew now) s.shared.programs := by
  exact Relation.ReflTransGen.lift' (fun state : Application => state.shared.programs)
    (fun _ _ => step_programs) _ _ reached

theorem Reachable.invariant {clock : Instant} {now : Int} {s : Application}
    (reached : Reachable setting clock now s) (holds : Application → Prop)
    (initial : holds (new setting clock now))
    (kept : ∀ before after, holds before → Step setting before after → holds after) : holds s := by
  induction reached with
  | refl => exact initial
  | tail _ last ih => exact kept _ _ ih last

/-- Before the API has been started. -/
def Main.starting : Main → Bool
  | .initializing _ | .scheduling _ => true
  | _ => false

theorem api_not_started {clock : Instant} {now : Int} {s : Application}
    (reached : Reachable setting clock now s) (starting : s.main.starting = true) :
    s.api = none := by
  refine reached.invariant (fun s => s.main.starting = true → s.api = none) (fun _ => rfl) ?_
    starting
  intro before after none step
  cases step with
  | main next step =>
    cases step with
    | setState sec left here =>
      intro _
      exact none (by rw [here]; rfl)
    | initialized here =>
      intro _
      exact none (by rw [here]; rfl)
    | schedules program left now guard world here =>
      intro _
      exact none (by rw [here]; rfl)
    | _ =>
      intro impossible
      cases impossible
  | api session next shared here =>
    intro early
    rw [none early] at here
    cases here
  | runner => exact none

end Components
end Application
end Rinklers
