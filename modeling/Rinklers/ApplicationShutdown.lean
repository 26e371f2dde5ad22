import Rinklers.ApplicationValves

/-! How the program ends: what the main thread can rely on at each of its stages, what is left when
it is done, and why it may panic instead. -/
namespace Rinklers.Application
open Foundation
open SectionRunner (NoneOpened)

variable {setting : Setting}

section Threads

def ApiPanicked (s : Application) : Prop :=
  ∃ session, s.api = some session ∧ session.stage.panicked = true

def ApiGone (s : Application) (panicking : Bool) : Prop :=
  ∃ session, s.api = some session ∧ session.stage = .gone panicking

/-- A thread other than the main thread has panicked. -/
def Crashed (s : Application) : Prop :=
  ApiPanicked s ∨ s.shared.sectionsPoisoned = true ∨ s.shared.programsPoisoned = true

/-- The section runner has been told to stop. -/
def told (s : Application) : Bool := s.shared.sections.data.data.quit

/-- Whether the API thread is leaving, or has left, without a panic. -/
def leftInOrder : MqttApi.Stage SectionRef → Bool
  | .leaving panicking | .dropped panicking | .gone panicking => !panicking
  | _ => false

/-- What the main thread knows at each stage. The API thread may have ended before the signal that
is to wake it could be sent: then the main thread panics and nothing has been stopped. -/
def Main.Stands (s : Application) : Main → Prop
  | .initializing _ | .scheduling _ => told s = false
  | .serving | .stopping | .clearing =>
    told s = false ∧ s.shared.running = true ∧ ∃ session, s.api = some session
  | .killing | .joining =>
    told s = false ∧ s.shared.running = false ∧ ∃ session, s.api = some session
  | .unwrapping => told s = false ∧ (ApiPanicked s ∨ ApiGone s false)
  | .stoppingSections => told s = false ∧ ∃ panicking, ApiGone s panicking
  | .joiningSections => told s = true ∧ ∃ panicking, ApiGone s panicking
  | .stoppingPrograms | .joiningPrograms =>
    told s = true ∧ (∃ panicking, ApiGone s panicking) ∧ s.shared.sections.phase = .returned
  | .done =>
    told s = true ∧ (∃ panicking, ApiGone s panicking) ∧ s.shared.sections.phase = .returned ∧
      s.shared.programs.phase = .returned
  | .panicked => Crashed s ∨ (told s = false ∧ s.shared.running = false ∧ ApiGone s false)

/-- What a step of another thread leaves as it is. -/
structure Keeps (s next : Application) : Prop where
  main : next.main = s.main
  running : next.shared.running = s.shared.running
  told : told next = told s
  returned : s.shared.sections.phase = .returned → next.shared.sections.phase = .returned
  poisoned : s.shared.sectionsPoisoned = true → next.shared.sectionsPoisoned = true
  programsReturned : s.shared.programs.phase = .returned → next.shared.programs.phase = .returned
  programsPoisoned : s.shared.programsPoisoned = true → next.shared.programsPoisoned = true
  api : ∀ session, s.api = some session → ∃ after, next.api = some after
  apiPanicked : ApiPanicked s → ApiPanicked next
  apiGone : ∀ panicking, ApiGone s panicking → ApiGone next panicking

theorem Keeps.crashed {s next : Application} (keeps : Keeps s next) (crashed : Crashed s) :
    Crashed next := by
  rcases crashed with api | sections | programs
  · exact .inl (keeps.apiPanicked api)
  · exact .inr (.inl (keeps.poisoned sections))
  · exact .inr (.inr (keeps.programsPoisoned programs))

theorem Keeps.stands {s next : Application} (keeps : Keeps s next) (stands : s.main.Stands s) :
    next.main.Stands next := by
  rw [keeps.main]
  cases here : s.main with
  | initializing | scheduling =>
    rw [here] at stands
    exact keeps.told.trans stands
  | serving | stopping | clearing | killing | joining =>
    rw [here] at stands
    obtain ⟨untold,running,session,api⟩ := stands
    exact ⟨keeps.told.trans untold,keeps.running.trans running,keeps.api session api⟩
  | unwrapping =>
    rw [here] at stands
    exact ⟨keeps.told.trans stands.1,stands.2.imp keeps.apiPanicked (keeps.apiGone false)⟩
  | stoppingSections | joiningSections =>
    rw [here] at stands
    exact ⟨keeps.told.trans stands.1,stands.2.imp keeps.apiGone⟩
  | stoppingPrograms | joiningPrograms =>
    rw [here] at stands
    obtain ⟨told,gone,returned⟩ := stands
    exact ⟨keeps.told.trans told,gone.imp keeps.apiGone,keeps.returned returned⟩
  | done =>
    rw [here] at stands
    obtain ⟨told,gone,returned,ended⟩ := stands
    exact ⟨keeps.told.trans told,gone.imp keeps.apiGone,keeps.returned returned,
      keeps.programsReturned ended⟩
  | panicked =>
    rw [here] at stands
    rcases stands with crashed | ⟨untold,stopped,gone⟩
    · exact .inl (keeps.crashed crashed)
    · exact .inr ⟨keeps.told.trans untold,keeps.running.trans stopped,keeps.apiGone false gone⟩

/-- The looping thread takes no step of its own once it has ended. -/
theorem own_alive {Op Data Thread : Type} {loop : Monitor.Loop Op Data Thread}
    {s next : Monitor.State Data Thread} {label : Monitor.Label Op} (own : ownStep label = true)
    (step : Monitor.Step loop s label next) : s.phase ≠ .returned ∧ s.phase ≠ .panicked := by
  cases step with
  | update | outside => cases own
  | sleep top sleeps => simp [top]
  | pass exit data thread awake ran =>
    rcases awake with ⟨top,_⟩ | ⟨notified,waiting⟩ <;> simp [*]
  | release holding => simp [holding]

theorem own_told {s next : SectionRunner.State SectionRef}
    {label : Monitor.Label (SectionRunner.Op SectionRef)} (own : ownStep label = true)
    (step : Monitor.Step (sectionRunner setting) s label next) :
    next.data.data.quit = s.data.data.quit := by
  cases step with
  | update | outside => cases own
  | sleep | release => rfl
  | pass exit data thread awake ran =>
    obtain ⟨now,pass,_,outcome,_,_,rfl⟩ := SectionRunner.body_outcome ran
    rw [SectionRunner.World.performs_data]
    cases outcome <;> rfl

theorem hangUps_data (notifiers : List SectionRunner.Sender)
    (w : SectionRunner.World SectionRef) :
    (notifiers.foldl SectionRunner.World.hangUp w).data = w.data := by
  induction notifiers generalizing w with
  | nil => rfl
  | cons notifier notifiers ih => exact ih (w.hangUp notifier)

/-- A step that leaves the API as it is. -/
theorem Keeps.besideApi {s : Application} {shared : Shared}
    (running : shared.running = s.shared.running)
    (told : shared.sections.data.data.quit = s.shared.sections.data.data.quit)
    (returned : s.shared.sections.phase = .returned → shared.sections.phase = .returned)
    (poisoned : s.shared.sectionsPoisoned = true → shared.sectionsPoisoned = true)
    (programsReturned : s.shared.programs.phase = .returned → shared.programs.phase = .returned)
    (programsPoisoned : s.shared.programsPoisoned = true → shared.programsPoisoned = true) :
    Keeps s {s with shared := shared} :=
  ⟨rfl,running,told,returned,poisoned,programsReturned,programsPoisoned,
    fun session api => ⟨session,api⟩,id,fun _ => id⟩

theorem runnerStep_keeps {s : Application} {shared : Shared}
    (step : RunnerStep setting s.shared shared) : Keeps s {s with shared := shared} := by
  cases step with
  | sections label next now effects own step did =>
    obtain ⟨going,living⟩ := own_alive own step
    refine Keeps.besideApi rfl (own_told own step) (fun ended => absurd ended going) ?_ id id
    intro poisoned
    exact absurd (by simpa [Shared.sectionsPoisoned] using poisoned) living
  | programs label next executed own here step did =>
    obtain ⟨going,living⟩ := own_alive own step
    refine Keeps.besideApi rfl rfl id id (fun ended => absurd ended going) ?_
    intro poisoned
    exact absurd (by simpa [Shared.programsPoisoned,here,Executor.idle] using poisoned) living
  | executes program waiting here =>
    refine Keeps.besideApi rfl rfl id id id ?_
    intro poisoned
    simp [Shared.programsPoisoned,here] at poisoned
  | queueRun notifiers item left waiting here free =>
    refine Keeps.besideApi rfl rfl ?_ ?_ id ?_
    · exact (Monitor.Phase.notify_eq_returned _).mpr
    · intro poisoned
      simpa [Shared.sectionsPoisoned] using poisoned
    · intro poisoned
      simp [Shared.programsPoisoned,here] at poisoned
  | queued notifiers waiting here held =>
    refine Keeps.besideApi rfl (congrArg _ (hangUps_data notifiers _)) id id id ?_
    intro poisoned
    cases waiting with
    | nil => simpa [Shared.programsPoisoned,here] using poisoned
    | cons program waiting => simp [Shared.programsPoisoned,here] at poisoned
  | aborts notifiers item left waiting here poisoned =>
    exact Keeps.besideApi rfl rfl id id id fun _ => rfl

theorem Handled.keeps {msg : MqttApi.Message} {s : Application} {shared : Shared}
    {result : Option (Except MqttApi.ApiError MqttApi.ApiResponse)}
    (handled : Handled setting msg s.shared result shared) : Keeps s {s with shared := shared} := by
  cases handled with
  | rejected error means => exact Keeps.besideApi rfl rfl id id id id
  | stateSet sec state response means => exact Keeps.besideApi rfl rfl id id id id
  | queued sec dur response means free =>
    refine Keeps.besideApi rfl rfl ?_ ?_ id id
    · exact (Monitor.Phase.notify_eq_returned _).mpr
    · intro poisoned
      simpa [Shared.sectionsPoisoned] using poisoned

theorem apiStep_keeps {s : Application} {session next : MqttApi.Session SectionRef}
    {shared : Shared} (here : s.api = some session)
    (step : ApiStep setting session s.shared next shared) :
    Keeps s {s with api := some next, shared := shared} := by
  have beside : Keeps s {s with shared := shared} := by
    rcases MqttApi.step_effect step with ⟨msg,result,done,_⟩ | ⟨rfl,_⟩
    · exact (processes_handled done).keeps
    · exact Keeps.besideApi rfl rfl id id id id
  refine {beside with api := fun _ _ => ⟨next,rfl⟩, apiPanicked := ?_, apiGone := ?_}
  · rintro ⟨other,api,panicked⟩
    cases here.symm.trans api
    exact ⟨next,rfl,MqttApi.step_panicked step panicked⟩
  · rintro panicking ⟨other,api,gone⟩
    cases here.symm.trans api
    exact absurd step (MqttApi.step_gone gone)

end Threads

section Main

/-- The API thread leaves in good order only when it has been told to. -/
def LeavesWhenTold (s : Application) : Prop :=
  ∀ session, s.api = some session → leftInOrder session.stage = true → s.shared.running = false

private theorem leaves_step {s next : Application} (leaves : LeavesWhenTold s)
    (step : Step setting s next) : LeavesWhenTold next := by
  cases step with
  | main next step =>
    cases step with
    | serves here =>
      intro session api left
      cases api
      cases left
    | clears here => exact fun _ _ _ => rfl
    | _ => exact leaves
  | runner shared step =>
    intro session api left
    exact (runnerStep_keeps step).running.trans (leaves session api left)
  | api session after shared here step =>
    intro other same left
    cases same
    have before : leftInOrder session.stage = true → s.shared.running = false :=
      leaves session here
    cases step with
    | ends stage stopped => exact stopped
    | dropsRunning panicking stage | dropsState panicking stage =>
      apply before
      rw [stage]
      exact left
    | _ => cases left

theorem leaves_reachable {clock : Instant} {now : Int} {s : Application}
    (reached : Reachable setting clock now s) : LeavesWhenTold s := by
  apply reached.invariant LeavesWhenTold
  · intro session api
    cases api
  · exact fun _ _ => leaves_step

private theorem stands_main {s next : Application} (stands : s.main.Stands s)
    (leaves : LeavesWhenTold s) (step : MainStep setting s next) : next.main.Stands next := by
  cases step with
  | setState sec left here | initialized here | schedules program left now guard world here
  | interrupted here | upgrades session here | kills here =>
    rw [here] at stands
    exact stands
  | serves here =>
    rw [here] at stands
    exact ⟨stands,rfl,_,rfl⟩
  | exited session here api dropped =>
    rw [here] at stands
    obtain ⟨untold,running,_⟩ := stands
    refine ⟨untold,.inl ⟨session,api,?_⟩⟩
    have disorder : leftInOrder session.stage = false := by
      by_contra order
      rw [leaves session api (by simpa using order)] at running
      cases running
    cases stage : session.stage <;> simp_all [holdsRunning,leftInOrder,MqttApi.Stage.panicked]
  | clears here =>
    rw [here] at stands
    exact ⟨stands.1,rfl,stands.2.2⟩
  | killFails session panicking here api gone =>
    rw [here] at stands
    obtain ⟨untold,stopped,_⟩ := stands
    cases panicking with
    | true => exact .inl (.inl ⟨session,api,by rw [gone]; rfl⟩)
    | false => exact .inr ⟨untold,stopped,session,api,gone⟩
  | joins session here api gone =>
    rw [here] at stands
    exact ⟨stands.1,.inr ⟨session,api,gone⟩⟩
  | unwraps session panicking here api gone =>
    rw [here] at stands
    exact ⟨stands.1,panicking,session,api,gone⟩
  | unwrapFails session here api held =>
    rw [here] at stands
    rcases stands.2 with panicked | ⟨other,same,gone⟩
    · exact .inl (.inl panicked)
    · cases api.symm.trans same
      exact absurd gone (held false)
  | stopsSections world here free stopped =>
    rw [here] at stands
    obtain ⟨_,rfl⟩ := stopped
    exact ⟨rfl,stands.2⟩
  | joinsSections here returned =>
    rw [here] at stands
    exact ⟨stands.1,stands.2,returned⟩
  | stopsPrograms world here free stopped =>
    rw [here] at stands
    exact stands
  | joinsPrograms here returned =>
    rw [here] at stands
    exact ⟨stands.1,stands.2.1,stands.2.2,returned⟩
  | joinFails session here api gone => exact .inl (.inl ⟨session,api,by rw [gone]; rfl⟩)
  | stopSectionsPanics here poisoned => exact .inl (.inr (.inl poisoned))
  | joinSectionsPanics here panicked =>
    exact .inl (.inr (.inl (by simpa [Shared.sectionsPoisoned] using panicked)))
  | schedulePanics program left here poisoned | stopProgramsPanics here poisoned
  | joinProgramsPanics here poisoned => exact .inl (.inr (.inr poisoned))

theorem stands_reachable {clock : Instant} {now : Int} {s : Application}
    (reached : Reachable setting clock now s) : s.main.Stands s := by
  induction reached with
  | refl => exact rfl
  | @tail before _ earlier last ih =>
    cases last with
    | main next step => exact stands_main ih (leaves_reachable earlier) step
    | api session next shared here step => exact (apiStep_keeps here step).stands ih
    | runner shared step => exact (runnerStep_keeps step).stands ih

/-- The thread of the program runner has nothing left to execute when it returns. -/
theorem idle_when_returned {clock : Instant} {now : Int} {s : Application}
    (reached : Reachable setting clock now s) (returned : s.shared.programs.phase = .returned) :
    s.shared.executor = .idle := by
  refine reached.invariant (fun s => s.shared.programs.phase = .returned →
    s.shared.executor = .idle) (fun impossible => by cases impossible) ?_ returned
  intro before after idle step
  cases step with
  | main next step =>
    cases step with
    | schedules | stopsPrograms =>
      intro returned
      exact idle ((Monitor.Phase.notify_eq_returned _).mp returned)
    | _ => exact idle
  | api session next shared here step =>
    rcases MqttApi.step_effect step with ⟨msg,result,done,_⟩ | ⟨rfl,_⟩
    · cases processes_handled done <;> exact idle
    · exact idle
  | runner shared step =>
    cases step with
    | sections => exact idle
    | programs label next executed own here step did =>
      intro returned
      have nothing : executed = [] := by
        cases step with
        | update | outside => cases own
        | sleep | release => cases returned
        | pass exit data thread awake ran =>
          obtain ⟨readings,_,exits,_,rfl⟩ := ran
          cases quit : before.shared.programs.data.data.quit with
          | true =>
            rw [ScheduleRunner.loopBody_quit _ _ quit] at did
            simpa using did
          | false =>
            rw [ScheduleRunner.loopBody_going _ _ quit] at exits
            rw [← exits] at returned
            dsimp only at returned
            split at returned <;> cases returned
      rw [nothing]
      rfl
    | executes program waiting here | queueRun notifiers item left waiting here
    | queued notifiers waiting here | aborts notifiers item left waiting here =>
      intro returned
      have impossible := here.symm.trans (idle returned)
      simp_all [Executor.idle]

end Main

section Lawn
open SectionRunner (atSecond)

/-- The program being scheduled and the two runners asleep, with the API at a stage. -/
def closing (main : Main) (stage : MqttApi.Stage SectionRef) (running : Bool) : Application :=
  ⟨main,some ⟨stage,false,[]⟩,⟨running,⟨.waiting false,planned,⟨.wait,sunday⟩⟩,.idle,
    ⟨.waiting false,.new (atSecond 0),⟨none,.wait⟩⟩,Function.update (fun _ => false) lawn false⟩⟩

theorem lawn_closed : LawnReachable (closing .killing (.gone false) false) := by
  have asleep := (mow_scheduled.tail
    (.runner _ (.programs .sleep _ [] rfl rfl (.sleep rfl rfl) rfl))).tail
    (.runner _ (.sections .sleep _ (atSecond 0) [] rfl (.sleep rfl rfl) rfl))
  have serving : LawnReachable (closing .serving .looping true) :=
    asleep.tail (.main _ (.serves rfl))
  have told : LawnReachable (closing .killing .looping false) :=
    ((serving.tail (.main _ (.interrupted rfl))).tail (.main _ (.upgrades _ rfl rfl rfl))).tail
      (.main _ (.clears rfl))
  have leaving : LawnReachable (closing .killing (.leaving false) false) :=
    told.tail (.api _ _ _ rfl (.ends rfl rfl))
  exact (leaving.tail (.api _ _ _ rfl (.dropsRunning false rfl))).tail
    (.api _ _ _ rfl (.dropsState false rfl))

def closed (main : Main) (programs : ScheduleRunner.State ProgramRef)
    (sections : SectionRunner.State SectionRef) : Application :=
  ⟨main,some ⟨.gone false,false,[]⟩,⟨false,programs,.idle,sections,
    Function.update (fun _ => false) lawn false⟩⟩

def stopped : SectionRunner.World SectionRef := (SectionRunner.World.new (atSecond 0)).stop

theorem lawn_stopped : LawnReachable (closed .stoppingPrograms
    ⟨.waiting false,planned,⟨.wait,sunday⟩⟩ ⟨.returned,stopped,⟨none,.wait⟩⟩) := by
  have stopping : LawnReachable (closing .stoppingSections (.gone false) false) :=
    ((lawn_closed.tail (.main _ (.kills rfl))).tail (.main _ (.joins _ rfl rfl rfl))).tail
      (.main _ (.unwraps _ false rfl rfl rfl))
  have told : LawnReachable (closed .joiningSections ⟨.waiting false,planned,⟨.wait,sunday⟩⟩
      ⟨.waiting true,stopped,⟨none,.wait⟩⟩) :=
    stopping.tail (.main _ (.stopsSections stopped rfl rfl ⟨rfl,rfl⟩))
  have last : Monitor.Step (sectionRunner lawnOnly) ⟨.waiting true,stopped,⟨none,.wait⟩⟩ .pass
      ⟨.returned,stopped,⟨none,.wait⟩⟩ :=
    .pass .done _ _ (.inr ⟨true,rfl⟩) ⟨atSecond 0,by decide,rfl,rfl,rfl⟩
  have returned : LawnReachable (closed .joiningSections ⟨.waiting false,planned,⟨.wait,sunday⟩⟩
      ⟨.returned,stopped,⟨none,.wait⟩⟩) :=
    told.tail (.runner _ (.sections .pass _ (atSecond 0) [] rfl last rfl))
  exact returned.tail (.main _ (.joinsSections rfl rfl))

theorem programs_stopped : Step lawnOnly
    (closed .stoppingPrograms ⟨.waiting false,planned,⟨.wait,sunday⟩⟩
      ⟨.returned,stopped,⟨none,.wait⟩⟩)
    (closed .joiningPrograms ⟨.waiting true,planned.quit,⟨.wait,sunday⟩⟩
      ⟨.returned,stopped,⟨none,.wait⟩⟩) :=
  .main _ (.stopsPrograms planned.quit rfl rfl ⟨rfl,rfl,rfl⟩)

theorem lawn_done : ∃ s : Application, LawnReachable s ∧ s.main = .done := by
  have returned := (lawn_stopped.tail programs_stopped).tail (.runner _ (.programs .pass _ [] rfl rfl
    (.pass .done _ _ (.inr ⟨_,rfl⟩) ⟨fun _ => sunday,fun _ => rfl,rfl,rfl,rfl⟩) rfl))
  exact ⟨_,returned.tail (.main _ (.joinsPrograms rfl rfl)),rfl⟩

end Lawn

section Ends

/-- Nothing goes on when the main thread is done: every other thread has ended, every section that
no message has set is off, and nobody can take a step. -/
theorem ended_quietly {clock : Instant} {now : Int} {s : Application}
    (reached : Reachable setting clock now s) (done : s.main = .done) :
    (∃ panicking, ApiGone s panicking) ∧ s.shared.sections.phase = .returned ∧
      s.shared.programs.phase = .returned ∧
      (∀ sec, ¬ Overridden setting s sec → s.shared.valves sec = false) ∧
      ∀ next, ¬ Step setting s next := by
  have stands := stands_reachable reached
  rw [done] at stands
  obtain ⟨_,gone,returned,ended⟩ := stands
  refine ⟨gone,returned,ended,fun sec free => off_when_returned reached returned free,?_⟩
  intro next step
  cases step with
  | main next step => cases step <;> simp_all
  | api session after shared here step =>
    obtain ⟨panicking,other,api,stage⟩ := gone
    cases here.symm.trans api
    exact MqttApi.step_gone stage step
  | runner shared step =>
    have idle := idle_when_returned reached ended
    cases step with
    | sections label next now effects own step did => exact (own_alive own step).1 returned
    | programs label next executed own here step did => exact (own_alive own step).1 ended
    | executes program waiting here | queueRun notifiers item left waiting here
    | queued notifiers waiting here | aborts notifiers item left waiting here =>
      have impossible := here.symm.trans idle
      simp_all [Executor.idle]

theorem ended_quietly_lawn : ∃ s : Application, (∃ panicking, ApiGone s panicking) ∧
    s.shared.sections.phase = .returned ∧ s.shared.programs.phase = .returned ∧
    (∀ sec, ¬ Overridden lawnOnly s sec → s.shared.valves sec = false) ∧
    ∀ next, ¬ Step lawnOnly s next := by
  obtain ⟨s,reached,done⟩ := lawn_done
  exact ⟨s,ended_quietly reached done⟩

/-- The main thread panics only if another thread has, or if the API thread has ended before the
signal could be sent to it; in that case the section runner is not told to stop. -/
theorem panics_for_cause {clock : Instant} {now : Int} {s : Application}
    (reached : Reachable setting clock now s) (panicked : s.main = .panicked) :
    Crashed s ∨ (told s = false ∧ s.shared.running = false ∧ ApiGone s false) := by
  have stands := stands_reachable reached
  rw [panicked] at stands
  exact stands

theorem panics_for_cause_unsignalled : ∃ s : Application, s.main = .panicked ∧
    (Crashed s ∨ (told s = false ∧ s.shared.running = false ∧ ApiGone s false)) := by
  have panicked := lawn_closed.tail (.main _ (.killFails _ false rfl rfl rfl))
  exact ⟨_,rfl,panics_for_cause panicked rfl⟩

end Ends

section Stop
variable {chrono : CDuration} {log : LogLevelFilter}

/-- Told to stop, the thread of the section runner takes no new run. -/
theorem quit_run {s next : SectionRunner.State SectionRef}
    {label : Monitor.Label (SectionRunner.Op SectionRef)} (quit : s.data.data.quit = true)
    (step : Monitor.Step (SectionRunner.runner chrono log) s label next) :
    next.thread.currentRun = none ∨ next.thread.currentRun = s.thread.currentRun := by
  cases step with
  | pass exit data thread awake ran =>
    obtain ⟨now,pass,_,outcome,_,rfl,_⟩ := SectionRunner.body_outcome ran
    cases outcome with
    | interrupted | finished | rested => exact .inl rfl
    | failed | dropped | left => exact .inr rfl
    | continued run going running early => exact .inr running.symm
    | started run queue going => simp [quit] at going
  | _ => exact .inr rfl

theorem quit_runs {s later : SectionRunner.State SectionRef} (quit : s.data.data.quit = true)
    (reached : Monitor.Reachable (SectionRunner.runner chrono log) s later) :
    later.data.data.quit = true ∧
      (later.thread.currentRun = none ∨ later.thread.currentRun = s.thread.currentRun) := by
  refine reached.invariant (fun later => later.data.data.quit = true ∧
    (later.thread.currentRun = none ∨ later.thread.currentRun = s.thread.currentRun))
    ⟨quit,.inr rfl⟩ ?_
  rintro before label after ⟨quitting,run⟩ step
  refine ⟨(SectionRunner.quit_step chrono log quitting step).1,?_⟩
  rcases quit_run quitting step with none | same
  · exact .inl none
  · rw [same]
    exact run

/-- From the moment at which the section runner has been told to stop, whatever is still requested
or executed, no valve is opened, and a section that is off stays off unless a message sets it. -/
theorem off_after_stop {clock : Instant} {now : Int} {s later : Application}
    (reached : Reachable setting clock now s) (stopping : told s = true)
    (goes : Relation.ReflTransGen (Step setting) s later) :
    NoneOpened s.shared.sections later.shared.sections ∧
      ∀ sec, ¬ Overridden setting later sec → s.shared.valves sec = false →
        later.shared.valves sec = false := by
  have runs := steps_sections goes
  refine ⟨SectionRunner.none_opened_after_quit _ _ stopping runs,?_⟩
  intro sec free off
  have before : ¬ Overridden setting s sec := fun set => free (overridden_later reached set goes)
  by_contra on
  obtain ⟨run,running,same⟩ :=
    (valves_follow_run (reached.trans goes) free).mp (by simpa using on)
  rcases (quit_runs stopping runs).2 with none | still
  · rw [none] at running
    cases running
  · rw [still] at running
    rw [(valves_follow_run reached before).mpr ⟨run,running,same⟩] at off
    cases off

theorem off_after_stop_lawn : ∃ s later : Application, later.main = .joiningPrograms ∧
    NoneOpened s.shared.sections later.shared.sections := by
  exact ⟨_,_,rfl,(off_after_stop lawn_stopped rfl (.single programs_stopped)).1⟩

end Stop

end Rinklers.Application
