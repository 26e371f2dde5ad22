import Rinklers.Application

/-! Where the runs in the queue of the section runner come from. Programs and requests queue their
runs in one queue, in any order among each other; each run there is an item of a program that has
been executed or the target of a request, and none of these is lost, changed or queued twice. -/
namespace Rinklers.Application
open Foundation
open SectionRunner (SecRun pushes)

inductive Origin
  | item (entry : ProgItem SectionRef)
  | request (msg : MqttApi.Message)

def Origin.item? : Origin → Option (ProgItem SectionRef)
  | .item entry => some entry
  | .request _ => none

def Origin.request? : Origin → Option MqttApi.Message
  | .item _ => none
  | .request msg => some msg

def executions (trace : List (ScheduleRunner.Event ProgramRef)) :
    List (ScheduleRunner.Execution ProgramRef) :=
  trace.filterMap fun
    | .executed execution => some execution
    | _ => none

/-- The items of all the programs that have been executed, in order. -/
def itemsExecuted (s : Application) : List (ProgItem SectionRef) :=
  (executions s.shared.programs.data.trace).flatMap (fun execution => execution.data.sequence)

def Executor.items : Executor → List (ProgItem SectionRef)
  | .working _ left waiting => left ++ waiting.flatMap (fun program => program.sequence)
  | .aborted => []

section Runs
variable (setting : Setting)

def Explains : Origin → SecRun SectionRef → Prop
  | .item entry, run => run.sec = entry.sec ∧ run.dur = entry.duration
  | .request msg, run => msg.meaning setting.decoders setting.prefixPath setting.state.sections =
      .ok (.runFor run.sec run.dur)

def runRequest? : MqttApi.Event → Option MqttApi.Message
  | .processed msg _ =>
    match msg.meaning setting.decoders setting.prefixPath setting.state.sections with
    | .ok (.runFor _ _) => some msg
    | .ok (.setState _ _) | .error _ => none
  | _ => none

/-- The messages that have been processed as requests for a run, in order. -/
def requestsProcessed (s : Application) : List MqttApi.Message :=
  match s.api with
  | some session => session.trace.filterMap (runRequest? setting)
  | none => []

/-- Which of the runs come from programs, and which from requests. Items are left out at the end
only: they are still to be queued, or their thread has panicked. -/
structure Explained (s : Application) (origins : List Origin) : Prop where
  runs : List.Forall₂ (Explains setting) origins (pushes s.shared.sections.data.trace)
  items : ∃ left, itemsExecuted s = origins.filterMap Origin.item? ++ left ∧
    (s.shared.executor ≠ .aborted → left = s.shared.executor.items)
  requests : origins.filterMap Origin.request? = requestsProcessed setting s

variable {setting}

theorem explained_new (clock : Instant) (now : Int) :
    Explained setting (new setting clock now) [] where
  runs := .nil
  items := ⟨[],rfl,fun _ => rfl⟩
  requests := rfl

/-- A step that queues nothing, executes nothing and processes no request for a run. -/
theorem Explained.keep {s next : Application} {origins : List Origin}
    (explained : Explained setting s origins)
    (runs : pushes next.shared.sections.data.trace = pushes s.shared.sections.data.trace)
    (items : itemsExecuted next = itemsExecuted s)
    (executor : next.shared.executor ≠ .aborted → s.shared.executor ≠ .aborted ∧
      next.shared.executor.items = s.shared.executor.items)
    (requests : requestsProcessed setting next = requestsProcessed setting s) :
    Explained setting next origins where
  runs := runs ▸ explained.runs
  items := by
    obtain ⟨left,all,rest⟩ := explained.items
    refine ⟨left,items ▸ all,?_⟩
    intro going
    obtain ⟨before,same⟩ := executor going
    rw [same]
    exact rest before
  requests := explained.requests.trans requests.symm

theorem executions_append (first second : List (ScheduleRunner.Event ProgramRef)) :
    executions (first ++ second) = executions first ++ executions second := by
  simp only [executions,List.filterMap_append]

theorem executions_executed (executed : List (ScheduleRunner.Execution ProgramRef)) :
    executions (executed.map .executed) = executed := by
  simp [executions,List.filterMap_map]

theorem hangUps_trace (notifiers : List SectionRunner.Sender)
    (w : SectionRunner.World SectionRef) :
    (notifiers.foldl SectionRunner.World.hangUp w).trace = w.trace := by
  induction notifiers generalizing w with
  | nil => rfl
  | cons notifier notifiers ih => exact ih (w.hangUp notifier)

private theorem explained_runner {s : Application} {shared : Shared} {origins : List Origin}
    (explained : Explained setting s origins) (step : RunnerStep setting s.shared shared) :
    ∃ more, Explained setting {s with shared := shared} more := by
  cases step with
  | sections label next now effects own step did =>
    refine ⟨origins,explained.keep ?_ rfl (fun going => ⟨going,rfl⟩) rfl⟩
    dsimp only
    rw [did,SectionRunner.pushes_append,SectionRunner.pushes_performed,List.append_nil]
  | programs label next executed own here step did =>
    obtain ⟨left,all,rest⟩ := explained.items
    rw [here] at rest
    have nothing : left = [] := rest (by simp [Executor.idle])
    refine ⟨origins,explained.runs,⟨_,?_,fun _ => rfl⟩,explained.requests⟩
    rw [nothing,List.append_nil] at all
    simp only [itemsExecuted] at all ⊢
    rw [did,executions_append,executions_executed,List.flatMap_append,all]
    simp [Executor.items,List.flatMap_map]
  | executes program waiting here =>
    refine ⟨origins,explained.keep rfl rfl ?_ rfl⟩
    intro _
    simp [Executor.items,here]
  | queueRun notifiers item left waiting here free =>
    refine ⟨origins ++ [.item item],?_,?_,?_⟩
    · dsimp only
      rw [SectionRunner.pushes_runSection]
      exact List.rel_append explained.runs (.cons ⟨rfl,rfl⟩ .nil)
    · obtain ⟨rest,all,same⟩ := explained.items
      rw [here] at same
      have first : rest = item::left ++ waiting.flatMap (fun program => program.sequence) :=
        same (by simp)
      refine ⟨left ++ waiting.flatMap (fun program => program.sequence),all.trans ?_,fun _ => rfl⟩
      rw [List.filterMap_append,first]
      simp [Origin.item?]
    · rw [List.filterMap_append]
      exact (List.append_nil _).trans explained.requests
  | queued notifiers waiting here held =>
    refine ⟨origins,explained.keep ?_ rfl ?_ rfl⟩
    · dsimp only
      rw [hangUps_trace]
    · intro _
      simp [Executor.items,here]
  | aborts notifiers item left waiting here poisoned =>
    exact ⟨origins,explained.keep rfl rfl (fun going => absurd rfl going) rfl⟩

private theorem explained_handled {s : Application} {msg : MqttApi.Message}
    {result : Option (Except MqttApi.ApiError MqttApi.ApiResponse)} {shared : Shared}
    {session next : MqttApi.Session SectionRef} {origins : List Origin}
    (explained : Explained setting s origins) (here : s.api = some session)
    (handled : Handled setting msg s.shared result shared)
    (trace : next.trace = session.trace ++ [.processed msg result]) :
    ∃ more, Explained setting {s with api := some next, shared := shared} more := by
  have before : requestsProcessed setting s = session.trace.filterMap (runRequest? setting) := by
    rw [requestsProcessed,here]
  have after : ∀ shared : Shared,
      requestsProcessed setting {s with api := some next, shared := shared} =
        requestsProcessed setting s ++ (runRequest? setting (.processed msg result)).toList := by
    intro shared
    rw [before]
    simp only [requestsProcessed,trace,List.filterMap_append]
    cases asked : runRequest? setting (.processed msg result) <;> simp [asked]
  cases handled with
  | rejected error means =>
    refine ⟨origins,explained.keep rfl rfl (fun going => ⟨going,rfl⟩) ?_⟩
    rw [after]
    simp [runRequest?,means]
  | stateSet sec state response means =>
    refine ⟨origins,explained.keep rfl rfl (fun going => ⟨going,rfl⟩) ?_⟩
    rw [after]
    simp [runRequest?,means]
  | queued sec dur response means free =>
    refine ⟨origins ++ [.request msg],?_,?_,?_⟩
    · dsimp only
      rw [show pushes ((s.shared.sections.data.runSection sec dur).hangUp
        s.shared.sections.data.channels).trace = _ from SectionRunner.pushes_runSection _ _ _]
      exact List.rel_append explained.runs (.cons means .nil)
    · have same : (origins ++ [Origin.request msg]).filterMap Origin.item? =
          origins.filterMap Origin.item? := by simp [Origin.item?]
      rw [same]
      exact explained.items
    · rw [after,List.filterMap_append,explained.requests]
      simp [runRequest?,means,Origin.request?]

private theorem explained_api {s : Application} {session next : MqttApi.Session SectionRef}
    {shared : Shared} {origins : List Origin} (explained : Explained setting s origins)
    (here : s.api = some session) (step : ApiStep setting session s.shared next shared) :
    ∃ more, Explained setting {s with api := some next, shared := shared} more := by
  rcases MqttApi.step_effect step with ⟨msg,result,done,trace⟩ | ⟨rfl,more,trace,silent⟩
  · exact explained_handled explained here (processes_handled done) trace
  · refine ⟨origins,explained.keep rfl rfl (fun going => ⟨going,rfl⟩) ?_⟩
    have nothing : more.filterMap (runRequest? setting) = [] := by
      rw [List.filterMap_eq_nil_iff]
      intro event member
      cases event with
      | processed msg result => exact absurd member (silent msg result)
      | _ => rfl
    simp only [requestsProcessed,here,trace,List.filterMap_append,nothing,List.append_nil]

theorem schedule_executions {tz : Local} {w next : ScheduleRunner.World ProgramRef}
    {sched : Schedule} {program : ProgramRef} {now : Int}
    (scheduled : w.schedule tz sched program now = some next) :
    executions next.trace = executions w.trace := by
  obtain ⟨_,_,rfl⟩ := Option.map_eq_some_iff.mp scheduled
  exact (executions_append _ _).trans (List.append_nil _)

private theorem explained_main {s next : Application} {origins : List Origin}
    (explained : Explained setting s origins) (early : s.main.starting = true → s.api = none)
    (step : MainStep setting s next) : ∃ more, Explained setting next more := by
  cases step with
  | schedules program left now guard world here free scheduled returned =>
    refine ⟨origins,explained.keep rfl ?_ (fun going => ⟨going,rfl⟩) rfl⟩
    have same := schedule_executions scheduled.2.2
    exact congrArg (List.flatMap fun execution => execution.data.sequence) same
  | serves here =>
    refine ⟨origins,explained.keep rfl rfl (fun going => ⟨going,rfl⟩) ?_⟩
    have none := early (by rw [here]; rfl)
    simp [requestsProcessed,none,MqttApi.startNew]
  | stopsSections world here free stopped =>
    obtain ⟨_,rfl⟩ := stopped
    exact ⟨origins,explained.keep rfl rfl (fun going => ⟨going,rfl⟩) rfl⟩
  | stopsPrograms world here free stopped =>
    obtain ⟨_,_,rfl⟩ := stopped
    exact ⟨origins,explained.keep rfl rfl (fun going => ⟨going,rfl⟩) rfl⟩
  | _ => exact ⟨origins,explained.keep rfl rfl (fun going => ⟨going,rfl⟩) rfl⟩

theorem explained_reachable {clock : Instant} {now : Int} {s : Application}
    (reached : Reachable setting clock now s) : ∃ origins, Explained setting s origins := by
  induction reached with
  | refl => exact ⟨[],explained_new clock now⟩
  | @tail before _ earlier last ih =>
    obtain ⟨origins,explained⟩ := ih
    cases last with
    | main next step => exact explained_main explained (api_not_started earlier) step
    | api session next shared here step => exact explained_api explained here step
    | runner shared step => exact explained_runner explained step

/-- Every run that has ever been queued is an item of a program that has been executed or the
target of a request that has been processed, and the other way round: each of the two comes in its
own order, with nothing lost, changed or repeated, however they fall among each other. -/
theorem queue_explained {clock : Instant} {now : Int} {s : Application}
    (reached : Reachable setting clock now s) : ∃ origins, Explained setting s origins :=
  explained_reachable reached

end Runs

section Lawn
open ChronoModel (localAt ymdHms)
open SectionRunner (atSecond forSeconds)

def lawn : SectionRef := ⟨0,"lawn"⟩

/-- A program for the one section, due for the first time on the Monday. -/
def mow : ProgramRef where
  sequence := [⟨lawn,forSeconds 5⟩]
  name := "mow"
  schedule := mondays .none .none

def lawnOnly : Setting where
  chrono := ChronoModel.duration
  log := initLog
  tz := localAt 0
  timekeeping := ScheduleRunner.OneInstant
  decoders := ⟨fun _ => .ok "",.error,.error⟩
  topicPrefix := "rinklers/"
  prefixPath := ⟨[.normal "rinklers",.other],"rinklers/",by decide⟩
  state := ⟨[lawn],[mow]⟩

def sunday : Int := ymdHms 2016 5 1 0 0 0

def monday : Int := ymdHms 2016 5 2 9 41 0

/-- With the program scheduled and no API. -/
def unserved (programs : ScheduleRunner.State ProgramRef) (executor : Executor)
    (sections : SectionRunner.State SectionRef) (valves : SectionRef → Bool) : Application :=
  ⟨.scheduling [],none,⟨false,programs,executor,sections,valves⟩⟩

def planned : ScheduleRunner.World ProgramRef :=
  ⟨⟨false,⟨[.element (.new (localAt 0) mow.schedule mow sunday)],none⟩⟩,[],1,sunday,
    [.scheduled ⟨0,0⟩ mow.schedule mow sunday]⟩

abbrev LawnReachable : Application → Prop := Reachable lawnOnly (atSecond 0) sunday

def initialized : Application :=
  ⟨.scheduling [mow],none,⟨false,ScheduleRunner.startNew sunday,.idle,
    SectionRunner.startNew (atSecond 0),Function.update (fun _ => false) lawn false⟩⟩

theorem mow_scheduled : LawnReachable (unserved ⟨.top,planned,⟨.wait,sunday⟩⟩ .idle
    (SectionRunner.startNew (atSecond 0)) (Function.update (fun _ => false) lawn false)) := by
  have started : LawnReachable initialized :=
    (Relation.ReflTransGen.refl.tail (.main _ (.setState lawn [] rfl))).tail
      (.main _ (.initialized rfl))
  exact started.tail (.main _ (@MainStep.schedules lawnOnly initialized mow [] sunday ⟨0,0⟩
    {planned with guards := [⟨0,0⟩]} rfl rfl ⟨rfl,fun _ => rfl,rfl⟩ rfl))

theorem mow_executed : ∃ programs, LawnReachable (unserved programs (.working [] [] [mow])
      (SectionRunner.startNew (atSecond 0)) (Function.update (fun _ => false) lawn false)) ∧
    (executions programs.data.trace).map ScheduleRunner.Execution.data = [mow] := by
  let pass := ScheduleRunner.loopBody (localAt 0) ChronoModel.duration (fun _ => monday)
    planned.data .wait
  have fires : pass.exit = .next ∧ pass.executed.map ScheduleRunner.Execution.data = [mow] := by
    decide +kernel
  have asleep := mow_scheduled.tail (.runner _ (.programs .sleep _ [] rfl rfl (.sleep rfl rfl) rfl))
  have fired := asleep.tail (.runner _ (.programs .pass _ pass.executed rfl rfl
    (.pass .next _ _ (.inr ⟨_,rfl⟩) ⟨fun _ => monday,fun _ => rfl,fires.1,rfl,rfl⟩) rfl))
  rw [fires.2] at fired
  refine ⟨_,fired,?_⟩
  dsimp only
  rw [executions_append,executions_executed]
  exact fires.2

def mowing : List (SectionRunner.Event SectionRef) :=
  [.pushed ⟨lawn,forSeconds 5,0⟩,.performed (atSecond 1) (.setState lawn true),
    .performed (atSecond 1) (.send 0 .start)]

theorem lawn_mown : ∃ s : Application, LawnReachable s ∧ s.shared.valves lawn = true ∧
    s.shared.sections.data.trace = mowing ∧ s.api = none := by
  obtain ⟨programs,executed,_⟩ := mow_executed
  have queued := (executed.tail (.runner _ (.executes mow [] rfl))).tail
    (.runner _ (.queueRun [] _ [] [] rfl rfl))
  have asleep := (queued.tail (.runner _ (.queued _ [] rfl (List.cons_ne_nil _ _)))).tail
    (.runner _ (.sections .sleep _ (atSecond 1) [] rfl (.sleep rfl rfl) rfl))
  have forward : atSecond 0 ≤ atSecond 1 := by decide
  have mown := asleep.tail (.runner _ (.sections .pass _ (atSecond 1)
    [.setState lawn true,.send 0 .start] rfl
    (.pass .next _ _ (.inr ⟨_,rfl⟩) ⟨atSecond 1,forward,rfl,rfl,rfl⟩) rfl))
  exact ⟨_,mown,rfl,rfl,rfl⟩

theorem queue_explained_mown : ∃ s : Application,
    pushes s.shared.sections.data.trace = [⟨lawn,forSeconds 5,0⟩] ∧
      ∃ origins, Explained lawnOnly s origins := by
  obtain ⟨s,reached,_,trace,_⟩ := lawn_mown
  exact ⟨s,congrArg pushes trace,queue_explained reached⟩

end Lawn
end Rinklers.Application
