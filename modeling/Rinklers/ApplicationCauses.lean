import Rinklers.ApplicationSchedule
import Rinklers.SectionRunnerWaterings

/-! From the configuration to the valves: for what, in which order and for how long the section
runner has watered. -/
namespace Rinklers.Application
open Foundation
open SectionRunner (InTurn)

variable {setting : Setting}

/-- Where an origin is from: the configuration has the program with the item, and the program has
been executed at an occurrence of its schedule or after it; or the message has been processed. -/
inductive Caused (setting : Setting) (config : Config) (s : Application) : Origin → Prop
  | item (entry : ProgItem SectionRef) (execution : ScheduleRunner.Execution ProgramRef)
      (program : ProgramConfig) (item : ProgItemConfig)
      (executed : execution ∈ executions s.shared.programs.data.trace)
      (configured : config.programs[execution.index]? = some program)
      (occurs : ∃ reference,
        program.schedule.nextRunAfter setting.tz reference = some execution.occurrence)
      (due : execution.occurrence ≤ execution.time) (listed : item ∈ program.sequence)
      (makes : item.Makes config.toSections entry) : Caused setting config s (.item entry)
  | request (msg : MqttApi.Message) (session : MqttApi.Session SectionRef)
      (result : Option (Except MqttApi.ApiError MqttApi.ApiResponse)) (api : s.api = some session)
      (processed : .processed msg result ∈ session.trace) : Caused setting config s (.request msg)

theorem Due.caused {config : Config} {s : Application} {entry : ProgItem SectionRef}
    {execution : ScheduleRunner.Execution ProgramRef}
    (made : AppState.fromConfig config = .ok setting.state)
    (executed : execution ∈ executions s.shared.programs.data.trace)
    (due : Due setting.tz setting.state.programs execution)
    (listed : entry ∈ execution.data.sequence) : Caused setting config s (.item entry) := by
  obtain ⟨program,configured,makes⟩ := forall₂_getElem? (fromConfig_programs made) due.program
  obtain ⟨place,found⟩ := List.mem_iff_getElem?.mp listed
  obtain ⟨item,written,same⟩ := forall₂_getElem? makes.sequence found
  obtain ⟨reference,occurs⟩ := due.next
  exact .item entry execution program item executed configured
    ⟨reference,makes.schedule ▸ occurs⟩ due.due (List.mem_of_getElem? written) same

theorem runRequest_eq_some {event : MqttApi.Event} {msg : MqttApi.Message}
    (asked : runRequest? setting event = some msg) : ∃ result, event = .processed msg result := by
  cases event with
  | processed other result =>
    simp only [runRequest?] at asked
    split at asked <;> cases asked
    exact ⟨result,rfl⟩
  | _ => cases asked

theorem Explained.caused {config : Config} {s : Application} {origins : List Origin}
    (explained : Explained setting s origins)
    (made : AppState.fromConfig config = .ok setting.state)
    (due : ∀ execution ∈ executions s.shared.programs.data.trace,
      Due setting.tz setting.state.programs execution) :
    ∀ origin ∈ origins, Caused setting config s origin := by
  intro origin member
  cases origin with
  | item entry =>
    obtain ⟨left,all,_⟩ := explained.items
    have listed : entry ∈ itemsExecuted s := by
      rw [all]
      exact List.mem_append_left _ (List.mem_filterMap.mpr ⟨_,member,rfl⟩)
    obtain ⟨execution,executed,inside⟩ := List.mem_flatMap.mp listed
    exact (due execution executed).caused made executed inside
  | request msg =>
    have asked : msg ∈ requestsProcessed setting s := by
      rw [← explained.requests]
      exact List.mem_filterMap.mpr ⟨_,member,rfl⟩
    cases api : s.api with
    | none => simp [requestsProcessed,api] at asked
    | some session =>
      simp only [requestsProcessed,api] at asked
      obtain ⟨event,processed,found⟩ := List.mem_filterMap.mp asked
      obtain ⟨result,rfl⟩ := runRequest_eq_some found
      exact .request msg session result api processed

/-- The valves follow the configuration: the section runner has opened them, and shut them again, for
one run after the other, each an item of a program or a request in the order in which these have
come to the queue, and for as long as it asks for unless it has been told to stop. -/
theorem waterings_caused {config : Config} {clock : Instant} {now : Int} {s : Application}
    (made : AppState.fromConfig config = .ok setting.state)
    (reached : Reachable setting clock now s) : ∃ whole cut rest causes later,
      InTurn clock s.shared.sections whole cut rest ∧ Explained setting s (causes ++ later) ∧
      List.Forall₂ (Explains setting) causes ((whole ++ cut).map Period.task ++
        s.shared.sections.thread.currentRun.toList.map SectionRunner.Run.secRun) ∧
      ∀ origin ∈ causes, Caused setting config s origin := by
  obtain ⟨origins,explained⟩ := explained_reachable reached
  obtain ⟨scheduled,planned⟩ := planned_reachable reached
  obtain ⟨whole,cut,rest,waterings⟩ := SectionRunner.waterings_reachable (sections_reachable reached)
  have runs := explained.runs
  rw [waterings.pushed] at runs
  refine ⟨whole,cut,rest,_,_,waterings.inTurn,(List.take_append_drop _ origins).symm ▸ explained,
    List.forall₂_take_append origins _ _ runs,?_⟩
  intro origin member
  exact explained.caused made planned.due_whole origin (List.mem_of_mem_take member)

/-- The configuration of the one section and its program. -/
def lawnConfig : Config :=
  ⟨[⟨"lawn"⟩],[⟨"mow",[⟨⟨0,by decide⟩,SectionRunner.forSeconds 5⟩],mondays .none .none⟩]⟩

theorem waterings_caused_mown : ∃ s : Application,
    s.shared.sections.data.trace = mowing ∧ ∃ whole cut rest causes later,
      InTurn (SectionRunner.atSecond 0) s.shared.sections whole cut rest ∧
      Explained lawnOnly s (causes ++ later) ∧
      List.Forall₂ (Explains lawnOnly) causes ((whole ++ cut).map Period.task ++
        s.shared.sections.thread.currentRun.toList.map SectionRunner.Run.secRun) ∧
      ∀ origin ∈ causes, Caused lawnOnly lawnConfig s origin := by
  obtain ⟨s,reached,_,trace,_⟩ := lawn_mown
  exact ⟨s,trace,waterings_caused rfl reached⟩

end Rinklers.Application
