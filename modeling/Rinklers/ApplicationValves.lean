import Rinklers.ApplicationCauses
import Rinklers.SectionRunnerValves

/-! What the sections are in the whole program. The main thread, the section runner and the API all
set them; a section that no message has set is as the section runner has it. -/
namespace Rinklers.Application
open Foundation
open SectionRunner (Effect pushes turn)

variable {setting : Setting}

/-- A message that sets the state of the section has been processed. -/
def Overridden (setting : Setting) (s : Application) (sec : SectionRef) : Prop :=
  ∃ session msg result state, s.api = some session ∧ .processed msg result ∈ session.trace ∧
    msg.meaning setting.decoders setting.prefixPath setting.state.sections =
      .ok (.setState sec state)

def AsRun (setting : Setting) (s : Application) : Prop :=
  ∀ sec, ¬ Overridden setting s sec → s.shared.valves sec = s.shared.sections.data.sections sec

section Effects

theorem turned_alike (effects : List (Effect SectionRef)) {valves sections : SectionRef → Bool}
    {sec : SectionRef} (alike : valves sec = sections sec) :
    effects.foldl turn valves sec = effects.foldl turn sections sec := by
  induction effects generalizing valves sections with
  | nil => exact alike
  | cons effect effects ih =>
    apply ih
    cases effect with
    | send sender notification => exact alike
    | setState other state =>
      simp only [turn,Function.update_apply]
      split
      · rfl
      · exact alike

theorem performed_injective {now time : Instant} {trace : List (SectionRunner.Event SectionRef)}
    {effects others : List (Effect SectionRef)}
    (same : trace ++ effects.map (.performed now) = trace ++ others.map (.performed time)) :
    effects = others := by
  have mapped := List.append_cancel_left same
  induction effects generalizing others with
  | nil => exact (List.map_eq_nil_iff.mp mapped.symm).symm
  | cons effect effects ih =>
    cases others with
    | nil => cases mapped
    | cons other others =>
      rw [List.map_cons,List.map_cons] at mapped
      obtain ⟨first,later⟩ := List.cons.inj mapped
      cases first
      rw [ih (congrArg (trace ++ ·) later) later]

theorem hangUps_sections (notifiers : List SectionRunner.Sender)
    (w : SectionRunner.World SectionRef) :
    (notifiers.foldl SectionRunner.World.hangUp w).sections = w.sections := by
  induction notifiers generalizing w with
  | nil => rfl
  | cons notifier notifiers ih => exact ih (w.hangUp notifier)

/-- A step of the thread turns the sections as its trace says. -/
theorem own_turns {s next : SectionRunner.State SectionRef}
    {label : Monitor.Label (SectionRunner.Op SectionRef)} {now : Instant}
    {effects : List (Effect SectionRef)} (own : ownStep label = true)
    (step : Monitor.Step (sectionRunner setting) s label next)
    (did : next.data.trace = s.data.trace ++ effects.map (.performed now)) :
    next.data.sections = effects.foldl turn s.data.sections := by
  have still : next.data = s.data → next.data.sections = effects.foldl turn s.data.sections := by
    intro same
    rw [same] at did ⊢
    have nothing : effects = [] := by simpa using did
    rw [nothing]
    rfl
  cases step with
  | update | outside => cases own
  | sleep | release => exact still rfl
  | pass exit data thread awake ran =>
    obtain ⟨time,pass,_,_,_,_,rfl⟩ := SectionRunner.body_outcome ran
    rw [SectionRunner.World.performs_trace] at did
    rw [SectionRunner.performs_sections,performed_injective did]

end Effects

/-- Nothing has been queued before the main thread starts to schedule programs. -/
theorem quiet_while_initializing {clock : Instant} {now : Int} {s : Application}
    {left : List SectionRef} (reached : Reachable setting clock now s)
    (here : s.main = .initializing left) : pushes s.shared.sections.data.trace = [] := by
  obtain ⟨origins,explained⟩ := explained_reachable reached
  obtain ⟨scheduled,planned⟩ := planned_reachable reached
  have stage := planned.stage
  rw [here] at stage
  have none : scheduled = [] := stage
  have executed : executions s.shared.programs.data.trace = [] := by
    rw [List.eq_nil_iff_forall_not_mem]
    intro execution member
    have listed := (planned.due execution member).program
    simp [none] at listed
  have items : origins.filterMap Origin.item? = [] := by
    obtain ⟨rest,all,_⟩ := explained.items
    rw [itemsExecuted,executed] at all
    exact (List.append_eq_nil_iff.mp all.symm).1
  have requests : origins.filterMap Origin.request? = [] := by
    have unserved := api_not_started reached (by rw [here]; rfl)
    rw [explained.requests,requestsProcessed,unserved]
  have nothing : origins = [] := by
    cases origins with
    | nil => rfl
    | cons origin origins => cases origin <;> simp [Origin.item?,Origin.request?] at items requests
  have runs := explained.runs
  rw [nothing] at runs
  exact List.forall₂_nil_left_iff.mp runs

theorem off_while_initializing {clock : Instant} {now : Int} {s : Application}
    {left : List SectionRef} (reached : Reachable setting clock now s)
    (here : s.main = .initializing left) (sec : SectionRef) :
    s.shared.sections.data.sections sec = false := by
  obtain ⟨_,_,_,waterings⟩ := SectionRunner.waterings_reachable (sections_reachable reached)
  have watering := SectionRunner.reachable_watering _ _ clock (sections_reachable reached)
  have pushed := waterings.pushed
  rw [quiet_while_initializing reached here] at pushed
  by_contra on
  obtain ⟨run,running,_⟩ := (watering.follows sec).mp (by simpa using on)
  simp [running] at pushed

theorem overridden_step {clock : Instant} {now : Int} {s next : Application} {sec : SectionRef}
    (reached : Reachable setting clock now s) (set : Overridden setting s sec)
    (step : Step setting s next) : Overridden setting next sec := by
  cases step with
  | main next step =>
    cases step with
    | serves here =>
      obtain ⟨session,_,_,_,api,_⟩ := set
      rw [api_not_started reached (by rw [here]; rfl)] at api
      cases api
    | _ => exact set
  | runner shared step => exact set
  | api session next shared here step =>
    obtain ⟨other,msg,result,state,api,processed,means⟩ := set
    cases here.symm.trans api
    have grown : session.trace <+: next.trace := by
      rcases MqttApi.step_effect step with ⟨_,_,_,trace⟩ | ⟨_,_,trace,_⟩ <;>
        exact trace ▸ List.prefix_append _ _
    exact ⟨next,msg,result,state,rfl,grown.subset processed,means⟩

theorem overridden_later {clock : Instant} {now : Int} {s later : Application} {sec : SectionRef}
    (reached : Reachable setting clock now s) (set : Overridden setting s sec)
    (goes : Relation.ReflTransGen (Step setting) s later) : Overridden setting later sec := by
  induction goes with
  | refl => exact set
  | tail earlier last ih => exact overridden_step (reached.trans earlier) ih last

theorem AsRun.keep {s next : Application} (kept : AsRun setting s)
    (sooner : ∀ sec, Overridden setting s sec → Overridden setting next sec)
    (valves : next.shared.valves = s.shared.valves)
    (sections : next.shared.sections.data.sections = s.shared.sections.data.sections) :
    AsRun setting next := by
  intro sec free
  rw [valves,sections]
  exact kept sec fun set => free (sooner sec set)

private theorem asRun_main {s next : Application} (kept : AsRun setting s)
    (sooner : ∀ sec, Overridden setting s sec → Overridden setting next sec)
    (off : ∀ left, s.main = .initializing left → ∀ sec,
      s.shared.sections.data.sections sec = false)
    (step : MainStep setting s next) : AsRun setting next := by
  cases step with
  | setState sec left here =>
    intro other free
    dsimp only
    rw [Function.update_apply,off _ here]
    split
    · rfl
    · exact (kept other free).trans (off _ here other)
  | stopsSections world here free stopped =>
    obtain ⟨_,rfl⟩ := stopped
    exact kept.keep sooner rfl rfl
  | _ => exact kept.keep sooner rfl rfl

private theorem asRun_api {s : Application} {session next : MqttApi.Session SectionRef}
    {shared : Shared} (kept : AsRun setting s)
    (sooner : ∀ sec, Overridden setting s sec →
      Overridden setting {s with api := some next, shared := shared} sec)
    (step : ApiStep setting session s.shared next shared) :
    AsRun setting {s with api := some next, shared := shared} := by
  rcases MqttApi.step_effect step with ⟨msg,result,done,trace⟩ | ⟨rfl,_⟩
  · cases processes_handled done with
    | rejected error means => exact kept.keep sooner rfl rfl
    | queued sec dur response means free => exact kept.keep sooner rfl rfl
    | stateSet sec state response means =>
      intro other free
      have processed : .processed msg (some (.ok response)) ∈ next.trace := by
        rw [trace]
        exact List.mem_append_right _ (List.mem_singleton_self _)
      have apart : other ≠ sec := by
        rintro rfl
        exact free ⟨next,msg,_,state,rfl,processed,means⟩
      dsimp only
      rw [Function.update_of_ne apart]
      exact kept other fun set => free (sooner other set)
  · exact kept.keep sooner rfl rfl

private theorem asRun_runner {s : Application} {shared : Shared} (kept : AsRun setting s)
    (step : RunnerStep setting s.shared shared) : AsRun setting {s with shared := shared} := by
  cases step with
  | sections label next now effects own step did =>
    intro sec free
    dsimp only
    rw [own_turns own step did]
    exact turned_alike effects (kept sec free)
  | queued notifiers waiting here held =>
    exact kept.keep (fun _ => id) rfl (hangUps_sections notifiers _)
  | _ => exact kept.keep (fun _ => id) rfl rfl

theorem asRun_reachable {clock : Instant} {now : Int} {s : Application}
    (reached : Reachable setting clock now s) : AsRun setting s := by
  induction reached with
  | refl => exact fun _ _ => rfl
  | @tail before after earlier last ih =>
    have sooner : ∀ sec, Overridden setting before sec → Overridden setting after sec :=
      fun _ set => overridden_step earlier set last
    cases last with
    | main next step => exact asRun_main ih sooner (fun _ => off_while_initializing earlier) step
    | api session next shared here step => exact asRun_api ih sooner step
    | runner shared step => exact asRun_runner ih step

theorem valves_follow_run {clock : Instant} {now : Int} {s : Application}
    (reached : Reachable setting clock now s) {sec : SectionRef}
    (free : ¬ Overridden setting s sec) : s.shared.valves sec = true ↔
      ∃ run, s.shared.sections.thread.currentRun = some run ∧ run.sec = sec := by
  have watering := SectionRunner.reachable_watering _ _ clock (sections_reachable reached)
  rw [asRun_reachable reached sec free]
  exact watering.follows sec

theorem off_when_returned {clock : Instant} {now : Int} {s : Application}
    (reached : Reachable setting clock now s) (returned : s.shared.sections.phase = .returned)
    {sec : SectionRef} (free : ¬ Overridden setting s sec) : s.shared.valves sec = false := by
  have watering := SectionRunner.reachable_watering _ _ clock (sections_reachable reached)
  by_contra on
  obtain ⟨run,running,_⟩ := (valves_follow_run reached free).mp (by simpa using on)
  rw [watering.returned returned] at running
  cases running

/-- Only one section is on at a time, that of the run in progress, and none when the thread of the
section runner has returned: unless a message has set the section, and then that section only. -/
theorem valves_as_run {clock : Instant} {now : Int} {s : Application}
    (reached : Reachable setting clock now s) (sec : SectionRef)
    (free : ¬ Overridden setting s sec) :
    (s.shared.valves sec = true ↔
      ∃ run, s.shared.sections.thread.currentRun = some run ∧ run.sec = sec) ∧
    (s.shared.sections.phase = .returned → s.shared.valves sec = false) :=
  ⟨valves_follow_run reached free,fun returned => off_when_returned reached returned free⟩

theorem valves_as_run_mown : ∃ s : Application, s.shared.valves lawn = true ∧
    (s.shared.valves lawn = true ↔
      ∃ run, s.shared.sections.thread.currentRun = some run ∧ run.sec = lawn) := by
  obtain ⟨s,reached,on,trace,unserved⟩ := lawn_mown
  refine ⟨s,on,(valves_as_run reached lawn ?_).1⟩
  rintro ⟨session,_,_,_,api,_⟩
  rw [unserved] at api
  cases api

end Rinklers.Application
