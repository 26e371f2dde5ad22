import Rinklers.SectionRunner

/-! The valves follow the run in progress: every section is off at the start, and only the
runner thread turns one on or off. -/
namespace Rinklers.SectionRunner
open Foundation
open Foundation.Monitor (Step Reachable)

variable {Sec : Type}

def Follows (sections : Sec → Bool) (currentRun : Option (Run Sec)) : Prop :=
  ∀ sec, sections sec = true ↔ ∃ run, currentRun = some run ∧ run.sec = sec

private theorem follows_none {sections : Sec → Bool} (off : ∀ sec, sections sec = false) :
    Follows sections none := by
  intro sec
  simp [off sec]

private theorem Follows.off {sections : Sec → Bool} (follows : Follows sections none) (sec : Sec) :
    sections sec = false := by
  by_contra on
  obtain ⟨run,impossible,_⟩ := (follows sec).mp (by simpa using on)
  cases impossible

variable [DecidableEq Sec]

def turn (sections : Sec → Bool) : Effect Sec → Sec → Bool
  | .setState sec state => Function.update sections sec state
  | .send _ _ => sections

theorem performs_sections (now : Instant) (effects : List (Effect Sec)) (w : World Sec) :
    (effects.foldl (World.perform now) w).sections = effects.foldl turn w.sections := by
  induction effects generalizing w with
  | nil => rfl
  | cons effect rest ih =>
    rw [List.foldl_cons,List.foldl_cons,ih]
    cases effect <;> rfl

theorem sends_turn_nothing (queue : List (SecRun Sec)) (sections : Sec → Bool) :
    (queue.map (fun run => Effect.send run.notificationSender .interrupted)).foldl turn sections =
      sections := by
  induction queue with
  | nil => rfl
  | cons run rest ih => exact ih

private theorem Follows.turnOff {sections : Sec → Bool} {run : Run Sec}
    (follows : Follows sections (some run)) :
    Follows (Function.update sections run.sec false) none := by
  apply follows_none
  intro sec
  by_cases same : sec = run.sec
  · rw [same,Function.update_self]
  · rw [Function.update_of_ne same]
    by_contra on
    obtain ⟨other,found,rfl⟩ := (follows sec).mp (by simpa using on)
    cases found
    exact same rfl

private theorem Follows.turnOn {sections : Sec → Bool} (follows : Follows sections none)
    (run : Run Sec) : Follows (Function.update sections run.sec true) (some run) := by
  intro sec
  by_cases same : sec = run.sec
  · simp [same]
  · have other : run.sec ≠ sec := Ne.symm same
    simp [Function.update_of_ne same,follows.off sec,other]

structure Watering (s : State Sec) : Prop where
  follows : Follows s.data.sections s.thread.currentRun
  returned : s.phase = .returned → s.thread.currentRun = none

variable (chrono : CDuration) (log : LogLevelFilter)

private theorem watering_pass {w : World Sec} {thread : Thread Sec} (now : Instant)
    (follows : Follows w.sections thread.currentRun) (pass : Pass Sec)
    (outcome : Outcome now w.data thread pass) :
    Follows (pass.effects.foldl turn w.sections) pass.thread.currentRun ∧
      (pass.exit = .done → pass.thread.currentRun = none) := by
  cases outcome with
  | failed => exact ⟨follows,fun impossible => by cases impossible⟩
  | dropped run queue going free front => exact ⟨follows,fun _ => free⟩
  | interrupted run quit running =>
    rw [running] at follows
    refine ⟨?_,fun _ => rfl⟩
    have off := follows.turnOff
    rw [← sends_turn_nothing w.data.queue (Function.update w.sections run.sec false)] at off
    exact off
  | left quit free => exact ⟨follows,fun _ => free⟩
  | finished run going running due =>
    rw [running] at follows
    exact ⟨follows.turnOff,fun _ => rfl⟩
  | continued run going running early =>
    rw [running] at follows
    exact ⟨follows,fun impossible => by cases impossible⟩
  | started run queue going free front =>
    rw [free] at follows
    exact ⟨follows.turnOn ⟨run.sec,run.dur,now,run.notificationSender⟩,
      fun impossible => by cases impossible⟩
  | rested going free empty =>
    rw [free] at follows
    exact ⟨follows,fun _ => rfl⟩

theorem watering_step {s next : State Sec} {label : Monitor.Label (Op Sec)}
    (watering : Watering s) (step : Step (runner chrono log) s label next) : Watering next := by
  cases step with
  | update op data free updated =>
    have kept : data.sections = s.data.sections := by
      cases op with
      | runSection sec dur => cases updated; rfl
      | stop => obtain ⟨_,rfl⟩ := updated; rfl
    refine ⟨?_,?_⟩
    · rw [kept]
      exact watering.follows
    · intro returned
      exact watering.returned ((Monitor.Phase.notify_eq_returned _).mp returned)
  | outside data changed =>
    cases changed <;> exact ⟨watering.follows,watering.returned⟩
  | sleep top sleeps => exact ⟨watering.follows,fun impossible => by cases impossible⟩
  | pass exit data thread awake ran =>
    obtain ⟨now,pass,_,outcome,rfl,rfl,rfl⟩ := body_outcome ran
    obtain ⟨follows,ended⟩ := watering_pass now watering.follows pass outcome
    refine ⟨?_,?_⟩
    · rw [performs_sections]
      exact follows
    · intro returned
      apply ended
      cases exits : pass.exit <;> rw [exits] at returned <;> first | rfl | cases returned
  | release holding => exact ⟨watering.follows,fun impossible => by cases impossible⟩

theorem reachable_watering (clock : Instant) {s : State Sec}
    (reached : Reachable (runner chrono log) (startNew clock) s) : Watering s := by
  refine reached.invariant Watering ⟨follows_none (fun _ => rfl),fun _ => rfl⟩ ?_
  intro before label after watering step
  exact watering_step chrono log watering step

/-- The trace grows from one state to another, and no valve is opened in between. -/
def NoneOpened (s later : State Sec) : Prop :=
  ∃ added, later.data.trace = s.data.trace ++ added ∧
    ∀ time sec, Event.performed time (.setState sec true) ∉ added

theorem quit_step {s next : State Sec} {label : Monitor.Label (Op Sec)}
    (quit : s.data.data.quit = true) (step : Step (runner chrono log) s label next) :
    next.data.data.quit = true ∧ NoneOpened s next := by
  cases step with
  | update op data free updated =>
    cases op with
    | runSection sec dur =>
      cases updated
      exact ⟨quit,[.pushed ⟨sec,dur,s.data.channels⟩],rfl,by simp⟩
    | stop =>
      obtain ⟨going,_⟩ := updated
      rw [quit] at going
      cases going
  | outside data changed =>
    cases changed <;> exact ⟨quit,[],(List.append_nil _).symm,by simp⟩
  | sleep top sleeps => exact ⟨quit,[],(List.append_nil _).symm,by simp⟩
  | release holding => exact ⟨quit,[],(List.append_nil _).symm,by simp⟩
  | pass exit data thread awake ran =>
    obtain ⟨now,pass,_,outcome,rfl,rfl,rfl⟩ := body_outcome ran
    refine ⟨?_,_,World.performs_trace _ _ _,?_⟩
    · rw [World.performs_data]
      cases outcome <;> simp_all
    · intro time sec opened
      obtain ⟨effect,member,same⟩ := List.mem_map.mp opened
      cases same
      cases outcome <;> simp_all

theorem none_opened_after_quit {s later : State Sec} (quit : s.data.data.quit = true)
    (reached : Reachable (runner chrono log) s later) : NoneOpened s later := by
  have both : later.data.data.quit = true ∧ NoneOpened s later := by
    refine reached.invariant (fun later => later.data.data.quit = true ∧ NoneOpened s later)
      ⟨quit,[],(List.append_nil _).symm,by simp⟩ ?_
    rintro before label after ⟨quitting,opened,grown,silent⟩ step
    obtain ⟨still,more,grew,quiet⟩ := quit_step chrono log quitting step
    refine ⟨still,opened ++ more,?_,?_⟩
    · rw [grew,grown,List.append_assoc]
    · intro time sec member
      rcases List.mem_append.mp member with old | new
      · exact silent time sec old
      · exact quiet time sec new
  exact both.2

/-- At most the section of the run in progress is on, none is turned on after the request to
stop, and all are off once the thread has returned. -/
theorem valves_follow_current_run (clock : Instant) {s : State Sec}
    (reached : Reachable (runner chrono log) (startNew clock) s) :
    (∀ sec, s.data.sections sec = true ↔ ∃ run, s.thread.currentRun = some run ∧ run.sec = sec) ∧
    (s.data.data.quit = true → ∀ later, Reachable (runner chrono log) s later →
      ∃ added, later.data.trace = s.data.trace ++ added ∧
        ∀ time sec, Event.performed time (.setState sec true) ∉ added) ∧
    (s.phase = .returned → ∀ sec, s.data.sections sec = false) := by
  have watering := reachable_watering chrono log clock reached
  refine ⟨watering.follows,fun quit _ later => none_opened_after_quit chrono log quit later,?_⟩
  intro returned sec
  have follows := watering.follows
  rw [watering.returned returned] at follows
  exact follows.off sec

theorem valves_follow_current_run_twice : ∃ s : State Nat,
    s.thread.currentRun.isSome = true ∧ s.data.data.quit = true ∧
      (s.data.sections 7 = true ↔ ∃ run, s.thread.currentRun = some run ∧ run.sec = 7) := by
  have reached := byHand_reachable
    [.sleep,.runSection 7 (forSeconds 5),.runSection 7 (forSeconds 6),.pass (atSecond 1),.release,
      .sleep,.pass (atSecond 6),.release,.pass (atSecond 6),.release,.stop] (by decide)
  have valves := valves_follow_current_run ChronoModel.duration initLog (atSecond 0) reached
  exact ⟨_,by decide,by decide,valves.1 7⟩

end Rinklers.SectionRunner
