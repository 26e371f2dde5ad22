import Rinklers.MqttApi

/-! Which run durations the program survives. A `run_for` request and `run_section` accept every
`std::time::Duration`; the response and the debug log print it through chrono's smaller type. -/
namespace Rinklers
open Foundation
open SectionRunner (World Thread RunnerData SecRun loopBody)

variable (chrono : CDuration) (Sec : Type) [DecidableEq Sec]

def RequestsAnswered (dur : Duration) : Prop :=
  ∀ (decoders : MqttApi.Decoders) (prefixPath : MqttApi.TopicPath) (sections : List Sec)
    (name : Sec → String) (msg : MqttApi.Message) (w : World Sec) (idx : Nat) (payload : String),
    MqttApi.Requests decoders prefixPath msg "run_for" idx payload → idx < sections.length →
    decoders.duration payload = .ok dur →
    (MqttApi.processMsg chrono decoders prefixPath sections name msg w).1 ≠ none

/-- No iteration of the runner's loop, with the log that `init_log` sets up, panics when it takes
a run of this duration from the queue. -/
def RunsStarted (dur : Duration) : Prop :=
  ∀ (now : Instant) (data : RunnerData Sec) (thread : Thread Sec) (run : SecRun Sec)
    (queue : List (SecRun Sec)),
    data.quit = false → thread.currentRun = none → data.queue = run::queue → run.dur = dur →
    (loopBody chrono initLog now data thread).exit ≠ .panic

section Request
variable {Sec} (decoders : MqttApi.Decoders) (prefixPath : MqttApi.TopicPath)
  (sections : List Sec) (name : Sec → String) (msg : MqttApi.Message) (w : World Sec)

private theorem requests_unique {requestType other : String} {idx otherIdx : Nat}
    {payload otherPayload : String}
    (asked : MqttApi.Requests decoders prefixPath msg requestType idx payload)
    (again : MqttApi.Requests decoders prefixPath msg other otherIdx otherPayload) :
    requestType = other ∧ idx = otherIdx ∧ payload = otherPayload := by
  obtain ⟨topics,levels,_,index,request,text⟩ := asked
  obtain ⟨_,same,_,otherIndex,otherRequest,otherText⟩ := again
  cases levels.symm.trans same
  cases request.symm.trans otherRequest
  cases index.symm.trans otherIndex
  cases text.symm.trans otherText
  exact ⟨rfl,rfl,rfl⟩

/-- The one way for `process_msg` to panic: a request to run a section for too long. -/
theorem processMsg_panics_iff :
    (MqttApi.processMsg chrono decoders prefixPath sections name msg w).1 = none ↔
      ∃ idx payload dur, MqttApi.Requests decoders prefixPath msg "run_for" idx payload ∧
        idx < sections.length ∧ decoders.duration payload = .ok dur ∧ ¬Printable dur := by
  have processed := MqttApi.processMsg_processed chrono decoders prefixPath sections name msg w
  constructor
  · intro panicked
    generalize MqttApi.processMsg chrono decoders prefixPath sections name msg w = outcome
      at processed panicked
    cases processed with
    | rejected | stateSet | queued => cases panicked
    | crashed idx payload sec dur asked found decoded unprintable =>
      obtain ⟨inside,_⟩ := List.getElem?_eq_some_iff.mp found
      exact ⟨idx,payload,dur,asked,inside,decoded,unprintable⟩
  · rintro ⟨idx,payload,dur,asked,inside,decoded,unprintable⟩
    obtain ⟨topics,levels,collection,index,request,text⟩ := asked
    simp only [MqttApi.processMsg,levels,collection,index,request,text,
      List.getElem?_eq_getElem inside,decoded,Option.map_eq_none_iff]
    exact (durationString_eq_none chrono dur).mpr unprintable

private theorem answered_of_printable {dur : Duration} (printable : Printable dur) :
    RequestsAnswered chrono Sec dur := by
  intro decoders prefixPath sections name msg w idx payload asked inside decoded panicked
  obtain ⟨_,_,_,again,_,same,unprintable⟩ :=
    (processMsg_panics_iff chrono decoders prefixPath sections name msg w).mp panicked
  obtain ⟨_,_,rfl⟩ := requests_unique decoders prefixPath msg asked again
  cases decoded.symm.trans same
  exact unprintable printable

end Request

theorem logPanics_iff (evaluated : Bool) (durations : List Duration) :
    SectionRunner.logPanics chrono evaluated durations = true ↔
      evaluated = true ∧ ∃ dur ∈ durations, ¬Printable dur := by
  simp only [SectionRunner.logPanics,Bool.and_eq_true,List.any_eq_true,Option.isNone_iff_eq_none,
    durationString_eq_none]

private theorem unprintable_of_logPanics {evaluated : Bool} {dur : Duration}
    (printed : SectionRunner.logPanics chrono evaluated [dur] = true) : ¬Printable dur := by
  obtain ⟨_,other,listed,unprintable⟩ := (logPanics_iff chrono _ _).mp printed
  rwa [List.mem_singleton.mp listed] at unprintable

omit [DecidableEq Sec] in
variable {Sec} in
theorem loopBody_panics {log : LogLevelFilter} {now : Instant} {data : RunnerData Sec}
    {thread : Thread Sec} (panicked : (loopBody chrono log now data thread).exit = .panic) :
    (∃ run ∈ data.queue, ¬Printable run.dur) ∨
      ∃ run, thread.currentRun = some run ∧ ¬Printable (run.startTime.elapsed now) := by
  unfold loopBody at panicked
  split at panicked
  · rename_i printed
    obtain ⟨_,dur,listed,unprintable⟩ := (logPanics_iff chrono _ _).mp printed
    obtain ⟨run,member,rfl⟩ := List.mem_map.mp listed
    exact Or.inl ⟨run,member,unprintable⟩
  · cases running : thread.currentRun with
    | some run =>
      simp only [running] at panicked
      split at panicked
      · split at panicked
        · rename_i printed
          exact Or.inr ⟨run,rfl,unprintable_of_logPanics chrono printed⟩
        · cases panicked
      · split at panicked
        · split at panicked
          · rename_i printed
            exact Or.inr ⟨run,rfl,unprintable_of_logPanics chrono printed⟩
          · cases panicked
        · cases panicked
    | none =>
      simp only [running] at panicked
      split at panicked
      · cases panicked
      · cases front : data.queue with
        | nil => simp [front] at panicked
        | cons run queue =>
          simp only [front] at panicked
          split at panicked
          · rename_i printed
            exact Or.inl ⟨run,List.mem_cons_self,unprintable_of_logPanics chrono printed⟩
          · cases panicked

omit [DecidableEq Sec] in
variable {Sec} in
private theorem start_panics_iff {data : RunnerData Sec} {thread : Thread Sec} {run : SecRun Sec}
    {queue : List (SecRun Sec)} (now : Instant) (going : data.quit = false)
    (free : thread.currentRun = none) (front : data.queue = run::queue) :
    (loopBody chrono initLog now data thread).exit = .panic ↔ ¬Printable run.dur := by
  have printed := logPanics_iff chrono true [run.dur]
  simp only [true_and,List.mem_singleton,exists_eq_left] at printed
  rw [← printed]
  simp only [loopBody,going,free,front,Bool.false_eq_true,if_false]
  change (if SectionRunner.logPanics chrono true [run.dur] = true then _ else _ :
    SectionRunner.Pass Sec).exit = .panic ↔ _
  split
  · rename_i panics
    exact iff_of_true rfl panics
  · rename_i silent
    exact iff_of_false (by simp) silent

omit [DecidableEq Sec] in
private theorem started_iff (sec : Sec) (dur : Duration) :
    RunsStarted chrono Sec dur ↔ Printable dur := by
  constructor
  · intro started
    by_contra unprintable
    apply started ⟨0,by decide⟩ ⟨false,[⟨sec,dur,0⟩]⟩ ⟨none,.wait⟩ ⟨sec,dur,0⟩ [] rfl rfl rfl rfl
    exact (start_panics_iff chrono _ rfl rfl rfl).mpr unprintable
  · rintro printable now data thread run queue going free front rfl panicked
    exact (start_panics_iff chrono now going free front).mp panicked printable

/-- The program survives exactly the durations that can be printed. -/
theorem durations_survived_exactly (sec : Sec) (dur : Duration) :
    RequestsAnswered chrono Sec dur ∧ RunsStarted chrono Sec dur ↔ Printable dur := by
  rw [started_iff chrono Sec sec]
  exact ⟨And.right,fun printable => ⟨answered_of_printable chrono printable,printable⟩⟩

private def longest : Duration := ⟨(2 ^ 64 - 1) * nanosPerSec,by decide⟩

theorem longest_run_crashes :
    ¬(RequestsAnswered ChronoModel.duration Nat longest ∧
      RunsStarted ChronoModel.duration Nat longest) := by
  rintro ⟨answered,_⟩
  have panicked := answered
    ⟨fun _ => .ok "",fun _ => .ok true,fun _ => .ok longest⟩
    ⟨[.normal "rinklers",.normal ""],"rinklers/",List.cons_ne_nil _ _⟩ [7] (fun _ => "Garden")
    ⟨⟨[.normal "rinklers",.normal "sections",.normal "0",.normal "run_for"],
      "rinklers/sections/0/run_for",List.cons_ne_nil _ _⟩,[]⟩
    (World.new (SectionRunner.atSecond 0)) 0 ""
    ⟨["sections","0","run_for"],rfl,rfl,rfl,rfl,rfl⟩ (by decide) rfl
  exact panicked rfl

section Runner
open Foundation.Monitor (Step Runs Rule)
variable {Sec}

def PrintableRuns : Rule (SectionRunner.Op Sec) (World Sec) (Thread Sec) :=
  fun _ op _ => match op with
    | .runSection _ dur => Printable dur
    | .stop => True

private def Sound (s : SectionRunner.State Sec) : Prop :=
  (∀ run ∈ s.data.data.queue, Printable run.dur) ∧
    (s.phase = .panicked → CDuration.maxNanos < s.data.clock.nanos)

private theorem sound_pass {s : SectionRunner.State Sec} {exit : Monitor.Exit} {next : World Sec}
    {after : Thread Sec} (sound : Sound s)
    (ran : SectionRunner.body chrono initLog s.data s.thread exit next after) :
    Sound ⟨exit.phase,next,after⟩ := by
  obtain ⟨now,_,rfl,rfl,rfl⟩ := ran
  unfold Sound
  rw [World.performs_data,World.performs_clock]
  constructor
  · intro run member
    apply sound.1 run
    have outcome := SectionRunner.loopBody_outcome chrono initLog now s.data.data s.thread
    generalize loopBody chrono initLog now s.data.data s.thread = pass at outcome member
    cases outcome with
    | failed | left | finished | continued | rested => exact member
    | dropped other queue going free front | started other queue going free front =>
      rw [front]
      exact List.mem_cons_of_mem other member
    | interrupted => cases member
  · intro panicked
    have exits : (loopBody chrono initLog now s.data.data s.thread).exit = .panic := by
      dsimp only at panicked
      cases exit : (loopBody chrono initLog now s.data.data s.thread).exit <;>
        rw [exit] at panicked <;> cases panicked
    rcases loopBody_panics chrono exits with ⟨run,member,unprintable⟩ | ⟨run,_,unprintable⟩
    · exact absurd (sound.1 run member) unprintable
    · simp only [Printable,Instant.elapsed] at unprintable
      dsimp only
      omega

/-- In a run whose sections all run for printable durations the runner's thread does not panic
before the clock itself has come to what chrono cannot express. -/
theorem never_panics_on_printable (start : Instant) (s : SectionRunner.State Sec)
    (run : Runs (SectionRunner.runner chrono initLog) PrintableRuns (SectionRunner.startNew start) s)
    (early : (s.data.clock.nanos : Int) ≤ CDuration.maxNanos) : s.phase ≠ .panicked := by
  have sound : Sound s := by
    apply run.invariant Sound
    · constructor
      · intro run member
        cases member
      · intro panicked
        cases panicked
    · intro before label after held step ruled
      cases step with
      | update op data free updated =>
        have allowed := ruled op rfl
        cases op with
        | runSection sec dur =>
          cases updated
          refine ⟨?_,fun panicked => held.2 ((Monitor.Phase.notify_eq_panicked _).mp panicked)⟩
          intro run member
          rcases List.mem_append.mp member with old | new
          · exact held.1 run old
          · rw [List.mem_singleton.mp new]
            exact allowed
        | stop =>
          obtain ⟨_,rfl⟩ := updated
          exact ⟨held.1,fun panicked => held.2 ((Monitor.Phase.notify_eq_panicked _).mp panicked)⟩
      | outside data changed =>
        cases changed <;> exact held
      | sleep top sleeps => exact ⟨held.1,fun panicked => by cases panicked⟩
      | pass exit data thread awake ran => exact sound_pass chrono held ran
      | release holding => exact ⟨held.1,fun panicked => by cases panicked⟩
  intro panicked
  have late := sound.2 panicked
  omega

end Runner
end Rinklers
