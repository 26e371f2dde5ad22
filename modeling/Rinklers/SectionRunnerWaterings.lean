import Rinklers.SectionRunnerTrace
import Rinklers.Foundation.Timeline

/-! The valves on the line of time: the thread waters for one run after the other, in the order in
which they have been queued, and for each as long as it has been asked to, or until it stops. -/
namespace Rinklers.SectionRunner
open Foundation
open Foundation.Monitor (Step Reachable)

variable {Sec : Type}

structure Switch (Sec : Type) where
  time : Instant
  sec : Sec
  state : Bool
deriving DecidableEq, Repr

def Event.switch? : Event Sec → Option (Switch Sec)
  | .performed time (.setState sec state) => some ⟨time,sec,state⟩
  | .performed _ (.send _ _) | .pushed _ => none

def switches (trace : List (Event Sec)) : List (Switch Sec) := trace.filterMap Event.switch?

abbrev Watered (Sec : Type) := Period (SecRun Sec) Instant

def Watered.switches (watered : Watered Sec) : List (Switch Sec) :=
  [⟨watered.since,watered.task.sec,true⟩,⟨watered.till,watered.task.sec,false⟩]

def Watered.length (watered : Watered Sec) : Nat := watered.till.nanos - watered.since.nanos

def Run.switches (run : Run Sec) : List (Switch Sec) := [⟨run.startTime,run.sec,true⟩]

def Run.secRun (run : Run Sec) : SecRun Sec := ⟨run.sec,run.dur,run.notify⟩

/-- Since when the thread has been doing what it does: the start of the run in progress, or now. -/
def sinceOf (now : Instant) : Option (Run Sec) → Instant
  | some run => run.startTime
  | none => now

/-- The thread has watered for the `whole` of these runs and, when it was told to stop, `cut` one
short; the run in progress comes next, and the `rest` is in the queue as long as it lives. -/
structure Waterings (clock : Instant) (s : State Sec) (whole cut : List (Watered Sec))
    (rest : List (SecRun Sec)) : Prop where
  pushed : pushes s.data.trace = (whole ++ cut).map Period.task ++
    s.thread.currentRun.toList.map Run.secRun ++ rest
  queued : s.phase ≠ .returned → s.phase ≠ .panicked → s.data.data.queue = rest
  switched : switches s.data.trace = (whole ++ cut).flatMap Watered.switches ++
    s.thread.currentRun.toList.flatMap Run.switches
  line : Timeline Instant.nanos clock (whole ++ cut) (sinceOf s.data.clock s.thread.currentRun)
  current : sinceOf s.data.clock s.thread.currentRun ≤ s.data.clock
  long : ∀ watered ∈ whole, watered.task.dur.nanos ≤ watered.length
  short : cut = [] ∨ (∃ watered, cut = [watered]) ∧ s.phase = .returned

theorem switches_append (first second : List (Event Sec)) :
    switches (first ++ second) = switches first ++ switches second := by
  simp only [switches,List.filterMap_append]

theorem switches_interrupted (now : Instant) (sec : Sec) (notify : Sender)
    (queue : List (SecRun Sec)) :
    switches ((Effect.setState sec false :: .send notify .interrupted ::
      queue.map (fun run => .send run.notificationSender .interrupted)).map (.performed now)) =
      [⟨now,sec,false⟩] := by
  have sends : switches ((queue.map (fun run =>
      (.send run.notificationSender .interrupted : Effect Sec))).map (.performed now)) = [] := by
    simp [switches,Event.switch?]
  exact congrArg (⟨now,sec,false⟩ :: ·) sends

theorem waterings_new (clock : Instant) :
    Waterings clock (startNew clock : State Sec) [] [] [] where
  pushed := rfl
  queued _ _ := rfl
  switched := rfl
  line := .start
  current := Nat.le_refl _
  long watered member := by cases member
  short := .inl rfl

/-- Time goes by, with the same run in progress or with none. -/
private theorem Waterings.later {clock now : Instant} {s : State Sec}
    {whole cut : List (Watered Sec)} {rest : List (SecRun Sec)}
    (waterings : Waterings clock s whole cut rest) (later : s.data.clock ≤ now) :
    Timeline Instant.nanos clock (whole ++ cut) (sinceOf now s.thread.currentRun) ∧
      sinceOf now s.thread.currentRun ≤ now := by
  have line := waterings.line
  have started := waterings.current
  cases running : s.thread.currentRun with
  | some run =>
    rw [running] at line started
    exact ⟨line,Nat.le_trans started later⟩
  | none =>
    rw [running] at line
    exact ⟨line.rest now later,Nat.le_refl _⟩

/-- A step that does nothing to the valves and leaves the thread as it is; it may queue a run. -/
private theorem Waterings.keep {clock : Instant} {s next : State Sec}
    {whole cut : List (Watered Sec)} {rest : List (SecRun Sec)}
    (waterings : Waterings clock s whole cut rest) (more : List (SecRun Sec))
    (pushed : pushes next.data.trace = pushes s.data.trace ++ more)
    (queue : next.data.data.queue = s.data.data.queue ++ more)
    (switched : switches next.data.trace = switches s.data.trace)
    (clocks : next.data.clock = s.data.clock) (thread : next.thread = s.thread)
    (going : next.phase = .returned ↔ s.phase = .returned)
    (sane : next.phase = .panicked ↔ s.phase = .panicked) :
    Waterings clock next whole cut (rest ++ more) where
  pushed := by rw [pushed,waterings.pushed,thread,List.append_assoc]
  queued alive living := by
    rw [queue,waterings.queued (mt going.mpr alive) (mt sane.mpr living)]
  switched := by rw [switched,waterings.switched,thread]
  line := by
    rw [thread,clocks]
    exact waterings.line
  current := by
    rw [thread,clocks]
    exact waterings.current
  long := waterings.long
  short := waterings.short.imp id fun short => ⟨short.1,going.mpr short.2⟩

private theorem Waterings.none_cut {clock : Instant} {s : State Sec}
    {whole cut : List (Watered Sec)} {rest : List (SecRun Sec)}
    (waterings : Waterings clock s whole cut rest) (alive : s.phase ≠ .returned) : cut = [] := by
  rcases waterings.short with none | ⟨_,returned⟩
  · exact none
  · exact absurd returned alive

variable [DecidableEq Sec] {chrono : CDuration} {log : LogLevelFilter}

private theorem exit_next {exit : Monitor.Exit} (alive : exit.phase ≠ .returned)
    (sane : exit.phase ≠ .panicked) : exit = .next := by
  cases exit with
  | next => rfl
  | done => exact absurd rfl alive
  | panic => exact absurd rfl sane

/-- What an iteration has to say for itself: the trace before it and its own effects. -/
private theorem waterings_of_pass {clock : Instant} {s : State Sec} {now : Instant}
    {pass : Pass Sec} {whole cut : List (Watered Sec)} {rest : List (SecRun Sec)}
    (pushed : pushes s.data.trace = (whole ++ cut).map Period.task ++
      pass.thread.currentRun.toList.map Run.secRun ++ rest)
    (queued : pass.exit = .next → pass.data.queue = rest)
    (switched : switches s.data.trace ++ switches (pass.effects.map (.performed now)) =
      (whole ++ cut).flatMap Watered.switches ++ pass.thread.currentRun.toList.flatMap Run.switches)
    (line : Timeline Instant.nanos clock (whole ++ cut) (sinceOf now pass.thread.currentRun))
    (current : sinceOf now pass.thread.currentRun ≤ now)
    (long : ∀ watered ∈ whole, watered.task.dur.nanos ≤ watered.length)
    (short : cut = [] ∨ (∃ watered, cut = [watered]) ∧ pass.exit = .done) :
    Waterings clock (⟨pass.exit.phase,
      pass.effects.foldl (World.perform now) {s.data with data := pass.data, clock := now},
      pass.thread⟩ : State Sec) whole cut rest := by
  refine ⟨?_,?_,?_,?_,?_,long,?_⟩
  · rw [World.performs_trace,pushes_append,pushes_performed,List.append_nil]
    exact pushed
  · intro living sane
    rw [World.performs_data]
    exact queued (exit_next living sane)
  · rw [World.performs_trace,switches_append]
    exact switched
  · rw [World.performs_clock]
    exact line
  · rw [World.performs_clock]
    exact current
  · refine short.imp id fun ended => ⟨ended.1,?_⟩
    rw [ended.2]
    rfl

private theorem Waterings.still {clock : Instant} {s : State Sec} {whole cut : List (Watered Sec)}
    {rest : List (SecRun Sec)} (waterings : Waterings clock s whole cut rest)
    (going : s.phase ≠ .returned) {now : Instant} (later : s.data.clock ≤ now) {pass : Pass Sec}
    (silent : pass.effects = []) (queue : pass.exit = .next → pass.data.queue = rest)
    (current : pass.thread.currentRun = s.thread.currentRun) :
    Waterings clock (⟨pass.exit.phase,
      pass.effects.foldl (World.perform now) {s.data with data := pass.data, clock := now},
      pass.thread⟩ : State Sec) whole cut rest := by
  have after := waterings.later later
  apply waterings_of_pass
  · rw [current]
    exact waterings.pushed
  · exact queue
  · rw [silent,current]
    exact (List.append_nil _).trans waterings.switched
  · rw [current]
    exact after.1
  · rw [current]
    exact after.2
  · exact waterings.long
  · exact .inl (waterings.none_cut going)

private theorem waterings_pass {clock : Instant} {s : State Sec} {whole cut : List (Watered Sec)}
    {rest : List (SecRun Sec)} (waterings : Waterings clock s whole cut rest)
    (going : s.phase ≠ .returned) (alive : s.data.data.queue = rest) {now : Instant}
    (later : s.data.clock ≤ now) {pass : Pass Sec}
    (outcome : Outcome now s.data.data s.thread pass) :
    ∃ done short left, Waterings clock (⟨pass.exit.phase,
      pass.effects.foldl (World.perform now) {s.data with data := pass.data, clock := now},
      pass.thread⟩ : State Sec) done short left := by
  have still (silent : pass.effects = []) (queue : pass.exit = .next → pass.data.queue = rest)
      (current : pass.thread.currentRun = s.thread.currentRun) :
      ∃ done short left, Waterings clock _ done short left :=
    ⟨whole,cut,rest,waterings.still going later silent queue current⟩
  have none := waterings.none_cut going
  subst none
  have line := waterings.line
  have started := waterings.current
  have switched := waterings.switched
  have pushed := waterings.pushed
  cases outcome with
  | failed => exact still rfl (fun impossible => by cases impossible) rfl
  | dropped run queue quit free front =>
    exact still rfl (fun impossible => by cases impossible) rfl
  | left quit free => exact still rfl (fun impossible => by cases impossible) rfl
  | continued run quit running early => exact still rfl (fun _ => alive) running.symm
  | rested quit free empty => exact still rfl (fun _ => alive) free.symm
  | interrupted run quit running =>
    rw [running] at line started switched pushed
    have forward : run.startTime ≤ now := Nat.le_trans started later
    refine ⟨whole,[⟨run.secRun,run.startTime,now⟩],rest,waterings_of_pass ?_ ?_ ?_ ?_ ?_ ?_ ?_⟩
    · simpa using pushed
    · exact fun impossible => by cases impossible
    · rw [switches_interrupted,switched]
      simp [Watered.switches,Run.switches,Run.secRun]
    · exact (List.append_nil whole ▸ line).work run.secRun now forward
    · exact Nat.le_refl _
    · exact waterings.long
    · exact .inr ⟨⟨_,rfl⟩,rfl⟩
  | finished run quit running due =>
    rw [running] at line started switched pushed
    have forward : run.startTime ≤ now := Nat.le_trans started later
    refine ⟨whole ++ [⟨run.secRun,run.startTime,now⟩],[],rest,
      waterings_of_pass ?_ ?_ ?_ ?_ ?_ ?_ (.inl rfl)⟩
    · simpa using pushed
    · exact fun _ => alive
    · rw [switched]
      simp [switches,Event.switch?,Watered.switches,Run.switches,Run.secRun]
    · rw [List.append_nil]
      exact (List.append_nil whole ▸ line).work run.secRun now forward
    · exact Nat.le_refl _
    · intro watered member
      rcases List.mem_append.mp member with old | new
      · exact waterings.long watered old
      · cases List.mem_singleton.mp new
        exact due
  | started run queue quit free front =>
    rw [free] at line started switched pushed
    rw [front] at alive
    subst alive
    refine ⟨whole,[],queue,waterings_of_pass ?_ ?_ ?_ ?_ ?_ ?_ (.inl rfl)⟩
    · simpa [Run.secRun] using pushed
    · exact fun _ => rfl
    · rw [switched]
      simp [switches,Event.switch?,Run.switches]
    · exact line.rest now later
    · exact Nat.le_refl _
    · exact waterings.long

theorem waterings_step {clock : Instant} {s next : State Sec} {label : Monitor.Label (Op Sec)}
    {whole cut : List (Watered Sec)} {rest : List (SecRun Sec)}
    (waterings : Waterings clock s whole cut rest)
    (step : Step (runner chrono log) s label next) :
    ∃ done short left, Waterings clock next done short left := by
  cases step with
  | update op data free updated =>
    have returned := Monitor.Phase.notify_eq_returned s.phase
    have panicked := Monitor.Phase.notify_eq_panicked s.phase
    cases op with
    | runSection sec dur =>
      cases updated
      refine ⟨whole,cut,_,waterings.keep [⟨sec,dur,s.data.channels⟩] ?_ rfl ?_ rfl rfl
        returned panicked⟩
      · exact pushes_runSection s.data sec dur
      · exact (switches_append _ _).trans (List.append_nil _)
    | stop =>
      obtain ⟨_,rfl⟩ := updated
      refine ⟨whole,cut,_,waterings.keep [] ?_ ?_ rfl rfl rfl returned panicked⟩ <;>
        exact (List.append_nil _).symm
  | outside data changed =>
    cases changed <;>
      exact ⟨whole,cut,_,waterings.keep [] (List.append_nil _).symm (List.append_nil _).symm rfl
        rfl rfl Iff.rfl Iff.rfl⟩
  | sleep top sleeps =>
    refine ⟨whole,cut,_,waterings.keep [] (List.append_nil _).symm (List.append_nil _).symm rfl
      rfl rfl ?_ ?_⟩ <;> simp [top]
  | release holding =>
    refine ⟨whole,cut,_,waterings.keep [] (List.append_nil _).symm (List.append_nil _).symm rfl
      rfl rfl ?_ ?_⟩ <;> simp [holding]
  | pass exit data thread awake ran =>
    obtain ⟨now,pass,later,outcome,rfl,rfl,rfl⟩ := body_outcome ran
    have living : s.phase ≠ .returned ∧ s.phase ≠ .panicked := by
      rcases awake with ⟨top,_⟩ | ⟨notified,waiting⟩ <;> simp [*]
    exact waterings_pass waterings living.1 (waterings.queued living.1 living.2) later outcome

theorem waterings_reachable {clock : Instant} {s : State Sec}
    (reached : Reachable (runner chrono log) (startNew clock) s) :
    ∃ whole cut rest, Waterings clock s whole cut rest := by
  apply reached.invariant (fun s => ∃ whole cut rest, Waterings clock s whole cut rest)
  · exact ⟨[],[],[],waterings_new clock⟩
  rintro before label after ⟨whole,cut,rest,waterings⟩ step
  exact waterings_step waterings step

/-- The log of the valves: the `whole` waterings, the one that was `cut` short when the thread was
told to stop, and the one in progress, one after the other, as the runs have been queued. -/
structure InTurn (clock : Instant) (s : State Sec) (whole cut : List (Watered Sec))
    (rest : List (SecRun Sec)) : Prop where
  switched : switches s.data.trace = (whole ++ cut).flatMap Watered.switches ++
    s.thread.currentRun.toList.flatMap Run.switches
  pushed : pushes s.data.trace = (whole ++ cut).map Period.task ++
    s.thread.currentRun.toList.map Run.secRun ++ rest
  apart : (whole ++ cut).Pairwise (fun earlier later => earlier.till ≤ later.since)
  current : ∀ run, s.thread.currentRun = some run →
    ∀ watered ∈ whole ++ cut, watered.till ≤ run.startTime
  long : ∀ watered ∈ whole, watered.since.nanos + watered.task.dur.nanos ≤ watered.till.nanos
  short : cut = [] ∨ (∃ watered, cut = [watered]) ∧ s.phase = .returned
  within : clock.nanos + ((whole ++ cut).map Watered.length).sum ≤ s.data.clock.nanos

omit [DecidableEq Sec] in
theorem Waterings.inTurn {clock : Instant} {s : State Sec} {whole cut : List (Watered Sec)}
    {rest : List (SecRun Sec)} (waterings : Waterings clock s whole cut rest) :
    InTurn clock s whole cut rest := by
  have forward := waterings.line.forward
  refine ⟨waterings.switched,waterings.pushed,waterings.line.ordered,?_,?_,waterings.short,?_⟩
  · intro run running
    have earlier := waterings.line.till_le
    rw [running] at earlier
    exact earlier
  · intro watered member
    have asked := waterings.long watered member
    have ahead := forward watered (List.mem_append_left _ member)
    simp only [Watered.length] at asked
    omega
  · have budget := waterings.line.budget Watered.length fun watered member =>
      (Nat.add_sub_of_le (forward watered member)).le
    exact budget.trans waterings.current

/-- Valves are switched for one run at a time, in the order of the queue, and each run gets its
duration in full unless it is the last one before the thread returns: what has been watered fits in
the time that has gone by. -/
theorem watered_in_turn (clock : Instant) {s : State Sec}
    (reached : Reachable (runner chrono log) (startNew clock) s) :
    ∃ whole cut rest, InTurn clock s whole cut rest := by
  obtain ⟨whole,cut,rest,waterings⟩ := waterings_reachable reached
  exact ⟨whole,cut,rest,waterings.inTurn⟩

private def stoppedInTheSecond : List (Move Nat) :=
  [.sleep,.runSection 7 (forSeconds 5),.runSection 8 (forSeconds 6),.pass (atSecond 1),.release,
    .sleep,.pass (atSecond 6),.release,.pass (atSecond 7),.release,.stop,.sleep,.pass (atSecond 9)]

theorem watered_in_turn_twice : ∃ s : State Nat, s.phase = .returned ∧
    switches s.data.trace = [⟨atSecond 1,7,true⟩,⟨atSecond 6,7,false⟩,⟨atSecond 7,8,true⟩,
      ⟨atSecond 9,8,false⟩] ∧ ∃ whole cut rest, InTurn (atSecond 0) s whole cut rest := by
  have reached := byHand_reachable stoppedInTheSecond (by decide)
  exact ⟨_,by decide,by decide,watered_in_turn (atSecond 0) reached⟩

end Rinklers.SectionRunner
