import Rinklers.SectionRunner
import Rinklers.ChronoModel
import Rinklers.Foundation.Service

/-! The trace of the section runner is the history of a first-in first-out server.
The ledger of that server is carried along every run: what has been pushed are its jobs, what
has been sent are its notices, and each step of the program is a step of the server or none. -/
namespace Rinklers.SectionRunner
open Foundation Foundation.Service
open Foundation.Monitor (Step Reachable Awake)

section Trace
variable {Sec : Type}

def pushes (trace : List (Event Sec)) : List (SecRun Sec) :=
  trace.filterMap fun
    | .pushed run => some run
    | .performed _ _ => none

def RunNotification.signal : RunNotification → Signal
  | .start => .start
  | .finish => .finish
  | .interrupted => .interrupted

def Event.notice : Event Sec → Option (Notice Sender Instant)
  | .performed time (.send sender notification) => some ⟨time,sender,notification.signal⟩
  | .performed _ (.setState _ _) | .pushed _ => none

def notices (trace : List (Event Sec)) : List (Notice Sender Instant) :=
  trace.filterMap Event.notice

theorem pushes_append (first second : List (Event Sec)) :
    pushes (first ++ second) = pushes first ++ pushes second := by
  simp only [pushes,List.filterMap_append]

theorem notices_append (first second : List (Event Sec)) :
    notices (first ++ second) = notices first ++ notices second := by
  simp only [notices,List.filterMap_append]

theorem pushes_performed (now : Instant) (effects : List (Effect Sec)) :
    pushes (effects.map (Event.performed now)) = [] := by
  simp [pushes,List.filterMap_map]

theorem pushes_runSection (w : World Sec) (sec : Sec) (dur : Duration) :
    pushes (w.runSection sec dur).trace = pushes w.trace ++ [⟨sec,dur,w.channels⟩] :=
  pushes_append _ _

theorem notices_runSection (w : World Sec) (sec : Sec) (dur : Duration) :
    notices (w.runSection sec dur).trace = notices w.trace :=
  (notices_append _ _).trans (List.append_nil _)

theorem notices_interrupted (now : Instant) (sec : Sec) (notify : Sender)
    (queue : List (SecRun Sec)) :
    notices ((Effect.setState sec false :: .send notify .interrupted ::
      queue.map (fun run => .send run.notificationSender .interrupted)).map (.performed now)) =
      ⟨now,notify,.interrupted⟩ ::
        (queue.map SecRun.notificationSender).map (fun sender => ⟨now,sender,.interrupted⟩) := by
  have drained : notices ((queue.map (fun run =>
      (.send run.notificationSender .interrupted : Effect Sec))).map (.performed now)) =
      (queue.map SecRun.notificationSender).map (fun sender => ⟨now,sender,.interrupted⟩) := by
    induction queue with
    | nil => rfl
    | cons run rest ih =>
      simp only [notices,List.map_cons,List.filterMap_cons] at ih ⊢
      rw [ih]
      rfl
  simp only [notices,List.map_cons,List.filterMap_cons] at drained ⊢
  rw [drained]
  rfl

end Trace

section Books
variable {Sec : Type}

def tailOf : Option (Run Sec) → Tail Sender Instant
  | some run => .busy run.notify run.startTime
  | none => .idle

def Known (trace : List (Event Sec)) (sender : Sender) (dur : Duration) : Prop :=
  ∃ run ∈ pushes trace, run.notificationSender = sender ∧ run.dur = dur

/-- The ledger says what the trace says, and its last job is the run in progress as long as the
thread lives. -/
structure Books (s : State Sec) (ledger : Ledger Sender Instant) : Prop where
  pushed : (pushes s.data.trace).map SecRun.notificationSender = ledger.jobs
  sent : notices s.data.trace = ledger.notices
  fresh : ledger.jobs = List.range s.data.channels
  queued : s.data.data.queue.map SecRun.notificationSender = ledger.pending
  pushedQueue : ∀ run ∈ s.data.data.queue, run ∈ pushes s.data.trace
  tail : s.phase ≠ .returned → s.phase ≠ .panicked → ledger.tail = tailOf s.thread.currentRun
  ended : s.phase = .returned → ledger.tail.Ended
  current : ∀ run, s.thread.currentRun = some run →
    run.startTime ≤ s.data.clock ∧ Known s.data.trace run.notify run.dur
  due : ∀ served ∈ ledger.served, ∃ dur, Known s.data.trace served.job dur ∧
    served.since.nanos + dur.nanos ≤ served.till.nanos

theorem books_new (clock : Instant) : Books (startNew clock : State Sec) Ledger.empty where
  pushed := rfl
  sent := rfl
  fresh := rfl
  queued := rfl
  pushedQueue := by simp [startNew,World.new,RunnerData.new]
  tail _ _ := rfl
  ended returned := by cases returned
  current run running := by cases running
  due served member := by cases member

theorem Books.distinct {s : State Sec} {ledger : Ledger Sender Instant} (books : Books s ledger) :
    ledger.jobs.Nodup := by
  rw [books.fresh]
  exact List.nodup_range

theorem Known.append {trace : List (Event Sec)} {sender : Sender} {dur : Duration}
    (known : Known trace sender dur) (more : List (Event Sec)) :
    Known (trace ++ more) sender dur := by
  obtain ⟨run,member,same⟩ := known
  exact ⟨run,by rw [pushes_append]; exact List.mem_append_left _ member,same⟩

private theorem books_runSection {s : State Sec} {ledger : Ledger Sender Instant}
    (books : Books s ledger) (sec : Sec) (dur : Duration) :
    Books ⟨s.phase.notify,s.data.runSection sec dur,s.thread⟩
      {ledger with pending := ledger.pending ++ [s.data.channels]} := by
  have jobs : Ledger.jobs {ledger with pending := ledger.pending ++ [s.data.channels]} =
      ledger.jobs ++ [s.data.channels] := by
    obtain ⟨served,tail,pending⟩ := ledger
    simp only [Ledger.jobs_eq,List.append_assoc]
  refine ⟨?_,?_,?_,?_,?_,?_,?_,?_,?_⟩
  · rw [jobs,pushes_runSection,List.map_append,books.pushed]
    rfl
  · rw [notices_runSection,books.sent]
    exact ((Ledger.step_notices (.submit ledger s.data.channels)).trans (List.append_nil _)).symm
  · rw [jobs,books.fresh]
    exact List.range_succ.symm
  · change (s.data.data.queue ++ [_]).map SecRun.notificationSender = _
    rw [List.map_append,books.queued]
    rfl
  · intro run member
    rw [pushes_runSection]
    rcases List.mem_append.mp member with old | new
    · exact List.mem_append_left _ (books.pushedQueue run old)
    · exact List.mem_append_right _ new
  · intro alive sane
    exact books.tail (mt (Monitor.Phase.notify_eq_returned _).mpr alive)
      (mt (Monitor.Phase.notify_eq_panicked _).mpr sane)
  · intro returned
    exact books.ended ((Monitor.Phase.notify_eq_returned _).mp returned)
  · intro run running
    have before := books.current run running
    exact ⟨before.1,before.2.append _⟩
  · intro served member
    obtain ⟨dur,known,late⟩ := books.due served member
    exact ⟨dur,known.append _,late⟩

private theorem Books.carry {s next : State Sec} {ledger : Ledger Sender Instant}
    (books : Books s ledger) (trace : next.data.trace = s.data.trace)
    (channels : next.data.channels = s.data.channels) (clock : next.data.clock = s.data.clock)
    (queue : next.data.data.queue = s.data.data.queue) (thread : next.thread = s.thread)
    (alive : next.phase ≠ .returned → next.phase ≠ .panicked →
      s.phase ≠ .returned ∧ s.phase ≠ .panicked)
    (ended : next.phase = .returned → s.phase = .returned) : Books next ledger where
  pushed := by rw [trace]; exact books.pushed
  sent := by rw [trace]; exact books.sent
  fresh := by rw [channels]; exact books.fresh
  queued := by rw [queue]; exact books.queued
  pushedQueue := by rw [queue,trace]; exact books.pushedQueue
  tail awake sane := by
    rw [thread]
    obtain ⟨returned,panicked⟩ := alive awake sane
    exact books.tail returned panicked
  ended returned := books.ended (ended returned)
  current := by rw [thread,clock,trace]; exact books.current
  due := by rw [trace]; exact books.due

variable [DecidableEq Sec]

private theorem books_pass {s : State Sec} {ledger after : Ledger Sender Instant}
    (books : Books s ledger) (now : Instant) (pass : Pass Sec)
    (jobs : after.jobs = ledger.jobs)
    (sent : after.notices = ledger.notices ++ notices (pass.effects.map (.performed now)))
    (queued : pass.data.queue.map SecRun.notificationSender = after.pending)
    (shorter : ∀ run ∈ pass.data.queue, run ∈ s.data.data.queue)
    (tail : pass.exit = .next → after.tail = tailOf pass.thread.currentRun)
    (ended : pass.exit = .done → after.tail.Ended)
    (current : ∀ run, pass.thread.currentRun = some run →
      run.startTime ≤ now ∧ Known s.data.trace run.notify run.dur)
    (due : ∀ served ∈ after.served, ∃ dur, Known s.data.trace served.job dur ∧
      served.since.nanos + dur.nanos ≤ served.till.nanos) :
    Books ⟨pass.exit.phase,
      pass.effects.foldl (World.perform now) {s.data with data := pass.data, clock := now},
      pass.thread⟩ after := by
  refine ⟨?_,?_,?_,?_,?_,?_,?_,?_,?_⟩
  · rw [World.performs_trace,pushes_append,pushes_performed,List.append_nil,jobs]
    exact books.pushed
  · rw [World.performs_trace,notices_append,sent,← books.sent]
  · rw [World.performs_channels,jobs]
    exact books.fresh
  · rw [World.performs_data]
    exact queued
  · rw [World.performs_data,World.performs_trace,pushes_append]
    intro run member
    exact List.mem_append_left _ (books.pushedQueue run (shorter run member))
  · intro alive sane
    cases exit : pass.exit with
    | next => exact tail exit
    | done => simp [exit,Monitor.Exit.phase] at alive
    | panic => simp [exit,Monitor.Exit.phase] at sane
  · intro returned
    cases exit : pass.exit with
    | next => simp [exit,Monitor.Exit.phase] at returned
    | done => exact ended exit
    | panic => simp [exit,Monitor.Exit.phase] at returned
  · rw [World.performs_clock,World.performs_trace]
    intro run running
    have kept := current run running
    exact ⟨kept.1,kept.2.append _⟩
  · rw [World.performs_trace]
    intro served member
    obtain ⟨dur,known,late⟩ := due served member
    exact ⟨dur,known.append _,late⟩

private theorem books_still {s : State Sec} {ledger : Ledger Sender Instant}
    (books : Books s ledger) (alive : ledger.tail = tailOf s.thread.currentRun) (now : Instant)
    (later : s.data.clock ≤ now) (pass : Pass Sec) (silent : pass.effects = [])
    (queue : pass.data.queue = s.data.data.queue)
    (run : pass.thread.currentRun = s.thread.currentRun)
    (ended : pass.exit = .done → ledger.tail.Ended) :
    Books ⟨pass.exit.phase,
      pass.effects.foldl (World.perform now) {s.data with data := pass.data, clock := now},
      pass.thread⟩ ledger := by
  apply books_pass books now pass rfl
  · rw [silent]
    exact (List.append_nil _).symm
  · rw [queue]
    exact books.queued
  · rw [queue]
    exact fun _ member => member
  · intro _
    rw [alive,run]
  · exact ended
  · rw [run]
    intro current running
    obtain ⟨started,known⟩ := books.current current running
    exact ⟨Nat.le_trans started later,known⟩
  · exact books.due

def Moves (ledger : Ledger Sender Instant) (sent : List (Notice Sender Instant))
    (after : Ledger Sender Instant) : Prop :=
  (sent = [] ∧ after = ledger) ∨ Ledger.Step ledger sent after

private theorem books_outcome {s : State Sec} {served : List (Served Sender Instant)}
    {tail : Tail Sender Instant} {pending : List Sender} (books : Books s ⟨served,tail,pending⟩)
    (alive : tail = tailOf s.thread.currentRun) (now : Instant) (later : s.data.clock ≤ now)
    (pass : Pass Sec) (outcome : Outcome now s.data.data s.thread pass) :
    ∃ sent after, Moves ⟨served,tail,pending⟩ sent after ∧
      Books ⟨pass.exit.phase,
        pass.effects.foldl (World.perform now) {s.data with data := pass.data, clock := now},
        pass.thread⟩ after := by
  have queued := books.queued
  have current : ∀ run, s.thread.currentRun = some run →
      run.startTime ≤ now ∧ Known s.data.trace run.notify run.dur := fun run running =>
    ⟨Nat.le_trans (books.current run running).1 later,(books.current run running).2⟩
  cases outcome with
  | failed =>
    refine ⟨[],_,Or.inl ⟨rfl,rfl⟩,books_still books alive now later _ rfl rfl rfl ?_⟩
    exact fun impossible => by cases impossible
  | dropped run queue going free front =>
    rw [free] at alive
    subst alive
    rw [front] at queued
    cases queued
    refine ⟨[],_,Or.inr (.lose _ _ _),books_pass books now _ ?_ ?_ rfl ?_ ?_ ?_ current books.due⟩
    · simp [Ledger.jobs_eq,Tail.records,tailOf]
    · exact Ledger.step_notices (.lose _ _ _)
    · intro other member
      rw [front]
      exact List.mem_cons_of_mem _ member
    · exact fun impossible => by cases impossible
    · exact fun impossible => by cases impossible
  | interrupted run quit running =>
    rw [running] at alive
    subst alive
    cases queued
    refine ⟨_,_,Or.inr (.close _ _ _ _ now),
      books_pass books now _ ?_ ?_ rfl ?_ ?_ ?_ ?_ books.due⟩
    · simp [Ledger.jobs_eq,Tail.records,tailOf,Function.comp_def]
    · rw [Ledger.step_notices (.close _ _ _ _ now),notices_interrupted]
      rfl
    · exact fun _ member => by cases member
    · exact fun impossible => by cases impossible
    · exact fun _ => trivial
    · exact fun _ impossible => by cases impossible
  | left quit free =>
    refine ⟨[],_,Or.inl ⟨rfl,rfl⟩,books_still books alive now later _ rfl rfl rfl ?_⟩
    intro _
    rw [alive,free]
    trivial
  | finished run going running due =>
    rw [running] at alive
    subst alive
    obtain ⟨started,known⟩ := current run running
    refine ⟨_,_,Or.inr (.finish _ _ _ _ now),
      books_pass books now _ ?_ ?_ queued ?_ ?_ ?_ ?_ ?_⟩
    · simp [Ledger.jobs_eq,Tail.records,tailOf]
    · exact Ledger.step_notices (.finish _ _ _ _ now)
    · exact fun _ member => member
    · exact fun _ => rfl
    · exact fun impossible => by cases impossible
    · exact fun _ impossible => by cases impossible
    · intro entry member
      rcases List.mem_append.mp member with old | new
      · exact books.due entry old
      · cases List.mem_singleton.mp new
        refine ⟨run.dur,known,?_⟩
        -- The clock has not gone back since the start, so what has elapsed is a true difference.
        simp only [Duration.le_def,Instant.elapsed,Instant.le_def] at due started
        change run.startTime.nanos + run.dur.nanos ≤ now.nanos
        omega
  | continued run going running early =>
    refine ⟨[],_,Or.inl ⟨rfl,rfl⟩,books_still books alive now later _ rfl rfl running.symm ?_⟩
    exact fun impossible => by cases impossible
  | started run queue going free front =>
    rw [free] at alive
    subst alive
    rw [front] at queued
    cases queued
    have pushed := books.pushedQueue run (by rw [front]; exact List.mem_cons_self)
    refine ⟨_,_,Or.inr (.start _ _ _ now),books_pass books now _ ?_ ?_ rfl ?_ ?_ ?_ ?_ books.due⟩
    · simp [Ledger.jobs_eq,Tail.records,tailOf]
    · exact Ledger.step_notices (.start _ _ _ now)
    · intro other member
      rw [front]
      exact List.mem_cons_of_mem _ member
    · exact fun _ => rfl
    · exact fun impossible => by cases impossible
    · intro other same
      cases same
      exact ⟨Nat.le_refl _,run,pushed,rfl,rfl⟩
  | rested going free empty =>
    refine ⟨[],_,Or.inl ⟨rfl,rfl⟩,books_still books alive now later _ rfl rfl free.symm ?_⟩
    exact fun impossible => by cases impossible

variable (chrono : CDuration) (log : LogLevelFilter)

/-- Every step of the program is a step of the server that the ledger describes, or none. -/
theorem books_step {s next : State Sec} {ledger : Ledger Sender Instant}
    {label : Monitor.Label (Op Sec)} (books : Books s ledger)
    (step : Step (runner chrono log) s label next) :
    ∃ sent after, Moves ledger sent after ∧ Books next after := by
  cases step with
  | update op data free updated =>
    cases op with
    | runSection sec dur =>
      cases updated
      exact ⟨[],_,Or.inr (.submit _ _),books_runSection books sec dur⟩
    | stop =>
      obtain ⟨_,rfl⟩ := updated
      refine ⟨[],ledger,Or.inl ⟨rfl,rfl⟩,books.carry rfl rfl rfl rfl rfl ?_ ?_⟩
      · intro alive sane
        exact ⟨mt (Monitor.Phase.notify_eq_returned _).mpr alive,
          mt (Monitor.Phase.notify_eq_panicked _).mpr sane⟩
      · exact (Monitor.Phase.notify_eq_returned _).mp
  | outside data changed =>
    refine ⟨[],ledger,Or.inl ⟨rfl,rfl⟩,?_⟩
    cases changed <;> exact books.carry rfl rfl rfl rfl rfl And.intro id
  | sleep top sleeps =>
    refine ⟨[],ledger,Or.inl ⟨rfl,rfl⟩,books.carry rfl rfl rfl rfl rfl ?_ ?_⟩
    · simp [top]
    · simp
  | pass exit data thread awake ran =>
    obtain ⟨now,pass,later,outcome,rfl,rfl,rfl⟩ := body_outcome ran
    obtain ⟨served,tail,pending⟩ := ledger
    have alive : tail = tailOf s.thread.currentRun := by
      rcases awake with ⟨top,_⟩ | ⟨notified,waiting⟩
      · exact books.tail (by simp [top]) (by simp [top])
      · exact books.tail (by simp [waiting]) (by simp [waiting])
    exact books_outcome books alive now later pass outcome
  | release holding =>
    refine ⟨[],ledger,Or.inl ⟨rfl,rfl⟩,books.carry rfl rfl rfl rfl rfl ?_ ?_⟩
    · simp [holding]
    · simp

theorem reachable_books (clock : Instant) {s : State Sec}
    (reached : Reachable (runner chrono log) (startNew clock) s) : ∃ ledger, Books s ledger := by
  refine reached.invariant (fun s => ∃ ledger, Books s ledger) ⟨_,books_new clock⟩ ?_
  intro before label after holds step
  obtain ⟨ledger,books⟩ := holds
  obtain ⟨_,next,_,kept⟩ := books_step chrono log books step
  exact ⟨next,kept⟩

/-- At the moment `next` at which the thread returns, everything pushed has been answered. -/
structure Accounted (s next : State Sec) : Prop where
  emptied : next.data.data.queue = []
  terminal : ∀ run ∈ pushes next.data.trace,
    (history (notices next.data.trace) run.notificationSender).countP Signal.terminal = 1
  interrupted : ∀ run ∈ s.data.data.queue,
    Signal.interrupted ∈ history (notices next.data.trace) run.notificationSender

omit [DecidableEq Sec] in
private theorem books_accounted {next : State Sec} {ledger : Ledger Sender Instant}
    (books : Books next ledger) (returned : next.phase = .returned)
    (emptied : next.data.data.queue = []) (run : SecRun Sec)
    (pushed : run ∈ pushes next.data.trace) :
    (history (notices next.data.trace) run.notificationSender).countP Signal.terminal = 1 := by
  have nothing : ledger.pending = [] := by
    rw [← books.queued,emptied]
    rfl
  rw [books.sent]
  apply settled_terminal ledger books.distinct nothing (books.ended returned)
  rw [← books.pushed]
  exact List.mem_map.mpr ⟨run,pushed,rfl⟩

/-- Stopping accounts for every queued run just when a section is running at that moment or
nothing is queued: the queue is drained inside the branch for a run in progress only. -/
theorem stop_accounts_iff (clock : Instant) {s next : State Sec}
    (reached : Reachable (runner chrono log) (startNew clock) s)
    (step : Step (runner chrono log) s .pass next) (returned : next.phase = .returned) :
    Accounted s next ↔ s.thread.currentRun.isSome = true ∨ s.data.data.queue = [] := by
  obtain ⟨ledger,before⟩ := reachable_books chrono log clock reached
  obtain ⟨_,after,_,books⟩ := books_step chrono log before step
  cases step with
  | pass exit data thread awake ran =>
    obtain ⟨now,pass,_,outcome,rfl,rfl,rfl⟩ := body_outcome ran
    cases outcome with
    | failed | dropped | finished | continued | started | rested =>
      simp [Monitor.Exit.phase] at returned
    | interrupted run quit running =>
      refine iff_of_true ⟨?_,?_,?_⟩ (Or.inl (by rw [running]; rfl))
      · exact congrArg RunnerData.queue (World.performs_data _ _ _)
      · exact books_accounted books rfl (congrArg RunnerData.queue (World.performs_data _ _ _))
      · intro queued member
        rw [World.performs_trace,notices_append,notices_interrupted]
        refine List.mem_filterMap.mpr ⟨⟨now,queued.notificationSender,.interrupted⟩,?_,by simp⟩
        apply List.mem_append_right
        apply List.mem_cons_of_mem
        exact List.mem_map.mpr ⟨_,List.mem_map.mpr ⟨queued,member,rfl⟩,rfl⟩
    | left quit free =>
      simp only [free,Option.isSome_none,Bool.false_eq_true,false_or]
      constructor
      · intro accounted
        exact accounted.emptied
      · intro empty
        refine ⟨empty,books_accounted books rfl empty,?_⟩
        intro queued member
        rw [empty] at member
        cases member

private def stoppedWhileQueued : List (Move Nat) := [.sleep,.runSection 7 (forSeconds 5),.stop]

theorem queued_run_abandoned : ¬ ∀ s next : State Nat,
    Reachable (runner ChronoModel.duration initLog) (startNew (atSecond 0)) s →
    Step (runner ChronoModel.duration initLog) s .pass next → next.phase = .returned →
    Accounted s next := by
  intro always
  have reached := byHand_reachable stoppedWhileQueued (by decide)
  have moved : move ChronoModel.duration initLog ((byHand stoppedWhileQueued).get (by decide))
      (.pass (atSecond 1)) =
        some ((byHand (stoppedWhileQueued ++ [.pass (atSecond 1)])).get (by decide)) := rfl
  have accounted := always _ _ reached (move_step _ _ moved) rfl
  exact absurd accounted.emptied (by decide)

private def stoppedWhileRunning : List (Move Nat) :=
  [.sleep,.runSection 7 (forSeconds 5),.pass (atSecond 1),.release,.runSection 8 (forSeconds 6),
    .stop,.sleep]

theorem stop_accounts_while_running : ∃ s next : State Nat,
    s.data.data.queue.length = 1 ∧ Accounted s next := by
  have reached := byHand_reachable stoppedWhileRunning (by decide)
  have moved : move ChronoModel.duration initLog ((byHand stoppedWhileRunning).get (by decide))
      (.pass (atSecond 2)) =
        some ((byHand (stoppedWhileRunning ++ [.pass (atSecond 2)])).get (by decide)) := rfl
  refine ⟨_,_,?_,(stop_accounts_iff ChronoModel.duration initLog (atSecond 0) reached
    (move_step _ _ moved) rfl).mpr (Or.inl ?_)⟩
  · decide
  · decide

structure FirstInFirstOut (trace : List (Event Sec)) : Prop where
  order : starts (notices trace) <+: (pushes trace).map SecRun.notificationSender
  exclusive : ∀ before time sender after,
    notices trace = before ++ ⟨time,sender,.start⟩ :: after →
    ∀ earlier other, ⟨earlier,other,.start⟩ ∈ before → ∃ till, ⟨till,other,.finish⟩ ∈ before
  course : ∀ sender,
    ∃ course ∈ [[Signal.start,.finish],[.start,.interrupted],[.interrupted]],
      history (notices trace) sender <+: course
  due : ∀ before time sender after,
    notices trace = before ++ ⟨time,sender,.finish⟩ :: after →
    ∃ since dur, ⟨since,sender,.start⟩ ∈ before ∧ Known trace sender dur ∧
      since.nanos + dur.nanos ≤ time.nanos

/-- Runs are served first-in first-out, and no run is shortened, repeated or told twice. -/
theorem first_in_first_out (clock : Instant) {s : State Sec}
    (reached : Reachable (runner chrono log) (startNew clock) s) :
    FirstInFirstOut s.data.trace := by
  obtain ⟨ledger,books⟩ := reachable_books chrono log clock reached
  refine ⟨?_,?_,?_,?_⟩
  · rw [books.sent,books.pushed]
    exact starts_prefix ledger
  · rw [books.sent]
    intro before time sender after split
    exact start_after_finish ledger before after time sender split
  · intro sender
    rw [books.sent]
    exact history_course ledger books.distinct sender
  · rw [books.sent]
    intro before time sender after split
    obtain ⟨since,served,started⟩ := finish_after_start ledger before after time sender split
    obtain ⟨dur,known,late⟩ := books.due _ served
    exact ⟨since,dur,started,known,late⟩

private def servedThenStarted : List (Move Nat) :=
  [.sleep,.runSection 7 (forSeconds 5),.runSection 7 (forSeconds 6),.pass (atSecond 1),.release,
    .sleep,.pass (atSecond 6),.release,.pass (atSecond 6)]

theorem first_in_first_out_twice : ∃ s : State Nat,
    starts (notices s.data.trace) = [0,1] ∧ FirstInFirstOut s.data.trace := by
  have reached := byHand_reachable servedThenStarted (by decide)
  exact ⟨_,by decide,first_in_first_out ChronoModel.duration initLog (atSecond 0) reached⟩

end Books
end Rinklers.SectionRunner
