import Rinklers.SectionRunner

/-! When the section runner can sleep over a queued run or over the request to stop.
`wait_condvar` goes to sleep without looking at the data, so a notification that comes between
two iterations, or before the first one, finds no thread waiting and is gone. -/
namespace Rinklers.SectionRunner
open Foundation
open Foundation.Monitor (Step Reachable Runs Settles Quiet Timely Rule)

variable {Sec : Type}

def Calm (w : World Sec) (thread : Thread Sec) : Prop :=
  w.data.quit = false ∧ (thread.currentRun = none → w.data.queue = [])

/-- A thread that is blocked with no wake-up pending has nothing to do. -/
def NoLostWakeUp (s : State Sec) : Prop :=
  s.phase = .waiting false →
    s.data.data.quit = false ∧ (s.thread.currentRun = none → s.data.data.queue = [])

def AboutToSleep (s : State Sec) : Prop :=
  s.phase = .top ∧ s.thread.waitPeriod ≠ .none

/-- No run is queued while the thread is about to sleep with no run in progress, and `stop` is
not called while it is about to sleep. -/
def InTime : Rule (Op Sec) (World Sec) (Thread Sec) :=
  fun s op _ => match op with
    | .runSection _ _ => ¬ (AboutToSleep s ∧ s.thread.currentRun = none)
    | .stop => ¬ AboutToSleep s

theorem sleeps_iff (period : WaitPeriod) : period.sleeps = true ↔ period ≠ .none := by
  cases period <;> simp [WaitPeriod.sleeps]

variable [DecidableEq Sec] (chrono : CDuration) (log : LogLevelFilter)

theorem body_settles : Settles (@runner Sec _ chrono log) Calm where
  body := by
    intro w thread next after ran sleeps
    obtain ⟨now,pass,_,outcome,exit,rfl,rfl⟩ := body_outcome ran
    unfold Calm
    rw [World.performs_data]
    cases outcome with
    | failed | dropped | interrupted | left => cases exit
    | finished run going running due => cases sleeps
    | continued run going running early => exact ⟨going,fun free => by cases free⟩
    | started run queue going free front => exact ⟨going,fun free => by cases free⟩
    | rested going free empty => exact ⟨going,fun _ => empty⟩
  outside := by
    intro w next thread changed calm
    cases changed <;> exact calm

private theorem timely_of_inTime (s : State Sec) (op : Op Sec) (next : State Sec)
    (gap : s.phase = .top → s.thread.waitPeriod.sleeps = true → Calm s.data s.thread)
    (step : Step (runner chrono log) s (.update op) next) (inTime : InTime s op next) :
    Timely (runner chrono log) Calm s op next := by
  intro top sleeps
  obtain ⟨going,_⟩ := gap top sleeps
  have about : AboutToSleep s := ⟨top,(sleeps_iff _).mp sleeps⟩
  cases step with
  | update _ data free updated =>
    cases op with
    | runSection sec dur =>
      cases updated
      exact ⟨going,fun idle => absurd ⟨about,idle⟩ inTime⟩
    | stop => exact absurd about inTime

private theorem late_of_not_inTime (s : State Sec) (op : Op Sec) (next : State Sec)
    (step : Step (runner chrono log) s (.update op) next) (late : ¬ InTime s op next) :
    ¬ Timely (runner chrono log) Calm s op next := by
  intro timely
  cases step with
  | update _ data free updated =>
    cases op with
    | runSection sec dur =>
      obtain ⟨⟨top,sleeps⟩,idle⟩ := Classical.not_not.mp late
      cases updated
      have calm := timely top ((sleeps_iff _).mpr sleeps)
      exact List.append_ne_nil_of_right_ne_nil _ (List.cons_ne_nil _ _) (calm.2 idle)
    | stop =>
      obtain ⟨top,sleeps⟩ := Classical.not_not.mp late
      obtain ⟨_,rfl⟩ := updated
      have calm := timely top ((sleeps_iff _).mpr sleeps)
      cases calm.1

/-- No wake-up is lost in a run whose client calls all come in time, and each call that does
not is lost: the thread's next step is to fall asleep over it. -/
theorem wakeUp_kept_exactly (clock : Instant) :
    (∀ s : State Sec, Runs (runner chrono log) InTime (startNew clock) s → NoLostWakeUp s) ∧
    ∀ (s : State Sec) op next, Reachable (runner chrono log) (startNew clock) s →
      Step (runner chrono log) s (.update op) next → ¬ InTime s op next →
      ∃ asleep, Step (runner chrono log) next .sleep asleep ∧ ¬ NoLostWakeUp asleep := by
  constructor
  · intro s run
    exact Monitor.quiet_of_rule (body_settles chrono log) (timely_of_inTime chrono log) rfl
      (fun _ => ⟨rfl,fun _ => rfl⟩) run
  · intro s op next _ step late
    exact Monitor.untimely_lost step (late_of_not_inTime chrono log s op next step late)

theorem first_run_slept_over : ¬ ∀ s : State Nat,
    Reachable (runner ChronoModel.duration initLog) (startNew (atSecond 0)) s →
    NoLostWakeUp s := by
  intro always
  have kept := always _ (byHand_reachable [.runSection 7 (forSeconds 5),.sleep] (by decide)) rfl
  exact absurd (kept.2 rfl) (by decide)

end Rinklers.SectionRunner
