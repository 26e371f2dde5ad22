import Rinklers.SectionRunnerTrace
import Rinklers.Foundation.Counted

/-! How long a run can wait: for two passes of the loop for each run ahead of it, and for one more
where a run is in progress. What is queued behind it makes no difference. -/
namespace Rinklers.SectionRunner
open Foundation
open Foundation.Monitor (Step Reachable)

variable {Sec : Type} [DecidableEq Sec] (chrono : CDuration) (log : LogLevelFilter)

/-- A pass of the loop that goes on, and that has not come too early for the run in progress. -/
def Works (s next : State Sec) : Prop :=
  Step (runner chrono log) s .pass next ∧ next.phase = .holding ∧
    ¬ (s.thread.currentRun.isSome = true ∧ next.thread.currentRun = s.thread.currentRun)

/-- Any other step. -/
def Passes (s next : State Sec) : Prop :=
  (∃ label, Step (runner chrono log) s label next) ∧ ¬ Works chrono log s next

abbrev Waits (run : SecRun Sec) (s : State Sec) : Prop := run ∈ s.data.data.queue

def passesLeft (run : SecRun Sec) (s : State Sec) : Nat :=
  2 * s.data.data.queue.idxOf run + s.thread.currentRun.isSome.toNat

variable {chrono log}

theorem queue_nodup {clock : Instant} {s : State Sec}
    (reached : Reachable (runner chrono log) (startNew clock) s) : s.data.data.queue.Nodup := by
  obtain ⟨ledger,books⟩ := reachable_books chrono log clock reached
  have distinct := books.distinct
  rw [Service.Ledger.jobs_eq] at distinct
  have pending := (List.nodup_append.mp distinct).2.1
  rw [← books.queued] at pending
  exact pending.of_map

/-- The runs ahead of a run get fewer when one of them is taken from the queue. -/
private theorem idxOf_taken {first run : SecRun Sec} {queue : List (SecRun Sec)}
    (distinct : (first::queue).Nodup) (still : run ∈ queue) :
    (first::queue).idxOf run = queue.idxOf run + 1 := by
  have apart : first ≠ run := fun same => (List.nodup_cons.mp distinct).1 (same ▸ still)
  exact List.idxOf_cons_ne queue apart

private theorem pass_left {now : Instant} {data : RunnerData Sec} {thread : Thread Sec}
    {pass : Pass Sec} {run : SecRun Sec} (outcome : Outcome now data thread pass)
    (distinct : data.queue.Nodup) (still : run ∈ pass.data.queue) :
    2 * pass.data.queue.idxOf run + pass.thread.currentRun.isSome.toNat ≤
        2 * data.queue.idxOf run + thread.currentRun.isSome.toNat ∧
      (pass.exit = .next →
        ¬ (thread.currentRun.isSome = true ∧ pass.thread.currentRun = thread.currentRun) →
        2 * pass.data.queue.idxOf run + pass.thread.currentRun.isSome.toNat <
          2 * data.queue.idxOf run + thread.currentRun.isSome.toNat) := by
  cases outcome with
  | failed => exact ⟨le_rfl,fun impossible => by cases impossible⟩
  | dropped first queue going free front =>
    rw [front] at distinct ⊢
    refine ⟨?_,fun impossible => by cases impossible⟩
    rw [idxOf_taken distinct still]
    exact Nat.add_le_add_right (Nat.mul_le_mul_left 2 (Nat.le_succ _)) _
  | interrupted current quit running => cases still
  | left quit free => exact ⟨le_rfl,fun impossible => by cases impossible⟩
  | finished current going running due =>
    rw [running]
    refine ⟨Nat.le_succ _,fun _ _ => Nat.lt_succ_self _⟩
  | continued current going running early =>
    rw [running]
    exact ⟨le_rfl,fun _ works => absurd ⟨rfl,rfl⟩ works⟩
  | started first queue going free front =>
    rw [front] at distinct ⊢
    rw [free,idxOf_taken distinct still]
    constructor
    · exact Nat.le_succ _
    · exact fun _ _ => Nat.lt_succ_self _
  | rested going free empty =>
    rw [empty] at still
    cases still

private theorem step_left {s next : State Sec} {label : Monitor.Label (Op Sec)} {run : SecRun Sec}
    (distinct : s.data.data.queue.Nodup) (waits : Waits run s) (still : Waits run next)
    (step : Step (runner chrono log) s label next) : passesLeft run next ≤ passesLeft run s := by
  unfold passesLeft
  cases step with
  | update op data free updated =>
    cases op with
    | runSection sec dur =>
      cases updated
      exact (congrArg (2 * · + _) (List.idxOf_append_of_mem waits)).le
    | stop =>
      obtain ⟨_,rfl⟩ := updated
      exact le_rfl
  | outside data changed => cases changed <;> exact le_rfl
  | sleep top sleeps => exact le_rfl
  | release holding => exact le_rfl
  | pass exit data thread awake ran =>
    obtain ⟨now,pass,_,outcome,rfl,rfl,rfl⟩ := body_outcome ran
    rw [Waits,World.performs_data] at still
    dsimp only
    rw [World.performs_data]
    exact (pass_left outcome distinct still).1

private theorem works_left {s next : State Sec} {run : SecRun Sec}
    (distinct : s.data.data.queue.Nodup) (still : Waits run next)
    (works : Works chrono log s next) : passesLeft run next < passesLeft run s := by
  obtain ⟨step,holding,fresh⟩ := works
  cases step with
  | pass exit data thread awake ran =>
    obtain ⟨now,pass,_,outcome,rfl,rfl,rfl⟩ := body_outcome ran
    rw [Waits,World.performs_data] at still
    unfold passesLeft
    dsimp only at holding fresh ⊢
    rw [World.performs_data]
    apply (pass_left outcome distinct still).2 _ fresh
    cases exits : pass.exit with
    | next => rfl
    | done | panic => rw [exits] at holding; cases holding

/-- However many runs are queued meanwhile, a run does not wait for more than two working passes
for each run ahead of it and one for the run in progress. -/
theorem started_soon (clock : Instant) {s later : State Sec} {run : SecRun Sec} {n : Nat}
    (reached : Reachable (runner chrono log) (startNew clock) s) (waits : Waits run s)
    (goes : Counted (fun s next => Works chrono log s next ∧ Waits run next)
      (fun s next => Passes chrono log s next ∧ Waits run next) n s later) :
    n ≤ passesLeft run s := by
  have bounded := @Counted.bounded _ _ _
    (fun s => Reachable (runner chrono log) (startNew clock) s ∧ Waits run s) (passesLeft run)
    ?_ ?_ ?_ n s later goes ⟨reached,waits⟩
  · omega
  · rintro a b ⟨before,_⟩ (⟨works,still⟩ | ⟨passes,still⟩)
    · exact ⟨before.tail ⟨_,works.1⟩,still⟩
    · exact ⟨before.tail passes.1,still⟩
  · rintro a b ⟨before,_⟩ ⟨works,still⟩
    exact works_left (queue_nodup before) still works
  · rintro a b ⟨before,waiting⟩ ⟨⟨⟨label,step⟩,_⟩,still⟩
    exact step_left (queue_nodup before) waiting still step

private def twoQueued : List (Move Nat) := [.sleep,.runSection 7 (forSeconds 5),
  .runSection 8 (forSeconds 6)]

private def secondRun : SecRun Nat := ⟨8,forSeconds 6,1⟩

/-- The first of two runs is started, and the second waits for that. -/
theorem started_soon_second : 1 ≤ passesLeft secondRun ((byHand twoQueued).get (by decide)) := by
  have reached := byHand_reachable twoQueued (by decide)
  have moved : move ChronoModel.duration initLog ((byHand twoQueued).get (by decide))
      (.pass (atSecond 1)) = some ((byHand (twoQueued ++ [.pass (atSecond 1)])).get (by decide)) :=
    rfl
  refine started_soon (atSecond 0) reached (by decide) (.own (.refl _) ⟨⟨move_step _ _ moved,?_⟩,?_⟩)
  · decide
  · decide

end Rinklers.SectionRunner
