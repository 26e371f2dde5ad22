import Mathlib.Logic.Relation

/-! A mutex with one condition variable and one thread that waits on it in a loop.
Any number of other threads change the protected data under the lock and notify; the
looping thread takes the lock, perhaps sleeps, and runs its body with the lock held.
Nothing is assumed of `notify_one` but that it does nothing when no thread waits. -/
namespace Foundation.Monitor

/-- Where the looping thread is. It holds the lock in `holding` only: a waiting thread has
given the lock up, and `notified` says whether a wake-up is on its way to it. -/
inductive Phase
  | top
  | waiting (notified : Bool)
  | holding
  | returned
  | panicked
deriving DecidableEq, Repr

inductive Exit
  | next
  | done
  | panic
deriving DecidableEq, Repr

def Exit.phase : Exit → Phase
  | .next => .holding
  | .done => .returned
  | .panic => .panicked

/-- Whether another thread can take the lock. A panic under the lock poisons it for good. -/
def Phase.free : Phase → Bool
  | .holding | .panicked => false
  | .top | .waiting _ | .returned => true

def Phase.notify : Phase → Phase
  | .waiting _ => .waiting true
  | phase => phase

@[simp] theorem Phase.notify_eq_returned (phase : Phase) :
    phase.notify = .returned ↔ phase = .returned := by
  cases phase <;> simp [notify]

@[simp] theorem Phase.notify_eq_panicked (phase : Phase) :
    phase.notify = .panicked ↔ phase = .panicked := by
  cases phase <;> simp [notify]

/-- The program around the lock: what the other threads do with it (`update`) and without it
(`outside`), one run of the loop body, and whether the thread-local state makes it sleep. -/
structure Loop (Op Data Thread : Type*) where
  update : Op → Data → Data → Prop
  outside : Data → Data → Prop
  body : Data → Thread → Exit → Data → Thread → Prop
  sleeps : Thread → Prop

structure State (Data Thread : Type*) where
  phase : Phase
  data : Data
  thread : Thread
deriving DecidableEq, Repr

inductive Label (Op : Type*)
  | update (op : Op)
  | outside
  | sleep
  | pass
  | release

variable {Op Data Thread : Type*}

/-- The looping thread has the lock and may run its body: it has just taken it without
sleeping, or it was woken, by a notification, a timeout or for no reason at all. -/
def Awake (loop : Loop Op Data Thread) (s : State Data Thread) : Prop :=
  (s.phase = .top ∧ ¬ loop.sleeps s.thread) ∨ ∃ notified, s.phase = .waiting notified

inductive Step (loop : Loop Op Data Thread) :
    State Data Thread → Label Op → State Data Thread → Prop
  | update (op) {s : State Data Thread} (data : Data) (free : s.phase.free = true)
      (updated : loop.update op s.data data) :
      Step loop s (.update op) ⟨s.phase.notify,data,s.thread⟩
  | outside {s : State Data Thread} (data : Data) (changed : loop.outside s.data data) :
      Step loop s .outside {s with data := data}
  | sleep {s : State Data Thread} (top : s.phase = .top) (sleeps : loop.sleeps s.thread) :
      Step loop s .sleep {s with phase := .waiting false}
  | pass {s : State Data Thread} (exit : Exit) (data : Data) (thread : Thread)
      (awake : Awake loop s) (ran : loop.body s.data s.thread exit data thread) :
      Step loop s .pass ⟨exit.phase,data,thread⟩
  | release {s : State Data Thread} (holding : s.phase = .holding) :
      Step loop s .release {s with phase := .top}

abbrev Rule (Op Data Thread : Type*) := State Data Thread → Op → State Data Thread → Prop

def RuledStep (loop : Loop Op Data Thread) (rule : Rule Op Data Thread)
    (s next : State Data Thread) : Prop :=
  ∃ label, Step loop s label next ∧ ∀ op, label = .update op → rule s op next

def Runs (loop : Loop Op Data Thread) (rule : Rule Op Data Thread) :
    State Data Thread → State Data Thread → Prop :=
  Relation.ReflTransGen (RuledStep loop rule)

def Reachable (loop : Loop Op Data Thread) : State Data Thread → State Data Thread → Prop :=
  Relation.ReflTransGen (fun s next => ∃ label, Step loop s label next)

theorem Reachable.invariant {loop : Loop Op Data Thread} {start s : State Data Thread}
    (reached : Reachable loop start s) (holds : State Data Thread → Prop) (initial : holds start)
    (kept : ∀ before label after, holds before → Step loop before label after → holds after) :
    holds s := by
  induction reached with
  | refl => exact initial
  | tail _ last ih =>
    obtain ⟨label,step⟩ := last
    exact kept _ label _ ih step

theorem Runs.invariant {loop : Loop Op Data Thread} {rule : Rule Op Data Thread}
    {start s : State Data Thread} (run : Runs loop rule start s)
    (holds : State Data Thread → Prop) (initial : holds start)
    (kept : ∀ before label after, holds before → Step loop before label after →
      (∀ op, label = .update op → rule before op after) → holds after) : holds s := by
  induction run with
  | refl => exact initial
  | tail _ last ih =>
    obtain ⟨label,step,ruled⟩ := last
    exact kept _ label _ ih step ruled

section LostWakeUp

variable (loop : Loop Op Data Thread) (calm : Data → Thread → Prop)

/-- The thread never sleeps over something it ought to see, as far as its own steps go: a
body that will sleep leaves the data calm, and nothing outside the lock disturbs them. -/
structure Settles : Prop where
  body : ∀ data thread data' thread', loop.body data thread .next data' thread' →
    loop.sleeps thread' → calm data' thread'
  outside : ∀ data data' thread, loop.outside data data' → calm data thread → calm data' thread

def Quiet (s : State Data Thread) : Prop :=
  s.phase = .waiting false → calm s.data s.thread

/-- The operation does not fall into the gap in which the thread has decided to sleep but does
not wait yet, or it leaves the data calm there. -/
def Timely : Rule Op Data Thread :=
  fun s _ next => s.phase = .top → loop.sleeps s.thread → calm next.data next.thread

/-- The gap is part of the invariant: the thread checks nothing between leaving the body and
starting to wait. -/
private def Guarded (s : State Data Thread) : Prop :=
  match s.phase with
  | .top | .holding => loop.sleeps s.thread → calm s.data s.thread
  | .waiting notified => notified = false → calm s.data s.thread
  | .returned | .panicked => True

variable {loop calm}

private theorem guarded_step (settles : Settles loop calm) (s next : State Data Thread)
    (label : Label Op) (guarded : Guarded loop calm s) (step : Step loop s label next)
    (timely : ∀ op, label = .update op → Timely loop calm s op next) :
    Guarded loop calm next := by
  cases step with
  | update op data free updated =>
    have ruled := timely op rfl
    cases phase : s.phase with
    | top => simpa [Guarded,Phase.notify,phase] using ruled phase
    | waiting notified => simp [Guarded,Phase.notify]
    | holding => simp [Phase.free,phase] at free
    | returned => simp [Guarded,Phase.notify]
    | panicked => simp [Phase.free,phase] at free
  | outside data changed =>
    have kept : calm s.data s.thread → calm data s.thread :=
      settles.outside s.data data s.thread changed
    cases phase : s.phase <;> simp only [Guarded,phase] at guarded ⊢
    case top | holding => exact fun sleeps => kept (guarded sleeps)
    case waiting notified => exact fun silent => kept (guarded silent)
  | sleep top sleeps =>
    simp only [Guarded,top] at guarded
    simpa [Guarded] using guarded sleeps
  | pass exit data thread awake ran =>
    cases exit with
    | next => exact settles.body _ _ _ _ ran
    | done => trivial
    | panic => trivial
  | release holding =>
    simpa only [Guarded,holding] using guarded

/-- No wake-up is lost in a run whose rule makes every operation timely, given that nothing
is wrong in the gap before it. -/
theorem quiet_of_rule (settles : Settles loop calm) {rule : Rule Op Data Thread}
    (timely : ∀ s op next, (s.phase = .top → loop.sleeps s.thread → calm s.data s.thread) →
      Step loop s (.update op) next → rule s op next → Timely loop calm s op next)
    {start s : State Data Thread} (top : start.phase = .top)
    (rested : loop.sleeps start.thread → calm start.data start.thread)
    (run : Runs loop rule start s) : Quiet calm s := by
  have guarded : Guarded loop calm s := by
    apply run.invariant (Guarded loop calm) (by simpa only [Guarded,top] using rested)
    intro before label after held step ruled
    apply guarded_step settles before after label held step
    rintro op rfl
    apply timely before op after _ step (ruled op rfl)
    intro gap
    simpa only [Guarded,gap] using held
  intro asleep
  simpa only [Guarded,asleep,forall_const] using guarded

/-- An operation that comes too late is lost: the thread's next step is to fall asleep over it. -/
theorem untimely_lost {s next : State Data Thread} {op : Op}
    (step : Step loop s (.update op) next) (late : ¬ Timely loop calm s op next) :
    ∃ asleep, Step loop next .sleep asleep ∧ ¬ Quiet calm asleep := by
  simp only [Timely,Classical.not_imp] at late
  obtain ⟨top,sleeps,noisy⟩ := late
  cases step with
  | update _ data free updated =>
    refine ⟨⟨.waiting false,data,s.thread⟩,.sleep ?_ sleeps,fun quiet => noisy (quiet rfl)⟩
    simp [Phase.notify,top]

end LostWakeUp

end Foundation.Monitor
