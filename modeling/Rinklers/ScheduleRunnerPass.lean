import Rinklers.ScheduleRunner
import Mathlib.Data.List.Sort
import Mathlib.Order.Bounds.Basic

/-! What one pass over the scheduled runs does: which of them it executes, which `next_run` it
recomputes, and for how long the thread then waits. The wait is decided by the times that remain
as a set, so that it is the same in whatever order the runs come. -/
namespace Rinklers.ScheduleRunner

variable {Data : Type}

/-- The wait period that the times remaining until the runs call for. -/
def Awaits (remaining : Set Int) : WaitPeriod → Prop
  | .wait => remaining = ∅
  | .atMost dur => 0 < dur.nanos ∧ IsLeast remaining dur.nanos
  | .none => ∃ left ∈ remaining, left ≤ 0

namespace Awaits
variable {remaining : Set Int} {period other : WaitPeriod}

private theorem not_late {dur : Duration} (timed : Awaits remaining (.atMost dur)) {left : Int}
    (member : left ∈ remaining) : 0 < left := by
  obtain ⟨positive,_,least⟩ := timed
  have shortest := least member
  omega

theorem unique (first : Awaits remaining period) (second : Awaits remaining other) :
    period = other := by
  cases period with
  | wait =>
    cases other with
    | wait => rfl
    | atMost dur => exact absurd first (Set.nonempty_iff_ne_empty.mp ⟨_,second.2.1⟩)
    | none =>
      obtain ⟨left,member,_⟩ := second
      exact absurd first (Set.nonempty_iff_ne_empty.mp ⟨left,member⟩)
  | atMost dur =>
    cases other with
    | wait => exact absurd second (Set.nonempty_iff_ne_empty.mp ⟨_,first.2.1⟩)
    | atMost dur' =>
      have same := Int.ofNat_inj.mp (first.2.unique second.2)
      exact congrArg WaitPeriod.atMost (Duration.ext same)
    | none =>
      obtain ⟨left,member,late⟩ := second
      exact absurd late (Int.not_le.mpr (first.not_late member))
  | none =>
    obtain ⟨left,member,late⟩ := first
    cases other with
    | wait => exact absurd second (Set.nonempty_iff_ne_empty.mp ⟨left,member⟩)
    | atMost dur => exact absurd late (Int.not_le.mpr (second.not_late member))
    | none => rfl

theorem timed (awaited : Awaits remaining period) (pending : remaining.Nonempty)
    (punctual : ¬ ∃ left ∈ remaining, left ≤ 0) :
    ∃ left, period = .atMost left ∧ IsLeast remaining left.nanos := by
  cases period with
  | wait => exact absurd awaited (Set.nonempty_iff_ne_empty.mp pending)
  | atMost dur => exact ⟨dur,rfl,awaited.2⟩
  | none => exact absurd awaited punctual

theorem late (remaining : Set Int) {left : Int} (due : left ≤ 0) :
    Awaits (insert left remaining) .none :=
  ⟨left,Set.mem_insert left remaining,due⟩

theorem ahead (awaited : Awaits remaining period) {left : Duration} (positive : 0 < left.nanos) :
    Awaits (insert (left.nanos : Int) remaining) (period.min (.atMost left)) := by
  cases period with
  | wait =>
    have alone : remaining = ∅ := awaited
    refine ⟨positive,?_⟩
    rw [alone,insert_empty_eq]
    exact isLeast_singleton
  | none =>
    obtain ⟨past,member,due⟩ := awaited
    exact ⟨past,Set.mem_insert_of_mem _ member,due⟩
  | atMost dur =>
    obtain ⟨before,least⟩ := awaited
    have shorter := least.insert (left.nanos : Int)
    unfold WaitPeriod.min
    split
    · rename_i greater
      have less : left.nanos < dur.nanos := Nat.compare_eq_gt.mp greater
      rw [min_eq_left (by omega)] at shorter
      exact ⟨positive,shorter⟩
    · rename_i notGreater
      have atMost : dur.nanos ≤ left.nanos :=
        Nat.not_lt.mp (fun less => notGreater (Nat.compare_eq_gt.mpr less))
      rw [min_eq_right (by omega)] at shorter
      exact ⟨before,shorter⟩

end Awaits

section Bindings
variable (readings : Readings)

/-- The times that remain until the runs that have a next one, each at the reading taken for it. -/
def Remaining (bindings : List (Nat × SchedRun Data)) : Set Int :=
  {left | ∃ binding ∈ bindings, ∃ occurrence, binding.2.nextRun = some occurrence ∧
    left = occurrence - readings (2 * binding.1)}

def due (index : Nat) (run : SchedRun Data) : Bool :=
  run.nextRun.any (fun occurrence => occurrence ≤ readings (2 * index))

def recompute (tz : Local) (index : Nat) (run : SchedRun Data) : SchedRun Data :=
  if due readings index run then run.updateNextRun tz (readings (2 * index + 1)) else run

/-- The call of `execute` that a run is owed. -/
def execution? (binding : Nat × SchedRun Data) : Option (Execution Data) :=
  (binding.2.nextRun.filter (fun occurrence => occurrence ≤ readings (2 * binding.1))).map
    (fun occurrence => ⟨binding.1,binding.2.data,occurrence,readings (2 * binding.1),
      readings (2 * binding.1 + 1)⟩)

variable {readings}

theorem execution?_eq_some {binding : Nat × SchedRun Data} {execution : Execution Data} :
    execution? readings binding = some execution ↔
      ∃ occurrence, binding.2.nextRun = some occurrence ∧
        occurrence ≤ readings (2 * binding.1) ∧
        execution = ⟨binding.1,binding.2.data,occurrence,readings (2 * binding.1),
          readings (2 * binding.1 + 1)⟩ := by
  simp only [execution?,Option.map_eq_some_iff,Option.filter_eq_some_iff,decide_eq_true_eq,
    and_assoc,@eq_comm _ _ execution]

theorem late_iff (bindings : List (Nat × SchedRun Data)) :
    (∃ left ∈ Remaining readings bindings, left ≤ 0) ↔
      bindings.filterMap (execution? readings) ≠ [] := by
  constructor
  · rintro ⟨_,⟨binding,member,occurrence,next,rfl⟩,late⟩
    have owed : execution? readings binding = some _ :=
      execution?_eq_some.mpr ⟨occurrence,next,by omega,rfl⟩
    exact List.ne_nil_of_mem (List.mem_filterMap.mpr ⟨binding,member,owed⟩)
  · intro some_due
    obtain ⟨execution,called⟩ := List.exists_mem_of_ne_nil _ some_due
    obtain ⟨binding,member,owed⟩ := List.mem_filterMap.mp called
    obtain ⟨occurrence,next,late,_⟩ := execution?_eq_some.mp owed
    exact ⟨_,⟨binding,member,occurrence,next,rfl⟩,by omega⟩

variable {bindings : List (Nat × SchedRun Data)} {index : Nat} {run : SchedRun Data}

theorem remaining_unscheduled (never : run.nextRun = none) :
    Remaining readings (bindings ++ [(index,run)]) = Remaining readings bindings := by
  ext left
  simp [Remaining,never]

theorem remaining_scheduled {occurrence : Int} (next : run.nextRun = some occurrence) :
    Remaining readings (bindings ++ [(index,run)]) =
      insert (occurrence - readings (2 * index)) (Remaining readings bindings) := by
  ext left
  simp [Remaining,or_and_right,exists_or,next,or_comm]

end Bindings

section Walk
variable (tz : Local) (chrono : CDuration) {readings : Readings} {walk : Walk Data} {index : Nat}
variable {run : SchedRun Data} {occurrence : Int}

theorem visit_unscheduled (never : run.nextRun = none) :
    visit tz chrono readings walk index run = (walk,run) := by
  unfold visit
  split
  · rfl
  · simp only [never]

theorem visit_due (going : walk.panicked = false) (next : run.nextRun = some occurrence)
    (due : occurrence ≤ readings (2 * index)) :
    visit tz chrono readings walk index run =
      ({walk with
          executed := walk.executed ++
            [⟨index,run.data,occurrence,readings (2 * index),readings (2 * index + 1)⟩]
          waitPeriod := .none},
        run.updateNextRun tz (readings (2 * index + 1))) := by
  have ahead := chrono.lt_iff chrono.zero (chrono.between occurrence (readings (2 * index)))
  rw [chrono.nanos_zero,chrono.nanos_between] at ahead
  have late : chrono.lt chrono.zero (chrono.between occurrence (readings (2 * index))) = false := by
    rw [← Bool.not_eq_true,ahead]
    omega
  simp only [visit,SchedRun.tillRun,going,next,late,Option.map_some,Bool.false_eq_true,if_false,
    Bool.not_false,if_true]

theorem visit_ahead (going : walk.panicked = false) (next : run.nextRun = some occurrence)
    (early : readings (2 * index) < occurrence)
    (near : occurrence - readings (2 * index) ≤ CDuration.maxNanos) :
    ∃ left : Duration, (left.nanos : Int) = occurrence - readings (2 * index) ∧
      visit tz chrono readings walk index run =
        ({walk with waitPeriod := walk.waitPeriod.min (.atMost left)},run) := by
  have length := chrono.nanos_between occurrence (readings (2 * index))
  have ahead : chrono.lt chrono.zero (chrono.between occurrence (readings (2 * index))) = true := by
    rw [chrono.lt_iff,chrono.nanos_zero,length]
    omega
  have converts := chrono.toStd_isSome (chrono.between occurrence (readings (2 * index)))
  rw [length] at converts
  obtain ⟨left,converted⟩ := Option.isSome_iff_exists.mp ((converts near).mpr (by omega))
  refine ⟨left,(chrono.nanos_toStd _ _ converted).trans length,?_⟩
  simp only [visit,SchedRun.tillRun,going,next,ahead,converted,Option.map_some,
    Bool.false_eq_true,if_false,Bool.not_true]

/-- What a walk over some of the runs, in any order, has come to. -/
structure Walked (readings : Readings) (bindings : List (Nat × SchedRun Data)) (walk : Walk Data) :
    Prop where
  going : walk.panicked = false
  executed : walk.executed = bindings.filterMap (execution? readings)
  awaited : Awaits (Remaining readings bindings) walk.waitPeriod

theorem Walked.step {bindings : List (Nat × SchedRun Data)}
    (walked : Walked readings bindings walk)
    (near : ∀ occurrence, run.nextRun = some occurrence →
      occurrence - readings (2 * index) ≤ CDuration.maxNanos) :
    Walked readings (bindings ++ [(index,run)]) (visit tz chrono readings walk index run).1 ∧
      (visit tz chrono readings walk index run).2 = recompute readings tz index run := by
  obtain ⟨going,executed,awaited⟩ := walked
  cases next : run.nextRun with
  | none =>
    rw [visit_unscheduled tz chrono next]
    refine ⟨⟨going,?_,?_⟩,?_⟩
    · simp [executed,execution?,next]
    · rw [remaining_unscheduled next]
      exact awaited
    · simp [recompute,due,next]
  | some occurrence =>
    rcases le_or_gt occurrence (readings (2 * index)) with late | early
    · rw [visit_due tz chrono going next late]
      refine ⟨⟨going,?_,?_⟩,?_⟩
      · simp [executed,execution?,next,late]
      · rw [remaining_scheduled next]
        exact Awaits.late _ (by omega)
      · simp [recompute,due,next,late]
    · obtain ⟨left,length,visited⟩ :=
        visit_ahead tz chrono going next early (near occurrence next)
      rw [visited]
      refine ⟨⟨going,?_,?_⟩,?_⟩
      · simp [executed,execution?,next,early]
      · rw [remaining_scheduled next,← length]
        exact awaited.ahead (by omega)
      · simp [recompute,due,next,early]

/-- The variables after a walk over some of the runs in the order given. -/
def walkOver (readings : Readings) (bindings : List (Nat × SchedRun Data)) : Walk Data :=
  bindings.foldl (fun walk binding => (visit tz chrono readings walk binding.1 binding.2).1)
    ⟨.wait,[],false⟩

theorem walkOver_walked (bindings : List (Nat × SchedRun Data))
    (near : ∀ left ∈ Remaining readings bindings, left ≤ CDuration.maxNanos) :
    Walked readings bindings (walkOver tz chrono readings bindings) := by
  induction bindings using List.reverseRecOn with
  | nil => exact ⟨rfl,rfl,by simp [walkOver,Awaits,Remaining]⟩
  | append_singleton bindings binding ih =>
    have walked := ih (by
      rintro left ⟨other,member,rest⟩
      exact near left ⟨other,List.mem_append_left _ member,rest⟩)
    rw [walkOver,List.foldl_append]
    apply (walked.step tz chrono _).1
    intro occurrence next
    exact near _ ⟨binding,List.mem_append_right _ (List.mem_singleton_self _),occurrence,next,rfl⟩

theorem index_walked (runs : IndexMap (SchedRun Data))
    (near : ∀ left ∈ Remaining readings runs.iter, left ≤ CDuration.maxNanos) :
    (runs.forMut (visit tz chrono readings) ⟨.wait,[],false⟩).2.index =
      fun index => (runs.index index).map (recompute readings tz index) := by
  have begun : ∃ bindings, Walked readings bindings (⟨.wait,[],false⟩ : Walk Data) :=
    ⟨[],walkOver_walked tz chrono [] (by simp [Remaining])⟩
  have same := @IndexMap.forMut_congr _ _ (visit tz chrono readings)
    (fun walk index run =>
      ((visit tz chrono readings walk index run).1,recompute readings tz index run))
    (fun walk => ∃ bindings, Walked readings bindings walk) runs _ begun (by
      rintro walk index run ⟨bindings,walked⟩ live
      obtain ⟨later,changed⟩ := walked.step tz chrono (fun occurrence next =>
        near _ ⟨(index,run),IndexMap.mem_iter.mpr live,occurrence,next,rfl⟩)
      exact ⟨Prod.ext rfl changed,_,later⟩)
  rw [same.1]
  exact runs.index_forMut (fun walk index run => (visit tz chrono readings walk index run).1)
    (recompute readings tz) _

end Walk

/-- What a pass is to do with the runs and the readings it takes for them. -/
structure PassExact (tz : Local) (chrono : CDuration) (readings : Readings)
    (runs : IndexMap (SchedRun Data)) (pass : Pass Data) : Prop where
  returns : pass.exit = .next
  ordered : pass.executed.Pairwise (fun a b => a.index < b.index)
  executed : ∀ execution, execution ∈ pass.executed ↔ ∃ index run occurrence,
    runs.index index = some run ∧ run.nextRun = some occurrence ∧
      occurrence ≤ readings (2 * index) ∧
      execution = ⟨index,run.data,occurrence,readings (2 * index),readings (2 * index + 1)⟩
  recomputed : pass.data.runs.index =
    fun index => (runs.index index).map (recompute readings tz index)
  fired : pass.executed ≠ [] → pass.waitPeriod = .none
  timed : pass.executed = [] → (Remaining readings runs.iter).Nonempty →
    ∃ left, pass.waitPeriod = .atMost left ∧ IsLeast (Remaining readings runs.iter) left.nanos
  idle : pass.executed = [] → Remaining readings runs.iter = ∅ → pass.waitPeriod = .wait
  unordered : ∀ bindings, bindings.Perm runs.iter →
    (walkOver tz chrono readings bindings).waitPeriod = pass.waitPeriod

open ChronoModel (localAt ymdHms)

/-- A run that is due, a free slot, and a run that is due a second later. -/
def dueAndPending : IndexMap (SchedRun Unit) :=
  ⟨[.element ⟨mondays .none .none,(),some (ymdHms 2016 5 2 9 41 0)⟩,.empty none,
    .element ⟨mondays .none .none,(),some (ymdHms 2016 5 2 9 41 1)⟩],some 1⟩

end Rinklers.ScheduleRunner
