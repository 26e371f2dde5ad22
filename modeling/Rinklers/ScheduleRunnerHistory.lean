import Rinklers.ScheduleRunnerFirings
import Rinklers.Foundation.Sweep

/-! What has become of each occurrence of a schedule. The firings of a run since its schedule was
set are a sweep over the occurrences: each is for the next run that was computed after the one
before it. -/
namespace Rinklers.ScheduleRunner
open Foundation
open Foundation.Monitor (Step Reachable)

variable {Data : Type}

section Trace

def Event.fires (guard : Guard) (fired : List (Execution Data)) :
    Event Data → List (Execution Data)
  | .executed execution =>
    if execution.index = guard.index then fired ++ [execution] else fired
  | event => if (event.schedule? guard).isSome then [] else fired

/-- The executions in the slot of `guard` since its schedule was set. -/
def firedSince (guard : Guard) (trace : List (Event Data)) : List (Execution Data) :=
  trace.foldl (Event.fires guard) []

theorem firedSince_append (guard : Guard) (trace : List (Event Data)) (event : Event Data) :
    firedSince guard (trace ++ [event]) = event.fires guard (firedSince guard trace) := by
  simp only [firedSince,List.foldl_append,List.foldl_cons,List.foldl_nil]

theorem firedSince_mem {guard : Guard} {trace : List (Event Data)} {execution : Execution Data}
    (fired : execution ∈ firedSince guard trace) :
    .executed execution ∈ trace ∧ execution.index = guard.index := by
  induction trace using List.reverseRecOn with
  | nil => cases fired
  | append_singleton trace event ih =>
    rw [firedSince_append] at fired
    have earlier : execution ∈ firedSince guard trace →
        .executed execution ∈ trace ++ [event] ∧ execution.index = guard.index :=
      fun before => ⟨List.mem_append_left _ (ih before).1,(ih before).2⟩
    cases event with
    | executed last =>
      simp only [Event.fires] at fired
      split at fired
      · rename_i slot
        rcases List.mem_append.mp fired with before | now
        · exact earlier before
        · cases List.mem_singleton.mp now
          exact ⟨List.mem_append_right _ (List.mem_singleton_self _),slot⟩
      · exact earlier fired
    | _ =>
      simp only [Event.fires] at fired
      split at fired
      · cases fired
      · exact earlier fired

/-- An occurrence with the reading from which the next one was searched. -/
def Execution.search (execution : Execution Data) : Int × Int :=
  (execution.occurrence,execution.recomputed)

variable (tz : Local)

def Swept (trace : List (Event Data)) : Prop :=
  ∀ guard sched since, Live trace guard → latest (Event.schedule? guard) trace = some (sched,since) →
    ∃ computed, latest (Event.computed? guard) trace = some computed ∧
      Sweep (sched.nextRunAfter tz) since ((firedSince guard trace).map Execution.search) computed

variable {tz} {trace : List (Event Data)} {event : Event Data}

theorem live_before {guard : Guard} (live : Live (trace ++ [event]) guard)
    (quiet : event.schedule? guard = none) : Live trace guard := by
  obtain ⟨⟨sched,data,time,made⟩,unstopped⟩ := live
  refine ⟨⟨sched,data,time,?_⟩,fun sched data member =>
    unstopped sched data (List.mem_append_left _ member)⟩
  rcases List.mem_append.mp made with before | now
  · exact before
  · rw [← List.mem_singleton.mp now] at quiet
    simp [Event.schedule?] at quiet

theorem fires_set {guard : Guard} {sched : Schedule} {since : Int}
    (set : event.schedule? guard = some (sched,since)) (fired : List (Execution Data)) :
    event.fires guard fired = [] ∧ event.computed? guard = some since := by
  cases event with
  | scheduled other sched data time | scheduleUpdated other sched time =>
    refine ⟨by simp only [Event.fires,set,Option.isSome_some,if_true],?_⟩
    simp only [Event.schedule?] at set
    simp only [Event.computed?]
    split at set <;> cases set
    simp only [*,if_true]
  | _ => cases set

theorem fires_other {guard : Guard} (quiet : event.schedule? guard = none)
    (other : ∀ execution, event = .executed execution → execution.index ≠ guard.index)
    (fired : List (Execution Data)) :
    event.fires guard fired = fired ∧ event.computed? guard = none := by
  cases event with
  | executed execution =>
    have apart := other execution rfl
    exact ⟨if_neg apart,if_neg apart⟩
  | scheduled holder sched data time | scheduleUpdated holder sched time =>
    have apart : holder ≠ guard := by simpa [Event.schedule?] using quiet
    exact ⟨by simp [Event.fires,quiet],if_neg apart⟩
  | dataUpdated holder data | stopped holder sched data =>
    exact ⟨by simp [Event.fires,quiet],rfl⟩

theorem Swept.append (swept : Swept tz trace)
    (fires : ∀ execution, event = .executed execution → ∀ guard sched since computed,
      guard.index = execution.index → Live trace guard →
      latest (Event.schedule? guard) trace = some (sched,since) →
      latest (Event.computed? guard) trace = some computed →
      sched.nextRunAfter tz computed = some execution.occurrence) :
    Swept tz (trace ++ [event]) := by
  intro guard sched since live found
  rw [latest_append] at found ⊢
  rw [firedSince_append]
  cases set : event.schedule? guard with
  | some now =>
    rw [set,Option.some_or] at found
    cases found
    obtain ⟨nothing,computed⟩ := fires_set set (firedSince guard trace)
    rw [nothing,computed,Option.some_or]
    exact ⟨since,rfl,.start⟩
  | none =>
    rw [set,Option.none_or] at found
    have before := live_before live set
    obtain ⟨computed,read,sweep⟩ := swept guard sched since before found
    by_cases here : ∃ execution, event = .executed execution ∧ execution.index = guard.index
    · obtain ⟨execution,rfl,slot⟩ := here
      have searched := fires execution rfl guard sched since computed slot.symm before found read
      simp only [Event.computed?,Event.fires,if_pos slot,Option.some_or,List.map_append]
      exact ⟨_,rfl,.found _ _ sweep searched⟩
    · have other : ∀ execution, event = .executed execution → execution.index ≠ guard.index :=
        fun execution same slot => here ⟨execution,same,slot⟩
      obtain ⟨same,still⟩ := fires_other set other (firedSince guard trace)
      rw [same,still,Option.none_or]
      exact ⟨computed,read,sweep⟩

end Trace

section Runs
variable {tz : Local} {chrono : CDuration} {timekeeping : Timekeeping}

structure Recorded (tz : Local) (guards : List Guard) (scheduled : Nat)
    (runs : IndexMap (SchedRun Data)) (trace : List (Event Data)) : Prop where
  registered : Registered tz runs guards scheduled trace
  swept : Swept tz trace

def World.Recorded (tz : Local) (w : World Data) : Prop :=
  ScheduleRunner.Recorded tz w.guards w.scheduled w.data.runs w.trace

theorem recorded_kept {guards : List Guard} {scheduled : Nat} {readings : Readings} :
    Kept tz readings (@Recorded Data tz guards scheduled) where
  same runs after trace recorded formed same :=
    {recorded with registered := recorded.registered.congr (formed recorded.registered.formed) same}
  fire runs after trace execution run recorded fires := by
    refine ⟨registered_kept.fire _ _ _ _ _ recorded.registered fires,recorded.swept.append ?_⟩
    rintro _ ⟨⟩ guard sched since computed slot live set read
    obtain ⟨own,found,⟨_,same⟩,_,_,again,next⟩ := recorded.registered.own live
    rw [slot] at found
    cases found.symm.trans fires.live
    cases same.symm.trans set
    cases again.symm.trans read
    exact next.symm.trans fires.next

theorem update_event {w next : World Data} {op : Op Data}
    (updated : update tz timekeeping op w next) : next.trace = w.trace ∨
      ∃ event, next.trace = w.trace ++ [event] ∧ ∀ execution, event ≠ .executed execution := by
  cases op with
  | schedule sched data now =>
    obtain ⟨_,_,made⟩ := updated
    obtain ⟨⟨runs,index⟩,_,rfl⟩ := Option.map_eq_some_iff.mp made
    exact .inr ⟨_,rfl,by simp⟩
  | updateSchedule guard newSchedule now =>
    obtain ⟨_,_,made⟩ := updated
    obtain ⟨⟨result,runs⟩,_,rfl⟩ := Option.map_eq_some_iff.mp made
    exact .inr ⟨_,rfl,by simp⟩
  | updateData guard newData =>
    obtain ⟨_,made⟩ := updated
    obtain ⟨⟨result,runs⟩,_,rfl⟩ := Option.map_eq_some_iff.mp made
    exact .inr ⟨_,rfl,by simp⟩
  | stop guard =>
    obtain ⟨_,made⟩ := updated
    obtain ⟨⟨removed,runs⟩,_,rest⟩ := Option.bind_eq_some_iff.mp made
    obtain ⟨run,_,rfl⟩ := Option.map_eq_some_iff.mp rest
    exact .inr ⟨_,rfl,by simp⟩
  | quit =>
    obtain ⟨_,_,rfl⟩ := updated
    exact .inl rfl

theorem recorded_reachable {clock : Int} {s : State Data}
    (reached : Reachable (runner tz chrono timekeeping) (startNew clock) s) :
    s.data.Recorded tz := by
  have initial : (World.new clock : World Data).Recorded tz := by
    refine ⟨registered_initial tz clock,?_⟩
    intro guard sched since live set
    cases set
  apply reached.invariant (fun s => s.data.Recorded tz) initial
  intro before label after recorded step
  cases step with
  | update op data _ updated =>
    refine ⟨registered_update tz timekeeping recorded.registered op updated,?_⟩
    rcases update_event updated with same | ⟨event,trace,quiet⟩
    · rw [same]
      exact recorded.swept
    · rw [trace]
      exact recorded.swept.append fun execution same => absurd same (quiet execution)
  | outside data changed =>
    cases changed with
    | forget guard _ => exact ⟨registered_forget tz recorded.registered guard,recorded.swept⟩
  | pass exit data thread _ ran =>
    obtain ⟨readings,_,_,_,rfl⟩ := ran
    exact recorded_kept.pass chrono recorded _
  | sleep | release => exact recorded

end Runs

section Exact
variable {calendar : Calendar} {offset : Int} {chrono : CDuration} {timekeeping : Timekeeping}

/-- The occurrences of the schedule between its definite bounds. -/
def Asks (tz : Local) (sched : Schedule) : Set Int :=
  {instant | sched.Occurs tz instant ∧
    (∀ first, sched.fromBound = .definite first → first ≤ instant) ∧
      ∀ last, sched.toBound = .definite last → instant ≤ last}

theorem nextRunAfter_asks {sched : Schedule} (bounds : OneBound sched.fromBound sched.toBound)
    (reference : Int) :
    IsFirst {instant | instant ∈ Asks (fixedLocal calendar offset) sched ∧ reference ≤ instant}
      (sched.nextRunAfter (fixedLocal calendar offset) reference) := by
  apply (nextRunAfter_first calendar offset sched reference).congr
  intro instant
  rw [Set.mem_ofPred_eq,admits_oneBound _ bounds]
  constructor
  · rintro ⟨occurs,after,within⟩
    exact ⟨⟨occurs,within⟩,after⟩
  · rintro ⟨⟨occurs,within⟩,after⟩
    exact ⟨occurs,after,within⟩

theorem occurrence_kept {clock : Int} {s : State Data}
    (reached : Reachable (runner (fixedLocal calendar offset) chrono timekeeping) (startNew clock) s)
    {guard : Guard} {sched : Schedule} {since : Int} (live : Live s.data.trace guard)
    (set : latest (Event.schedule? guard) s.data.trace = some (sched,since))
    (bounds : OneBound sched.fromBound sched.toBound) {instant : Int}
    (asked : instant ∈ Asks (fixedLocal calendar offset) sched) (after : since ≤ instant) :
    (∃ execution ∈ firedSince guard s.data.trace, execution.occurrence = instant) ∨
    (∃ execution ∈ firedSince guard s.data.trace,
      execution.occurrence < instant ∧ instant < execution.recomputed) ∨
    ∃ run next, s.data.data.runs.index guard.index = some run ∧ run.nextRun = some next ∧
      next ≤ instant := by
  have recorded := recorded_reachable reached
  obtain ⟨computed,read,sweep⟩ := recorded.swept guard sched since live set
  have exact := @nextRunAfter_asks calendar offset sched bounds
  rcases sweep.covers exact asked after with ⟨restart,hit⟩ | ⟨earlier,restart,hit,below,above⟩ | ahead
  · obtain ⟨execution,member,same⟩ := List.mem_map.mp hit
    exact .inl ⟨execution,member,congrArg Prod.fst same⟩
  · obtain ⟨execution,member,same⟩ := List.mem_map.mp hit
    cases same
    exact .inr (.inl ⟨execution,member,below,above⟩)
  · obtain ⟨run,found,⟨_,own⟩,_,_,again,next⟩ := recorded.registered.own live
    cases own.symm.trans set
    cases again.symm.trans read
    obtain ⟨element,searched,least⟩ := Sweep.searched_le exact asked ahead
    exact .inr (.inr ⟨run,element,found,next.trans searched,least⟩)

/-- Since its schedule was set, a run has been executed for instants of the schedule only, and no
instant of it is lost: the run has been executed for it, or the instant was passed over when the
next run was searched again after an earlier one, or it is still to come. -/
theorem no_occurrence_lost {clock : Int} {s : State Data}
    (reached : Reachable (runner (fixedLocal calendar offset) chrono timekeeping) (startNew clock) s)
    {guard : Guard} {sched : Schedule} {since : Int} (live : Live s.data.trace guard)
    (set : latest (Event.schedule? guard) s.data.trace = some (sched,since))
    (bounds : OneBound sched.fromBound sched.toBound) :
    (∀ execution ∈ firedSince guard s.data.trace,
      execution.occurrence ∈ Asks (fixedLocal calendar offset) sched) ∧
    ∀ instant ∈ Asks (fixedLocal calendar offset) sched, since ≤ instant →
      (∃ execution ∈ firedSince guard s.data.trace, execution.occurrence = instant) ∨
      (∃ execution ∈ firedSince guard s.data.trace,
        execution.occurrence < instant ∧ instant < execution.recomputed) ∨
      ∃ run next, s.data.data.runs.index guard.index = some run ∧ run.nextRun = some next ∧
        next ≤ instant := by
  refine ⟨?_,fun instant asked after => occurrence_kept reached live set bounds asked after⟩
  intro execution member
  obtain ⟨computed,_,sweep⟩ := (recorded_reachable reached).swept guard sched since live set
  exact sweep.mem_of_found (@nextRunAfter_asks calendar offset sched bounds)
    (List.mem_map_of_mem member)

open ChronoModel (localAt ymdHms) in
/-- The run of the first Monday is executed two weeks late, after the second Monday. -/
theorem no_occurrence_lost_when_late : ∃ s : State Unit,
    s.data.trace = [.scheduled ⟨0,0⟩ (mondays .none .none) () (ymdHms 2016 5 1 0 0 0),
      .executed ⟨0,(),ymdHms 2016 5 2 9 41 0,ymdHms 2016 5 15 0 0 0,ymdHms 2016 5 15 0 0 0⟩] ∧
    (∀ execution ∈ firedSince ⟨0,0⟩ s.data.trace,
      execution.occurrence ∈ Asks (localAt 0) (mondays .none .none)) ∧
    ∀ instant ∈ Asks (localAt 0) (mondays .none .none), ymdHms 2016 5 1 0 0 0 ≤ instant →
      (∃ execution ∈ firedSince ⟨0,0⟩ s.data.trace, execution.occurrence = instant) ∨
      (∃ execution ∈ firedSince ⟨0,0⟩ s.data.trace,
        execution.occurrence < instant ∧ instant < execution.recomputed) ∨
      ∃ run next, s.data.data.runs.index 0 = some run ∧ run.nextRun = some next ∧
        next ≤ instant := by
  have next : (mondays .none .none).nextRunAfter (localAt 0) (ymdHms 2016 5 1 0 0 0) =
      some (ymdHms 2016 5 2 9 41 0) := by decide +kernel
  have forward : ymdHms 2016 5 1 0 0 0 ≤ ymdHms 2016 5 15 0 0 0 := by decide +kernel
  have due : ymdHms 2016 5 2 9 41 0 ≤ ymdHms 2016 5 15 0 0 0 := by decide +kernel
  have reached := alone_fires_first (localAt 0) ChronoModel.duration _ () forward due next
  have live : Live [Event.scheduled ⟨0,0⟩ (mondays .none .none) () (ymdHms 2016 5 1 0 0 0),
      .executed ⟨0,(),ymdHms 2016 5 2 9 41 0,ymdHms 2016 5 15 0 0 0,ymdHms 2016 5 15 0 0 0⟩]
      ⟨0,0⟩ := ⟨⟨_,_,_,List.mem_cons_self⟩,by simp⟩
  exact ⟨_,rfl,no_occurrence_lost reached live rfl .none⟩

end Exact

end Rinklers.ScheduleRunner
