import Rinklers.ScheduleRunner

/-! Which guard a run belongs to. A guard is a bare index into a map that uses its slots again;
what keeps guards apart is that a slot is free only once its guard is gone. The last schedule and
data that were set through a guard, and when its next run was last computed, are read off the
trace. -/
namespace Rinklers.ScheduleRunner
open Foundation
open Foundation.Monitor (Step Reachable)

variable {Data : Type}

section Trace

def latest {α : Type*} (read : Event Data → Option α) (trace : List (Event Data)) : Option α :=
  (trace.filterMap read).getLast?

theorem latest_append {α : Type*} (read : Event Data → Option α) (trace : List (Event Data))
    (event : Event Data) :
    latest read (trace ++ [event]) = (read event).or (latest read trace) := by
  unfold latest
  rw [List.filterMap_append,List.getLast?_append]
  cases found : read event <;> simp [found]

theorem latest_quiet {α : Type*} {read : Event Data → Option α} {events : List (Event Data)}
    (quiet : ∀ event ∈ events, read event = none) (trace : List (Event Data)) :
    latest read (trace ++ events) = latest read trace := by
  rw [latest,List.filterMap_append,List.filterMap_eq_nil_iff.mpr quiet,List.append_nil,latest]

theorem latest_since {α : Type*} {read : Event Data → Option α} {trace events : List (Event Data)}
    {found : α} (last : latest read (trace ++ events) = some found) :
    (∃ event ∈ events, read event = some found) ∨ latest read trace = some found := by
  rw [latest,List.filterMap_append,List.getLast?_append,Option.or_eq_some_iff] at last
  rcases last with since | ⟨_,before⟩
  · exact .inl (List.mem_filterMap.mp (List.mem_of_getLast? since))
  · exact .inr before

/-- The schedule that `guard` has set, and when. -/
def Event.schedule? (guard : Guard) : Event Data → Option (Schedule × Int)
  | .scheduled other sched _ time | .scheduleUpdated other sched time =>
    if other = guard then some (sched,time) else none
  | _ => none

@[simp] theorem Event.schedule?_executed (guard : Guard) (execution : Execution Data) :
    (Event.executed execution).schedule? guard = none := rfl

def Event.data? (guard : Guard) : Event Data → Option Data
  | .scheduled other _ data _ | .dataUpdated other data =>
    if other = guard then some data else none
  | _ => none

/-- The reading with which the next run in the slot of `guard` was computed. -/
def Event.computed? (guard : Guard) : Event Data → Option Int
  | .scheduled other _ _ time | .scheduleUpdated other _ time =>
    if other = guard then some time else none
  | .executed execution => if execution.index = guard.index then some execution.recomputed else none
  | _ => none

def Event.owner? (key : Nat) : Event Data → Option Guard
  | .scheduled guard _ _ _ => if guard.index = key then some guard else none
  | _ => none

def Event.guard? : Event Data → Option Guard
  | .scheduled guard _ _ _ | .scheduleUpdated guard _ _ | .dataUpdated guard _
  | .stopped guard _ _ => some guard
  | .executed _ => none

inductive Event.About (guard : Guard) : Event Data → Prop
  | scheduled (sched data time) : About guard (.scheduled guard sched data time)
  | scheduleUpdated (sched time) : About guard (.scheduleUpdated guard sched time)
  | dataUpdated (data) : About guard (.dataUpdated guard data)
  | stopped (sched data) : About guard (.stopped guard sched data)
  | executed (execution) (slot : execution.index = guard.index) :
      About guard (.executed execution)

/-- The run that `guard` was returned for has not been stopped, whether or not the guard is kept. -/
def Live (trace : List (Event Data)) (guard : Guard) : Prop :=
  (∃ sched data time, .scheduled guard sched data time ∈ trace) ∧
    ∀ sched data, .stopped guard sched data ∉ trace

theorem Live.keep {trace : List (Event Data)} {guard : Guard} (live : Live trace guard)
    {event : Event Data} (going : ∀ sched data, event ≠ .stopped guard sched data) :
    Live (trace ++ [event]) guard := by
  obtain ⟨⟨sched,data,time,made⟩,unstopped⟩ := live
  refine ⟨⟨sched,data,time,List.mem_append_left _ made⟩,?_⟩
  intro sched data member
  rcases List.mem_append.mp member with before | now
  · exact unstopped sched data before
  · exact going sched data (List.mem_singleton.mp now).symm

theorem Live.before {trace : List (Event Data)} {guard other : Guard} {event : Event Data}
    (about : Event.About guard event) (apart : other ≠ guard)
    (live : Live (trace ++ [event]) other) : Live trace other := by
  obtain ⟨⟨sched,data,time,made⟩,unstopped⟩ := live
  refine ⟨⟨sched,data,time,?_⟩,fun sched data member =>
    unstopped sched data (List.mem_append_left _ member)⟩
  rcases List.mem_append.mp made with before | now
  · exact before
  · cases List.mem_singleton.mp now
    cases about
    exact absurd rfl apart

private theorem ne_of_apart {guard other : Guard} (apart : other.index ≠ guard.index) :
    guard ≠ other := by
  rintro rfl
  exact apart rfl

section Apart
variable {guard other : Guard} {event : Event Data} (about : Event.About guard event)
  (apart : other.index ≠ guard.index) (trace : List (Event Data))
include about apart

theorem latest_schedule_apart :
    latest (Event.schedule? other) (trace ++ [event]) = latest (Event.schedule? other) trace := by
  have different := ne_of_apart apart
  rw [latest_append]
  cases about <;> simp [Event.schedule?,different]

theorem latest_data_apart :
    latest (Event.data? other) (trace ++ [event]) = latest (Event.data? other) trace := by
  have different := ne_of_apart apart
  rw [latest_append]
  cases about <;> simp [Event.data?,different]

theorem latest_computed_apart :
    latest (Event.computed? other) (trace ++ [event]) = latest (Event.computed? other) trace := by
  have different := ne_of_apart apart
  rw [latest_append]
  cases about with
  | executed execution slot => simp [Event.computed?,slot,apart.symm]
  | _ => simp [Event.computed?,different]

theorem latest_owner_apart :
    latest (Event.owner? other.index) (trace ++ [event]) =
      latest (Event.owner? other.index) trace := by
  rw [latest_append]
  cases about <;> simp [Event.owner?,apart.symm]

end Apart

end Trace

section Registered
variable (tz : Local)

/-- The run holds what was last set through the guard, and its next run was computed from that. -/
structure Owns (trace : List (Event Data)) (guard : Guard) (run : SchedRun Data) : Prop where
  schedule : ∃ since, latest (Event.schedule? guard) trace = some (run.sched,since)
  data : latest (Event.data? guard) trace = some run.data
  computed : ∃ now, latest (Event.computed? guard) trace = some now ∧
    run.nextRun = run.sched.nextRunAfter tz now

/-- Every live slot has one guard, the last one that was returned for it, and every guard whose
run has not been stopped has its slot. -/
structure Registered (runs : IndexMap (SchedRun Data)) (guards : List Guard) (scheduled : Nat)
    (trace : List (Event Data)) : Prop where
  formed : runs.WellFormed
  fresh : ∀ event ∈ trace, ∀ guard, event.guard? = some guard → guard.number < scheduled
  held : ∀ guard ∈ guards, Live trace guard
  distinct : guards.Nodup
  owned : ∀ key run, runs.index key = some run →
    ∃ guard, guard.index = key ∧ Live trace guard ∧ Owns tz trace guard run
  present : ∀ guard, Live trace guard → (runs.index guard.index).isSome = true
  owner : ∀ guard, Live trace guard → latest (Event.owner? guard.index) trace = some guard

variable {tz} {runs after : IndexMap (SchedRun Data)} {guards kept : List Guard}
  {scheduled count : Nat} {trace : List (Event Data)}

theorem Owns.apart {guard other : Guard} {event : Event Data} {run : SchedRun Data}
    (owns : Owns tz trace other run) (about : Event.About guard event)
    (apart : other.index ≠ guard.index) : Owns tz (trace ++ [event]) other run := by
  obtain ⟨⟨since,sched⟩,data,now,computed,next⟩ := owns
  refine ⟨⟨since,?_⟩,?_,now,?_,next⟩
  · rw [latest_schedule_apart about apart,sched]
  · rw [latest_data_apart about apart,data]
  · rw [latest_computed_apart about apart,computed]

theorem Registered.congr (registered : Registered tz runs guards scheduled trace)
    (formed : after.WellFormed) (same : after.index = runs.index) :
    Registered tz after guards scheduled trace := by
  refine {registered with formed := formed, owned := ?_, present := ?_}
  · rw [same]
    exact registered.owned
  · rw [same]
    exact registered.present

theorem Registered.numbered (registered : Registered tz runs guards scheduled trace)
    {guard : Guard} (live : Live trace guard) : guard.number < scheduled := by
  obtain ⟨⟨sched,data,time,made⟩,_⟩ := live
  exact registered.fresh _ made guard rfl

theorem Registered.same_slot (registered : Registered tz runs guards scheduled trace)
    {guard other : Guard} (live : Live trace guard) (otherLive : Live trace other)
    (slot : other.index = guard.index) : other = guard := by
  have first := registered.owner guard live
  have second := registered.owner other otherLive
  rw [slot] at second
  exact Option.some.inj (second.symm.trans first)

/-- The run in the slot of a guard is the one that the guard owns. -/
theorem Registered.own (registered : Registered tz runs guards scheduled trace) {guard : Guard}
    (live : Live trace guard) :
    ∃ run, runs.index guard.index = some run ∧ Owns tz trace guard run := by
  obtain ⟨run,found⟩ := Option.isSome_iff_exists.mp (registered.present guard live)
  obtain ⟨other,slot,otherLive,owns⟩ := registered.owned _ run found
  cases registered.same_slot live otherLive slot
  exact ⟨run,found,owns⟩

/-- What one event about one slot does to the register. -/
theorem Registered.change (registered : Registered tz runs guards scheduled trace)
    {guard : Guard} {event : Event Data} {slot : Option (SchedRun Data)}
    (about : Event.About guard event)
    (alone : ∀ other, Live trace other → other.index = guard.index → other = guard)
    (formed : after.WellFormed)
    (changed : after.index = Function.update runs.index guard.index slot)
    (here : ∀ run, slot = some run → Live (trace ++ [event]) guard ∧
      Owns tz (trace ++ [event]) guard run)
    (gone : slot = none → ¬ Live (trace ++ [event]) guard)
    (owner : Live (trace ++ [event]) guard →
      latest (Event.owner? guard.index) (trace ++ [event]) = some guard)
    (more : scheduled ≤ count) (numbered : event.guard? = some guard → guard.number < count)
    (held : ∀ other ∈ kept, Live (trace ++ [event]) other) (distinct : kept.Nodup) :
    Registered tz after kept count (trace ++ [event]) := by
  have elsewhere : ∀ other, other ≠ guard → Live (trace ++ [event]) other →
      Live trace other ∧ other.index ≠ guard.index := by
    intro other apart live
    have before := Live.before about apart live
    exact ⟨before,fun slot => apart (alone other before slot)⟩
  refine ⟨formed,?_,held,distinct,?_,?_,?_⟩
  · intro past member other named
    rcases List.mem_append.mp member with before | now
    · exact Nat.lt_of_lt_of_le (registered.fresh past before other named) more
    · rw [List.mem_singleton.mp now] at named
      cases about with
      | executed execution slot => cases named
      | _ => cases named; exact numbered rfl
  · intro key run found
    rw [changed] at found
    by_cases same : key = guard.index
    · subst same
      rw [Function.update_self] at found
      obtain ⟨live,owns⟩ := here run found
      exact ⟨guard,rfl,live,owns⟩
    · rw [Function.update_of_ne same] at found
      obtain ⟨other,rfl,live,owns⟩ := registered.owned key run found
      have unstopped : ∀ sched data, event ≠ .stopped other sched data := by
        rintro sched data rfl
        cases about
        exact same rfl
      exact ⟨other,rfl,live.keep unstopped,owns.apart about same⟩
  · intro other live
    rw [changed]
    by_cases same : other = guard
    · subst same
      rw [Function.update_self]
      by_contra empty
      rw [Option.not_isSome_iff_eq_none] at empty
      exact gone empty live
    · obtain ⟨before,apart⟩ := elsewhere other same live
      rw [Function.update_of_ne apart]
      exact registered.present other before
  · intro other live
    by_cases same : other = guard
    · subst same
      exact owner live
    · obtain ⟨before,apart⟩ := elsewhere other same live
      rw [latest_owner_apart about apart]
      exact registered.owner other before

end Registered

section Operations
variable {tz : Local} {w : World Data}

def World.Registered (tz : Local) (w : World Data) : Prop :=
  ScheduleRunner.Registered tz w.data.runs w.guards w.scheduled w.trace

/-- The runs are as they were but for one slot. -/
def World.Changes (w next : World Data) (key : Nat) (run : Option (SchedRun Data)) : Prop :=
  next.data.runs.index = Function.update w.data.runs.index key run

theorem schedule_spec (registered : w.Registered tz) (sched : Schedule) (data : Data) (now : Int) :
    ∃ next key, w.schedule tz sched data now = some next ∧ w.data.runs.index key = none ∧
      w.Changes next key (some (SchedRun.new tz sched data now)) ∧
      next.guards = w.guards ++ [⟨w.scheduled,key⟩] ∧
      next.trace = w.trace ++ [.scheduled ⟨w.scheduled,key⟩ sched data now] ∧
      next.Registered tz := by
  obtain ⟨runs,key,inserted,free,changed,formed⟩ :=
    IndexMap.insert_spec registered.formed (SchedRun.new tz sched data now)
  let next : World Data := ⟨{w.data with runs := runs},w.guards ++ [⟨w.scheduled,key⟩],
    w.scheduled + 1,now,w.trace ++ [.scheduled ⟨w.scheduled,key⟩ sched data now]⟩
  have done : w.schedule tz sched data now = some next := by
    rw [World.schedule,inserted]
    rfl
  refine ⟨next,key,done,free,changed,rfl,rfl,?_⟩
  have live : Live (w.trace ++ [.scheduled ⟨w.scheduled,key⟩ sched data now])
      ⟨w.scheduled,key⟩ := by
    refine ⟨⟨sched,data,now,by simp⟩,?_⟩
    intro sched data member
    rcases List.mem_append.mp member with before | this
    · exact absurd (registered.fresh _ before _ rfl) (Nat.lt_irrefl _)
    · cases List.mem_singleton.mp this
  have about : Event.About ⟨w.scheduled,key⟩ (.scheduled ⟨w.scheduled,key⟩ sched data now) :=
    .scheduled sched data now
  apply Registered.change registered about _ formed changed
  · intro run made
    cases made
    refine ⟨live,⟨now,?_⟩,?_,now,?_,rfl⟩
    · simp [latest_append,Event.schedule?,SchedRun.new,SchedRun.updateNextRun]
    · simp [latest_append,Event.data?,SchedRun.new,SchedRun.updateNextRun]
    · simp [latest_append,Event.computed?]
  · exact fun impossible => by cases impossible
  · intro _
    simp [latest_append,Event.owner?]
  · exact Nat.le_succ _
  · exact fun _ => Nat.lt_succ_self _
  · intro other member
    rcases List.mem_append.mp member with old | new
    · exact (registered.held other old).keep (by simp)
    · rw [List.mem_singleton.mp new]
      exact live
  · refine List.nodup_append.mpr ⟨registered.distinct,List.nodup_singleton _,?_⟩
    rintro other old _ new rfl
    have before := registered.numbered (registered.held other old)
    rw [List.mem_singleton.mp new] at before
    exact absurd before (Nat.lt_irrefl _)
  · intro other live slot
    have taken := registered.present other live
    rw [slot,free] at taken
    cases taken

/-- What an event about a live run other than its end does to the register. -/
private theorem Registered.update {runs after : IndexMap (SchedRun Data)} {guards : List Guard}
    {scheduled : Nat} {trace : List (Event Data)} {guard : Guard} {event : Event Data}
    {run : SchedRun Data} (registered : ScheduleRunner.Registered tz runs guards scheduled trace)
    (live : Live trace guard) (about : Event.About guard event)
    (going : ∀ other sched data, event ≠ .stopped other sched data)
    (formed : after.WellFormed)
    (changed : after.index = Function.update runs.index guard.index (some run))
    (owns : Owns tz (trace ++ [event]) guard run) :
    ScheduleRunner.Registered tz after guards scheduled (trace ++ [event]) := by
  have still : Live (trace ++ [event]) guard := live.keep (going guard)
  apply registered.change about _ formed changed
  · intro made same
    cases same
    exact ⟨still,owns⟩
  · exact fun impossible => by cases impossible
  · intro _
    have before := registered.owner guard live
    rw [latest_append]
    cases about with
    | scheduled sched data time => simp [Event.owner?]
    | stopped sched data => exact absurd rfl (going guard sched data)
    | _ => simpa [Event.owner?] using before
  · exact Nat.le_refl _
  · exact fun _ => registered.numbered live
  · intro other member
    exact (registered.held other member).keep (going other)
  · exact registered.distinct
  · intro other otherLive slot
    exact registered.same_slot live otherLive slot

theorem updateSchedule_spec (registered : w.Registered tz) {guard : Guard}
    (live : Live w.trace guard) (newSchedule : Schedule) (now : Int) :
    ∃ next run, w.updateSchedule tz guard newSchedule now = some next ∧
      w.data.runs.index guard.index = some run ∧
      w.Changes next guard.index
        (some ⟨newSchedule,run.data,newSchedule.nextRunAfter tz now⟩) ∧
      next.guards = w.guards ∧ next.trace = w.trace ++ [.scheduleUpdated guard newSchedule now] ∧
      next.Registered tz := by
  obtain ⟨run,found,owns⟩ := registered.own live
  obtain ⟨runs,updated,changed,kept⟩ := IndexMap.update_live found
    (SchedRun.updateSchedule tz newSchedule now)
  let next : World Data := {w with
    data := {w.data with runs := runs}
    clock := now
    trace := w.trace ++ [.scheduleUpdated guard newSchedule now]}
  have done : w.updateSchedule tz guard newSchedule now = some next := by
    rw [World.updateSchedule,updated]
    rfl
  refine ⟨next,run,done,found,changed,rfl,rfl,?_⟩
  apply Registered.update registered live (.scheduleUpdated newSchedule now) (by simp)
    (kept registered.formed) changed
  refine ⟨⟨now,?_⟩,?_,now,?_,rfl⟩
  · simp [latest_append,Event.schedule?,SchedRun.updateSchedule,SchedRun.updateNextRun]
  · simpa [latest_append,Event.data?,SchedRun.updateSchedule,SchedRun.updateNextRun]
      using owns.data
  · simp [latest_append,Event.computed?]

theorem updateData_spec (registered : w.Registered tz) {guard : Guard}
    (live : Live w.trace guard) (newData : Data) :
    ∃ next run, w.updateData guard newData = some next ∧
      w.data.runs.index guard.index = some run ∧
      w.Changes next guard.index (some {run with data := newData}) ∧
      next.guards = w.guards ∧ next.trace = w.trace ++ [.dataUpdated guard newData] ∧
      next.Registered tz := by
  obtain ⟨run,found,⟨since,sched⟩,data,now,computed,cached⟩ := registered.own live
  obtain ⟨runs,updated,changed,kept⟩ := IndexMap.update_live found
    (fun run => (run.data,{run with data := newData}))
  let next : World Data := {w with
    data := {w.data with runs := runs}
    trace := w.trace ++ [.dataUpdated guard newData]}
  have done : w.updateData guard newData = some next := by
    rw [World.updateData,updated]
    rfl
  refine ⟨next,run,done,found,changed,rfl,rfl,?_⟩
  apply Registered.update registered live (.dataUpdated newData) (by simp)
    (kept registered.formed) changed
  refine ⟨⟨since,?_⟩,?_,now,?_,cached⟩
  · simpa [latest_append,Event.schedule?] using sched
  · simp [latest_append,Event.data?]
  · simpa [latest_append,Event.computed?] using computed

theorem stop_spec (registered : w.Registered tz) {guard : Guard} (live : Live w.trace guard) :
    ∃ next run, w.stop guard = some next ∧ w.data.runs.index guard.index = some run ∧
      Owns tz w.trace guard run ∧ w.Changes next guard.index none ∧
      next.guards = w.guards.erase guard ∧
      next.trace = w.trace ++ [.stopped guard run.sched run.data] ∧ next.Registered tz := by
  obtain ⟨run,found,owns⟩ := registered.own live
  obtain ⟨runs,removed,changed,kept⟩ := IndexMap.remove_live found
  let next : World Data := {w with
    data := {w.data with runs := runs}
    guards := w.guards.erase guard
    trace := w.trace ++ [.stopped guard run.sched run.data]}
  have done : w.stop guard = some next := by
    rw [World.stop,removed]
    rfl
  refine ⟨next,run,done,found,owns,changed,rfl,rfl,?_⟩
  have dead : ¬ Live (w.trace ++ [.stopped guard run.sched run.data]) guard := by
    rintro ⟨_,unstopped⟩
    exact unstopped run.sched run.data (by simp)
  apply Registered.change registered (.stopped run.sched run.data) _ (kept registered.formed)
    changed
  · exact fun _ impossible => by cases impossible
  · exact fun _ => dead
  · exact fun still => absurd still dead
  · exact Nat.le_refl _
  · exact fun _ => registered.numbered live
  · intro other member
    obtain ⟨apart,held⟩ := registered.distinct.mem_erase_iff.mp member
    apply (registered.held other held).keep
    intro sched data same
    cases same
    exact apart rfl
  · exact registered.distinct.erase guard
  · intro other otherLive slot
    exact registered.same_slot live otherLive slot

end Operations

section Passes
variable {tz : Local} {chrono : CDuration} {timekeeping : Timekeeping}
  {guards : List Guard} {scheduled : Nat} {trace : List (Event Data)}

/-- A visit is a firing of the run in the slot, or it leaves the slot and the trace alone. -/
theorem visit_fires (tz : Local) (chrono : CDuration) (readings : Readings) (walk : Walk Data)
    (key : Nat) (run : SchedRun Data) :
    ((visit tz chrono readings walk key run).1.executed = walk.executed ∧
        (visit tz chrono readings walk key run).2 = run) ∨
      ∃ occurrence, run.nextRun = some occurrence ∧ occurrence ≤ readings (2 * key) ∧
        (visit tz chrono readings walk key run).1.executed = walk.executed ++
          [⟨key,run.data,occurrence,readings (2 * key),readings (2 * key + 1)⟩] ∧
        (visit tz chrono readings walk key run).2 =
          run.updateNextRun tz (readings (2 * key + 1)) := by
  have visited := visit_visited tz chrono readings walk key run
  generalize visit tz chrono readings walk key run = result at visited
  cases visited with
  | executed occurrence _ next due => exact .inr ⟨occurrence,next,due,rfl,rfl⟩
  | _ => exact .inl ⟨rfl,rfl⟩

/-- The run in a slot is executed, and its next run computed again. -/
structure Fires (tz : Local) (readings : Readings) (runs after : IndexMap (SchedRun Data))
    (execution : Execution Data) (run : SchedRun Data) : Prop where
  live : runs.index execution.index = some run
  data : execution.data = run.data
  next : run.nextRun = some execution.occurrence
  due : execution.occurrence ≤ execution.time
  time : execution.time = readings (2 * execution.index)
  recomputed : execution.recomputed = readings (2 * execution.index + 1)
  formed : runs.WellFormed → after.WellFormed
  changed : after.index = Function.update runs.index execution.index
    (some (run.updateNextRun tz execution.recomputed))

/-- An invariant of the slots and the trace that a pass keeps because each firing does. -/
structure Kept (tz : Local) (readings : Readings)
    (holds : IndexMap (SchedRun Data) → List (Event Data) → Prop) : Prop where
  same : ∀ runs after trace, holds runs trace → (runs.WellFormed → after.WellFormed) →
    after.index = runs.index → holds after trace
  fire : ∀ runs after trace execution run, holds runs trace →
    Fires tz readings runs after execution run → holds after (trace ++ [.executed execution])

variable {readings : Readings} {holds : IndexMap (SchedRun Data) → List (Event Data) → Prop}

theorem Kept.walk (kept : Kept tz readings holds) {runs : IndexMap (SchedRun Data)}
    (start : holds runs trace) (walk : Walk Data) (fresh : walk.executed = []) :
    holds (runs.forMut (visit tz chrono readings) walk).2
      (trace ++ (runs.forMut (visit tz chrono readings) walk).1.executed.map .executed) := by
  apply @IndexMap.forMut_steps _ _ _
    (fun walk map => holds map (trace ++ walk.executed.map .executed)) _ runs walk
      (by simpa [fresh])
  intro walk map key run after here live updated
  obtain ⟨result,done,changed,formed⟩ :=
    IndexMap.update_live live (fun run => ((),(visit tz chrono readings walk key run).2))
  cases done.symm.trans updated
  rcases visit_fires tz chrono readings walk key run with
    ⟨still,unchanged⟩ | ⟨occurrence,next,due,fired,recomputed⟩
  · rw [unchanged,Function.update_eq_self_iff.mpr live.symm] at changed
    rw [still]
    exact kept.same _ _ _ here formed changed
  · rw [recomputed] at changed
    rw [fired,List.map_append,← List.append_assoc]
    exact kept.fire _ _ _ _ run here ⟨live,rfl,next,due,rfl,rfl,formed,changed⟩

theorem Kept.pass (kept : Kept tz readings holds) (chrono : CDuration) {data : RunnerData Data}
    (start : holds data.runs trace) (waitPeriod : WaitPeriod) :
    holds (loopBody tz chrono readings data waitPeriod).data.runs
      (trace ++ (loopBody tz chrono readings data waitPeriod).executed.map .executed) := by
  cases quit : data.quit with
  | true =>
    rw [loopBody_quit tz chrono quit]
    simpa using start
  | false =>
    rw [loopBody_going tz chrono quit]
    exact kept.walk start _ rfl

theorem registered_kept :
    Kept tz readings (fun (runs : IndexMap (SchedRun Data)) trace =>
      ScheduleRunner.Registered tz runs guards scheduled trace) where
  same runs after trace registered formed same := registered.congr (formed registered.formed) same
  fire runs after trace execution run registered fires := by
    obtain ⟨guard,slot,alive,⟨since,sched⟩,data,_⟩ := registered.owned _ run fires.live
    have changed := fires.changed
    rw [← slot] at changed
    apply registered.update alive (.executed execution slot.symm) (by simp)
      (fires.formed registered.formed) changed
    refine ⟨⟨since,?_⟩,?_,execution.recomputed,?_,rfl⟩
    · simpa [latest_append,Event.schedule?] using sched
    · simpa [latest_append,Event.data?] using data
    · simp [latest_append,Event.computed?,slot]

end Passes

section Runs
variable (tz : Local) (chrono : CDuration) (timekeeping : Timekeeping)

theorem registered_initial (clock : Int) : (World.new clock : World Data).Registered tz where
  formed := IndexMap.new_wellFormed
  fresh event member := by cases member
  held guard member := by cases member
  distinct := List.nodup_nil
  owned key run found := by cases found
  present guard live := by
    obtain ⟨⟨_,_,_,made⟩,_⟩ := live
    cases made
  owner guard live := by
    obtain ⟨⟨_,_,_,made⟩,_⟩ := live
    cases made

/-- All that a call of a client does: which slot it changes and into what, and what is written down
of it. The runner is dropped last, and that changes no slot. -/
inductive Called (w next : World Data) : Op Data → Prop
  | scheduled (sched : Schedule) (data : Data) (now : Int) (key : Nat)
      (free : w.data.runs.index key = none)
      (changed : w.Changes next key (some (SchedRun.new tz sched data now)))
      (returned : next.guards = w.guards ++ [⟨w.scheduled,key⟩])
      (recorded : next.trace = w.trace ++ [.scheduled ⟨w.scheduled,key⟩ sched data now]) :
      Called w next (.schedule sched data now)
  | scheduleUpdated (guard : Guard) (newSchedule : Schedule) (now : Int) (run : SchedRun Data)
      (held : guard ∈ w.guards) (found : w.data.runs.index guard.index = some run)
      (changed : w.Changes next guard.index
        (some ⟨newSchedule,run.data,newSchedule.nextRunAfter tz now⟩))
      (recorded : next.trace = w.trace ++ [.scheduleUpdated guard newSchedule now]) :
      Called w next (.updateSchedule guard newSchedule now)
  | dataUpdated (guard : Guard) (newData : Data) (run : SchedRun Data) (held : guard ∈ w.guards)
      (found : w.data.runs.index guard.index = some run)
      (changed : w.Changes next guard.index (some {run with data := newData}))
      (recorded : next.trace = w.trace ++ [.dataUpdated guard newData]) :
      Called w next (.updateData guard newData)
  | stopped (guard : Guard) (run : SchedRun Data) (held : guard ∈ w.guards)
      (found : w.data.runs.index guard.index = some run)
      (changed : w.Changes next guard.index none)
      (recorded : next.trace = w.trace ++ [.stopped guard run.sched run.data]) :
      Called w next (.stop guard)
  | quit (unchanged : next.data.runs = w.data.runs) (recorded : next.trace = w.trace) :
      Called w next .quit

theorem update_called {w next : World Data} (registered : w.Registered tz) (op : Op Data)
    (updated : update tz timekeeping op w next) : Called tz w next op ∧ next.Registered tz := by
  cases op with
  | schedule sched data now =>
    obtain ⟨_,_,made⟩ := updated
    obtain ⟨result,key,done,free,changed,returned,recorded,kept⟩ :=
      schedule_spec registered sched data now
    cases done.symm.trans made
    exact ⟨.scheduled sched data now key free changed returned recorded,kept⟩
  | updateSchedule guard newSchedule now =>
    obtain ⟨member,_,made⟩ := updated
    obtain ⟨result,run,done,found,changed,_,recorded,kept⟩ :=
      updateSchedule_spec registered (registered.held guard member) newSchedule now
    cases done.symm.trans made
    exact ⟨.scheduleUpdated guard newSchedule now run member found changed recorded,kept⟩
  | updateData guard newData =>
    obtain ⟨member,made⟩ := updated
    obtain ⟨result,run,done,found,changed,_,recorded,kept⟩ :=
      updateData_spec registered (registered.held guard member) newData
    cases done.symm.trans made
    exact ⟨.dataUpdated guard newData run member found changed recorded,kept⟩
  | stop guard =>
    obtain ⟨member,made⟩ := updated
    obtain ⟨result,run,done,found,_,changed,_,recorded,kept⟩ :=
      stop_spec registered (registered.held guard member)
    cases done.symm.trans made
    exact ⟨.stopped guard run member found changed recorded,kept⟩
  | quit =>
    obtain ⟨_,_,rfl⟩ := updated
    exact ⟨.quit rfl rfl,registered⟩

theorem registered_update {w next : World Data} (registered : w.Registered tz) (op : Op Data)
    (updated : update tz timekeeping op w next) : next.Registered tz :=
  (update_called tz timekeeping registered op updated).2

theorem registered_forget {w : World Data} (registered : w.Registered tz) (guard : Guard) :
    (w.forget guard).Registered tz where
  formed := registered.formed
  fresh := registered.fresh
  held other member := registered.held other (List.mem_of_mem_erase member)
  distinct := registered.distinct.erase guard
  owned := registered.owned
  present := registered.present
  owner := registered.owner

theorem registered_reachable {clock : Int} {s : State Data}
    (reached : Reachable (runner tz chrono timekeeping) (startNew clock) s) :
    s.data.Registered tz := by
  apply reached.invariant (fun s => s.data.Registered tz) (registered_initial tz clock)
  intro before label after registered step
  cases step with
  | update op data _ updated => exact registered_update tz timekeeping registered op updated
  | outside data changed =>
    cases changed with
    | forget guard _ => exact registered_forget tz registered guard
  | pass exit data thread _ ran =>
    obtain ⟨readings,_,_,_,rfl⟩ := ran
    exact registered_kept.pass chrono registered _
  | sleep => exact registered
  | release => exact registered

/-- No guard reaches what another one is responsible for, whatever is done next. -/
structure Isolated (w : World Data) : Prop where
  distinct : w.guards.Pairwise (fun guard other => guard.index ≠ other.index)
  own : ∀ guard ∈ w.guards, latest (Event.owner? guard.index) w.trace = some guard ∧
    ∃ run, w.data.runs.index guard.index = some run ∧ Owns tz w.trace guard run
  schedule : ∀ sched data now, ∃ next key, w.schedule tz sched data now = some next ∧
    w.data.runs.index key = none ∧ w.Changes next key (some (SchedRun.new tz sched data now)) ∧
    next.guards = w.guards ++ [⟨w.scheduled,key⟩]
  updateSchedule : ∀ guard ∈ w.guards, ∀ newSchedule now, ∃ next run,
    w.updateSchedule tz guard newSchedule now = some next ∧
      w.data.runs.index guard.index = some run ∧
      w.Changes next guard.index (some ⟨newSchedule,run.data,newSchedule.nextRunAfter tz now⟩)
  updateData : ∀ guard ∈ w.guards, ∀ newData, ∃ next run,
    w.updateData guard newData = some next ∧ w.data.runs.index guard.index = some run ∧
      w.Changes next guard.index (some {run with data := newData})
  stop : ∀ guard ∈ w.guards, ∃ next sched data since, w.stop guard = some next ∧
    next.trace = w.trace ++ [.stopped guard sched data] ∧
    latest (Event.schedule? guard) w.trace = some (sched,since) ∧
    latest (Event.data? guard) w.trace = some data ∧ w.Changes next guard.index none

theorem guards_isolated {clock : Int} {s : State Data}
    (reached : Reachable (runner tz chrono timekeeping) (startNew clock) s) :
    Isolated tz s.data := by
  have registered := registered_reachable tz chrono timekeeping reached
  refine ⟨?_,?_,?_,?_,?_,?_⟩
  · apply registered.distinct.imp_of_mem
    intro guard other member otherMember different slot
    exact different (registered.same_slot (registered.held other otherMember)
      (registered.held guard member) slot)
  · intro guard member
    have live := registered.held guard member
    exact ⟨registered.owner guard live,registered.own live⟩
  · intro sched data now
    obtain ⟨next,key,done,free,changes,added,_⟩ := schedule_spec registered sched data now
    exact ⟨next,key,done,free,changes,added⟩
  · intro guard member newSchedule now
    obtain ⟨next,run,done,found,changes,_⟩ :=
      updateSchedule_spec registered (registered.held guard member) newSchedule now
    exact ⟨next,run,done,found,changes⟩
  · intro guard member newData
    obtain ⟨next,run,done,found,changes,_⟩ :=
      updateData_spec registered (registered.held guard member) newData
    exact ⟨next,run,done,found,changes⟩
  · intro guard member
    obtain ⟨next,run,done,_,⟨⟨since,sched⟩,data,_⟩,changes,_,stopped,_⟩ :=
      stop_spec registered (registered.held guard member)
    exact ⟨next,run.sched,run.data,since,done,stopped,sched,data,changes⟩

end Runs

open ChronoModel (localAt ymdHms) in
/-- The second guard gets the slot of the first one, which has been stopped. -/
theorem guards_isolated_after_reuse : ∃ s : State Nat, s.data.guards = [⟨1,0⟩] ∧
    Event.stopped ⟨0,0⟩ (mondays .none .none) 1 ∈ s.data.trace ∧ Isolated (localAt 0) s.data := by
  let now := ymdHms 2016 5 1 0 0 0
  let loop : Monitor.Loop (Op Nat) (World Nat) Thread :=
    runner (localAt 0) ChronoModel.duration OneInstant
  have made : ∃ first second third,
      (World.new now).schedule (localAt 0) (mondays .none .none) 1 now = some first ∧
      first.stop ⟨0,0⟩ = some second ∧
      second.schedule (localAt 0) (mondays .none .none) 2 now = some third ∧
      first.guards = [⟨0,0⟩] ∧ third.guards = [⟨1,0⟩] ∧
      Event.stopped ⟨0,0⟩ (mondays .none .none) 1 ∈ third.trace ∧ second.data.quit = false := by
    refine ⟨_,_,_,rfl,rfl,rfl,rfl,rfl,?_,rfl⟩
    exact List.mem_append_left _ (List.mem_append_right _ (List.mem_singleton_self _))
  obtain ⟨first,second,third,scheduled,stopped,again,held,reused,recorded,running⟩ := made
  have one : Step loop (startNew now) (.update (.schedule (mondays .none .none) 1 now))
      ⟨.top,first,⟨.wait,now⟩⟩ := .update _ first rfl ⟨rfl,fun _ => rfl,scheduled⟩
  have two : Step loop ⟨.top,first,⟨.wait,now⟩⟩ (.update (.stop ⟨0,0⟩))
      ⟨.top,second,⟨.wait,now⟩⟩ := .update _ second rfl ⟨by simp [held],stopped⟩
  have three : Step loop ⟨.top,second,⟨.wait,now⟩⟩
      (.update (.schedule (mondays .none .none) 2 now)) ⟨.top,third,⟨.wait,now⟩⟩ :=
    .update _ third rfl ⟨running,fun _ => rfl,again⟩
  have reached : Reachable loop (startNew now) ⟨.top,third,⟨.wait,now⟩⟩ :=
    ((Relation.ReflTransGen.single ⟨_,one⟩).tail ⟨_,two⟩).tail ⟨_,three⟩
  exact ⟨_,reused,recorded,guards_isolated _ _ _ reached⟩

end Rinklers.ScheduleRunner
