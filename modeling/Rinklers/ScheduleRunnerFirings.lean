import Rinklers.ScheduleRunnerGuards
import Rinklers.ScheduleSearch

/-! Which firings there can be, when the clock never goes back. A `next_run` is a cached value;
what fires is what was computed from the schedule that is current, at a moment since it was set. -/
namespace Rinklers.ScheduleRunner
open Foundation
open Foundation.Monitor (Step Reachable)

variable {Data : Type}

/-- The clock never goes back, but it may stand still. -/
def NonDecreasing : Timekeeping := fun clock readings =>
  clock ≤ readings 0 ∧ ∀ i j, i ≤ j → readings i ≤ readings j

theorem NonDecreasing.le {clock : Int} {readings : Readings} (kept : NonDecreasing clock readings)
    (k : Nat) : clock ≤ readings k :=
  kept.1.trans (kept.2 0 k (Nat.zero_le k))

section Current
variable (tz : Local)

/-- A firing of the run that belongs to `guard`, which holds `sched` since `since` and whose next
run was computed at `computed`. -/
structure Current (before : List (Event Data)) (execution : Execution Data) (guard : Guard)
    (sched : Schedule) (since computed : Int) : Prop where
  slot : guard.index = execution.index
  live : Live before guard
  owner : latest (Event.owner? execution.index) before = some guard
  data : latest (Event.data? guard) before = some execution.data
  schedule : latest (Event.schedule? guard) before = some (sched,since)
  recomputed : latest (Event.computed? guard) before = some computed
  notEarlier : since ≤ computed
  next : sched.nextRunAfter tz computed = some execution.occurrence
  due : execution.occurrence ≤ execution.time

def Firings (trace : List (Event Data)) : Prop :=
  ∀ before execution, before ++ [.executed execution] <+: trace →
    ∃ guard sched since computed, Current tz before execution guard sched since computed

/-- A next run is never computed before its schedule is set. -/
def Timed (clock : Int) (trace : List (Event Data)) : Prop :=
  ∀ guard sched since, latest (Event.schedule? guard) trace = some (sched,since) →
    since ≤ clock ∧ ∀ computed, latest (Event.computed? guard) trace = some computed →
      since ≤ computed

/-- An event that a clock which never goes back allows. -/
structure Follows (clock : Int) (event : Event Data) (later : Int) : Prop where
  after : clock ≤ later
  set : ∀ guard sched since, event.schedule? guard = some (sched,since) →
    since ≤ later ∧ event.computed? guard = some since
  computed : ∀ guard computed, event.computed? guard = some computed → clock ≤ computed

variable {tz} {clock later : Int} {trace : List (Event Data)} {event : Event Data}

theorem Timed.append (timed : Timed clock trace) (follows : Follows clock event later) :
    Timed later (trace ++ [event]) := by
  intro guard sched since found
  rw [latest_append] at found ⊢
  cases set : event.schedule? guard with
  | some now =>
    rw [set,Option.some_or] at found
    cases found
    obtain ⟨reached,same⟩ := follows.set guard sched since set
    rw [same,Option.some_or]
    refine ⟨reached,?_⟩
    intro computed equal
    cases equal
    exact le_refl _
  | none =>
    rw [set,Option.none_or] at found
    obtain ⟨reached,kept⟩ := timed guard sched since found
    refine ⟨reached.trans follows.after,?_⟩
    intro computed
    cases again : event.computed? guard with
    | some now =>
      intro equal
      cases equal
      exact reached.trans (follows.computed guard _ again)
    | none => exact kept computed

theorem Firings.append (firings : Firings tz trace)
    (here : ∀ execution, event = .executed execution →
      ∃ guard sched since computed, Current tz trace execution guard sched since computed) :
    Firings tz (trace ++ [event]) := by
  intro before execution fired
  rcases List.prefix_concat_iff.mp fired with whole | earlier
  · obtain ⟨rfl,last⟩ := List.append_inj' whole rfl
    exact here execution (List.singleton_inj.mp last).symm
  · exact firings before execution earlier

end Current

section Runs
variable {tz : Local} {chrono : CDuration}

/-- What every moment of a run keeps, with all that has fired. -/
structure Audited (tz : Local) (clock : Int) (guards : List Guard) (scheduled : Nat)
    (runs : IndexMap (SchedRun Data)) (trace : List (Event Data)) : Prop where
  registered : Registered tz runs guards scheduled trace
  timed : Timed clock trace
  firings : Firings tz trace

def World.Audited (tz : Local) (w : World Data) : Prop :=
  ScheduleRunner.Audited tz w.clock w.guards w.scheduled w.data.runs w.trace

theorem update_follows {w next : World Data} {op : Op Data}
    (updated : update tz NonDecreasing op w next) :
    (next.trace = w.trace ∧ next.clock = w.clock) ∨
      ∃ event, next.trace = w.trace ++ [event] ∧ Follows w.clock event next.clock ∧
        ∀ execution, event ≠ .executed execution := by
  cases op with
  | schedule sched data now =>
    obtain ⟨_,⟨after,_⟩,made⟩ := updated
    obtain ⟨⟨runs,index⟩,_,rfl⟩ := Option.map_eq_some_iff.mp made
    refine .inr ⟨_,rfl,⟨after,?_,?_⟩,by simp⟩
    · simp +contextual [Event.schedule?,Event.computed?]
    · simp +contextual [Event.computed?,after]
  | updateSchedule guard newSchedule now =>
    obtain ⟨_,⟨after,_⟩,made⟩ := updated
    obtain ⟨⟨result,runs⟩,_,rfl⟩ := Option.map_eq_some_iff.mp made
    refine .inr ⟨_,rfl,⟨after,?_,?_⟩,by simp⟩
    · simp +contextual [Event.schedule?,Event.computed?]
    · simp +contextual [Event.computed?,after]
  | updateData guard newData =>
    obtain ⟨_,made⟩ := updated
    obtain ⟨⟨result,runs⟩,_,rfl⟩ := Option.map_eq_some_iff.mp made
    refine .inr ⟨_,rfl,⟨le_refl _,?_,?_⟩,by simp⟩
    · simp [Event.schedule?]
    · simp [Event.computed?]
  | stop guard =>
    obtain ⟨_,made⟩ := updated
    obtain ⟨⟨removed,runs⟩,_,rest⟩ := Option.bind_eq_some_iff.mp made
    obtain ⟨run,_,rfl⟩ := Option.map_eq_some_iff.mp rest
    refine .inr ⟨_,rfl,⟨le_refl _,?_,?_⟩,by simp⟩
    · simp [Event.schedule?]
    · simp [Event.computed?]
  | quit =>
    obtain ⟨_,_,rfl⟩ := updated
    exact .inl ⟨rfl,rfl⟩

theorem audited_kept {clock : Int} {guards : List Guard} {scheduled : Nat} {readings : Readings}
    (forward : NonDecreasing clock readings) :
    Kept tz readings (@Audited Data tz clock guards scheduled) where
  same runs after trace audited formed same :=
    {audited with registered := audited.registered.congr (formed audited.registered.formed) same}
  fire runs after trace execution run audited fires := by
    have computedAfter : clock ≤ execution.recomputed := by
      rw [fires.recomputed]
      exact forward.le _
    refine ⟨registered_kept.fire _ _ _ _ _ audited.registered fires,?_,?_⟩
    · apply audited.timed.append ⟨le_refl _,?_,?_⟩
      · simp [Event.schedule?]
      · intro guard computed found
        rw [Event.computed?] at found
        split at found <;> cases found
        exact computedAfter
    · apply audited.firings.append
      rintro _ ⟨⟩
      obtain ⟨guard,slot,live,⟨since,sched⟩,data,computed,found,next⟩ :=
        audited.registered.owned _ run fires.live
      have owner := audited.registered.owner guard live
      rw [slot] at owner
      refine ⟨guard,run.sched,since,computed,slot,live,owner,?_,sched,found,?_,?_,fires.due⟩
      · rw [fires.data,data]
      · exact (audited.timed guard run.sched since sched).2 computed found
      · rw [← next,fires.next]

theorem audited_reachable {clock : Int} {s : State Data}
    (reached : Reachable (runner tz chrono NonDecreasing) (startNew clock) s) :
    s.data.Audited tz := by
  have initial : (World.new clock : World Data).Audited tz := by
    refine ⟨registered_initial tz clock,?_,?_⟩
    · intro guard sched since found
      cases found
    · intro before execution fired
      have empty := List.prefix_nil.mp fired
      simp at empty
  apply reached.invariant (fun s => s.data.Audited tz) initial
  intro before label after audited step
  cases step with
  | update op data _ updated =>
    have registered := registered_update tz NonDecreasing audited.registered op updated
    rcases update_follows updated with ⟨trace,time⟩ | ⟨event,trace,follows,quiet⟩
    · refine ⟨registered,?_,?_⟩
      · rw [trace,time]
        exact audited.timed
      · rw [trace]
        exact audited.firings
    · refine ⟨registered,?_,?_⟩
      · rw [trace]
        exact audited.timed.append follows
      · rw [trace]
        exact audited.firings.append (fun execution same => absurd same (quiet execution))
  | outside data changed =>
    cases changed with
    | forget guard _ =>
      exact ⟨registered_forget tz audited.registered guard,audited.timed,audited.firings⟩
  | pass exit data thread _ ran =>
    obtain ⟨readings,forward,_,_,rfl⟩ := ran
    have passed := (audited_kept forward).pass chrono audited before.thread.waitPeriod
    refine {passed with timed := ?_}
    intro guard sched since found
    obtain ⟨reached,kept⟩ := passed.timed guard sched since found
    exact ⟨reached.trans (forward.le _),kept⟩
  | sleep => exact audited
  | release => exact audited

/-- What a call means for an execution after it, where `between` is what happened in the meantime:
it is of the schedule and the data that were set then or later, and none is of a stopped run. -/
def Heeded (tz : Local) (called between : List (Event Data)) (execution : Execution Data) :
    Op Data → Prop
  | .updateSchedule guard newSchedule now =>
    latest (Event.owner? execution.index) (called ++ between) = some guard →
      ∃ sched since computed, Current tz (called ++ between) execution guard sched since computed ∧
        ((sched,since) = (newSchedule,now) ∨
          ∃ event ∈ between, event.schedule? guard = some (sched,since))
  | .updateData guard newData =>
    latest (Event.owner? execution.index) (called ++ between) = some guard →
      execution.data = newData ∨ ∃ event ∈ between, event.data? guard = some execution.data
  | .stop guard => latest (Event.owner? execution.index) (called ++ between) ≠ some guard
  | .schedule _ _ _ | .quit => True

theorem Current.unstopped {before : List (Event Data)} {execution : Execution Data} {guard : Guard}
    {sched : Schedule} {since computed : Int}
    (current : Current tz before execution guard sched since computed) {other : Guard}
    {stoppedSched : Schedule} {stoppedData : Data}
    (stopped : .stopped other stoppedSched stoppedData ∈ before) :
    latest (Event.owner? execution.index) before ≠ some other := by
  intro owner
  cases current.owner.symm.trans owner
  exact current.live.2 stoppedSched stoppedData stopped

theorem Called.heeded {w next : World Data} {op : Op Data} (called : Called tz w next op)
    {between : List (Event Data)} {execution : Execution Data} {owner : Guard} {sched : Schedule}
    {since computed : Int}
    (current : Current tz (next.trace ++ between) execution owner sched since computed) :
    Heeded tz next.trace between execution op := by
  cases called with
  | scheduled | quit => trivial
  | scheduleUpdated guard newSchedule now run held found changed recorded =>
    intro same
    cases current.owner.symm.trans same
    refine ⟨sched,since,computed,current,?_⟩
    rcases latest_since current.schedule with later | first
    · exact .inr later
    · rw [recorded,latest_append,Event.schedule?,if_pos rfl,Option.some_or] at first
      exact .inl (Option.some.inj first).symm
  | dataUpdated guard newData run held found changed recorded =>
    intro same
    cases current.owner.symm.trans same
    rcases latest_since current.data with later | first
    · exact .inr later
    · rw [recorded,latest_append,Event.data?,if_pos rfl,Option.some_or] at first
      exact .inl (Option.some.inj first).symm
  | stopped guard run held found changed recorded =>
    apply current.unstopped
    rw [recorded]
    exact List.mem_append_left _ (List.mem_append_right _ (List.mem_singleton_self _))

/-- What the runner executes belongs to a run that is live, with its last data, at or after an
occurrence of its last schedule, computed after that was set; a stopped run never fires. Each call
sets what it says, and from then on what fires is of that or of what was set later. -/
theorem only_current_fire {clock : Int} {s : State Data}
    (reached : Reachable (runner tz chrono NonDecreasing) (startNew clock) s) :
    (∀ before execution, before ++ [.executed execution] <+: s.data.trace →
      (∃ guard sched since computed, Current tz before execution guard sched since computed) ∧
        ∀ guard sched data, .stopped guard sched data ∈ before →
          latest (Event.owner? execution.index) before ≠ some guard) ∧
      ∀ op next, Step (runner tz chrono NonDecreasing) s (.update op) next →
        Called tz s.data next.data op ∧
          ∀ later, Reachable (runner tz chrono NonDecreasing) next later → ∀ between execution,
            next.data.trace ++ between ++ [.executed execution] <+: later.data.trace →
              Heeded tz next.data.trace between execution op := by
  have audited := audited_reachable reached
  constructor
  · intro before execution fired
    obtain ⟨guard,sched,since,computed,current⟩ := audited.firings before execution fired
    exact ⟨⟨guard,sched,since,computed,current⟩,fun _ _ _ => current.unstopped⟩
  · intro op next step
    have called : Called tz s.data next.data op := by
      cases step with
      | update _ data _ updated => exact (update_called tz _ audited.registered op updated).1
    refine ⟨called,?_⟩
    intro later on between execution fired
    have again := audited_reachable ((reached.tail ⟨_,step⟩).trans on)
    obtain ⟨guard,sched,since,computed,current⟩ := again.firings _ execution fired
    exact called.heeded current

end Runs

section Once
variable {calendar : Calendar} {offset : Int} {chrono : CDuration}

def Undisturbed (slot : Nat) (events : List (Event Data)) : Prop :=
  ∀ event ∈ events, ∀ guard : Guard, guard.index = slot → event.schedule? guard = none

/-- As long as nobody sets a schedule in a slot, its run fires for later and later occurrences. -/
def Increasing (trace : List (Event Data)) : Prop :=
  ∀ before middle first second,
    before ++ [.executed first] ++ middle ++ [.executed second] <+: trace →
    first.index = second.index → Undisturbed first.index middle →
    first.occurrence < second.occurrence

def Unbounded (trace : List (Event Data)) : Prop :=
  ∀ event ∈ trace, ∀ guard sched since, event.schedule? guard = some (sched,since) →
    sched.fromBound = .none ∧ sched.toBound = .none

theorem Current.computed_le {before : List (Event Data)} {execution : Execution Data}
    {guard : Guard} {sched : Schedule} {since computed : Int}
    (current : Current (fixedLocal calendar offset) before execution guard sched since computed) :
    sched.Occurs (fixedLocal calendar offset) execution.occurrence ∧
      computed ≤ execution.occurrence := by
  have first := nextRunAfter_first calendar offset sched computed
  rw [current.next] at first
  exact ⟨first.1.1,first.1.2.1⟩

/-- The next run in the slot is always computed after the occurrence that fired. -/
theorem computed_later {trace before middle : List (Event Data)} {first : Execution Data}
    (firings : Firings (fixedLocal calendar offset) trace)
    (late : ∀ execution, .executed execution ∈ trace → execution.occurrence < execution.recomputed)
    (part : before ++ [.executed first] ++ middle <+: trace)
    (alone : Undisturbed first.index middle) {guard : Guard} (slot : guard.index = first.index) :
    ∃ computed, latest (Event.computed? guard) (before ++ [.executed first] ++ middle) =
      some computed ∧ first.occurrence < computed := by
  induction middle using List.reverseRecOn generalizing guard with
  | nil =>
    rw [List.append_nil] at part ⊢
    refine ⟨first.recomputed,?_,late first (part.subset (by simp))⟩
    rw [latest_append,Event.computed?,if_pos slot.symm,Option.some_or]
  | append_singleton middle event ih =>
    rw [← List.append_assoc] at part ⊢
    have earlier : before ++ [.executed first] ++ middle <+: trace :=
      (List.prefix_append _ _).trans part
    have ih := @ih earlier (fun event member => alone event (List.mem_append_left _ member))
    obtain ⟨computed,found,after⟩ := ih slot
    have quiet := alone event (by simp) guard slot
    rw [latest_append]
    cases event with
    | executed second =>
      by_cases same : second.index = guard.index
      · -- the run in the slot has fired again, for an occurrence that is later already
        obtain ⟨owner,sched,since,computed,current⟩ := firings _ second part
        obtain ⟨_,again,later⟩ := ih (current.slot.trans (same.trans slot))
        cases current.recomputed.symm.trans again
        have fired := current.computed_le.2
        have past := late second (part.subset (by simp))
        refine ⟨second.recomputed,?_,by omega⟩
        rw [Event.computed?,if_pos same,Option.some_or]
      · exact ⟨computed,by rw [Event.computed?,if_neg same,Option.none_or,found],after⟩
    | scheduled other sched data time =>
      have apart : other ≠ guard := by simpa [Event.schedule?] using quiet
      exact ⟨computed,by rw [Event.computed?,if_neg apart,Option.none_or,found],after⟩
    | scheduleUpdated other sched time =>
      have apart : other ≠ guard := by simpa [Event.schedule?] using quiet
      exact ⟨computed,by rw [Event.computed?,if_neg apart,Option.none_or,found],after⟩
    | dataUpdated other data => exact ⟨computed,found,after⟩
    | stopped other sched data => exact ⟨computed,found,after⟩

theorem increasing_of_late {trace : List (Event Data)}
    (firings : Firings (fixedLocal calendar offset) trace)
    (late : ∀ execution, .executed execution ∈ trace →
      execution.occurrence < execution.recomputed) : Increasing trace := by
  intro before middle first second part same alone
  obtain ⟨guard,sched,since,computed,current⟩ := firings _ second part
  obtain ⟨_,found,later⟩ := computed_later firings late ((List.prefix_append _ _).trans part) alone
    (current.slot.trans same.symm)
  cases current.recomputed.symm.trans found
  have fired := current.computed_le.2
  omega

/-- No event is about the slot. -/
def Untouched (slot : Nat) (events : List (Event Data)) : Prop :=
  ∀ event ∈ events, ∀ guard : Guard, guard.index = slot → ¬ Event.About guard event

theorem Event.silent {event : Event Data} {guard : Guard} (silent : ¬ Event.About guard event) :
    event.schedule? guard = none ∧ event.computed? guard = none := by
  cases event with
  | scheduled other sched data time =>
    have apart : other ≠ guard := by
      rintro rfl
      exact silent (.scheduled sched data time)
    exact ⟨if_neg apart,if_neg apart⟩
  | scheduleUpdated other sched time =>
    have apart : other ≠ guard := by
      rintro rfl
      exact silent (.scheduleUpdated sched time)
    exact ⟨if_neg apart,if_neg apart⟩
  | executed execution =>
    have apart : execution.index ≠ guard.index := fun same => silent (.executed execution same)
    exact ⟨rfl,if_neg apart⟩
  | dataUpdated other data => exact ⟨rfl,rfl⟩
  | stopped other sched data => exact ⟨rfl,rfl⟩

section Untouched
variable {slot : Nat} {events : List (Event Data)} (untouched : Untouched slot events)
  {guard : Guard} (place : guard.index = slot)
include untouched place

theorem Untouched.schedule : ∀ event ∈ events, event.schedule? guard = none :=
  fun event member => (Event.silent (untouched event member guard place)).1

theorem Untouched.computed : ∀ event ∈ events, event.computed? guard = none :=
  fun event member => (Event.silent (untouched event member guard place)).2

theorem Untouched.live {trace : List (Event Data)} (live : Live trace guard) :
    Live (trace ++ events) guard := by
  obtain ⟨⟨sched,data,time,made⟩,unstopped⟩ := live
  refine ⟨⟨sched,data,time,List.mem_append_left _ made⟩,?_⟩
  intro sched data member
  rcases List.mem_append.mp member with before | later
  · exact unstopped sched data before
  · exact untouched _ later guard place (.stopped sched data)

end Untouched

/-- In a zone with a fixed offset and without bounds, the next run goes past an occurrence exactly
when the reference does. -/
theorem next_past_iff {sched : Schedule} (first : sched.fromBound = .none)
    (last : sched.toBound = .none) {occurrence : Int}
    (occurs : sched.Occurs (fixedLocal calendar offset) occurrence) (reference : Int) :
    ∃ next, sched.nextRunAfter (fixedLocal calendar offset) reference = some next ∧
      (occurrence < next ↔ occurrence < reference) := by
  have bounds : OneBound sched.fromBound sched.toBound := by
    rw [first,last]
    exact .none
  have admitted : ∀ instant, sched.Admits (fixedLocal calendar offset) reference instant := by
    intro instant
    rw [admits_oneBound _ bounds,first,last]
    simp
  have computed := nextRunAfter_first calendar offset sched reference
  obtain ⟨later,after,again⟩ := occurs_again calendar offset sched occurs reference
  obtain ⟨next,found,least⟩ := computed.of_mem (show later ∈ _ from ⟨again,after,admitted later⟩)
  refine ⟨next,found,fun past => ?_,fun past => lt_of_lt_of_le past least.1.2.1⟩
  by_contra early
  have notLater := least.2 ⟨occurs,not_lt.mp early,admitted occurrence⟩
  omega

/-- What is stored right after a firing, and until the next event about the slot. -/
theorem stored_next {s : State Data} (audited : s.data.Audited (fixedLocal calendar offset))
    (unbounded : Unbounded s.data.trace) {before after : List (Event Data)}
    {execution : Execution Data} (fired : s.data.trace = before ++ [.executed execution] ++ after)
    (untouched : Untouched execution.index after) :
    ∃ run next, s.data.data.runs.index execution.index = some run ∧ run.nextRun = some next ∧
      (execution.occurrence < next ↔ execution.occurrence < execution.recomputed) := by
  have part : before ++ [.executed execution] <+: s.data.trace := by
    rw [fired]
    exact List.prefix_append _ _
  obtain ⟨guard,sched,since,computed,current⟩ := audited.firings before execution part
  have occurs := current.computed_le.1
  obtain ⟨slot,live,_,_,schedule,_,_,_,_⟩ := current
  have still : Live s.data.trace guard := by
    rw [fired]
    exact untouched.live slot (live.keep (by simp))
  obtain ⟨run,stored,⟨_,same⟩,_,now,recomputed,next⟩ := audited.registered.own still
  rw [fired,latest_quiet (untouched.schedule slot),latest_append,Event.schedule?_executed,
    Option.none_or,schedule] at same
  cases same
  rw [fired,latest_quiet (untouched.computed slot),latest_append,Event.computed?,if_pos slot.symm,
    Option.some_or] at recomputed
  cases recomputed
  rw [slot] at stored
  have set : ∃ event ∈ s.data.trace, event.schedule? guard = some (run.sched,since) := by
    obtain ⟨event,member,set⟩ := List.mem_filterMap.mp (List.mem_of_getLast? schedule)
    exact ⟨event,part.subset (List.mem_append_left _ member),set⟩
  obtain ⟨event,member,set⟩ := set
  obtain ⟨first,last⟩ := unbounded event member guard _ _ set
  obtain ⟨found,compared,past⟩ := next_past_iff first last occurs execution.recomputed
  exact ⟨run,found,stored,next.trans compared,past⟩

/-- No occurrence fires twice in a run in which the next run is always computed later than the
occurrence that fired, and the stored next run is past an occurrence only then. -/
theorem fires_once_exactly {clock : Int} {s : State Data}
    (reached : Reachable (runner (fixedLocal calendar offset) chrono NonDecreasing)
      (startNew clock) s) (unbounded : Unbounded s.data.trace) :
    ((∀ execution, .executed execution ∈ s.data.trace →
        execution.occurrence < execution.recomputed) → Increasing s.data.trace) ∧
      ∀ before execution after, s.data.trace = before ++ [.executed execution] ++ after →
        Untouched execution.index after → ∃ run next,
          s.data.data.runs.index execution.index = some run ∧ run.nextRun = some next ∧
            (execution.occurrence < next ↔ execution.occurrence < execution.recomputed) := by
  have audited := audited_reachable reached
  refine ⟨increasing_of_late audited.firings,?_⟩
  intro before execution after fired untouched
  exact stored_next audited unbounded fired untouched

end Once

section Alone
variable (tz : Local) (chrono : CDuration)

/-- A world in which `schedule` has been called once. -/
def alone (sched : Schedule) (data : Data) (nextRun : Option Int) (clock : Int)
    (trace : List (Event Data)) : World Data :=
  ⟨⟨false,⟨[.element ⟨sched,data,nextRun⟩],none⟩⟩,[⟨0,0⟩],1,clock,trace⟩

variable {sched : Schedule} {data : Data} {now time occurrence : Int} {trace : List (Event Data)}

/-- A run that is due fires when the thread gets the lock. -/
theorem alone_fires {s : State Data} (due : occurrence ≤ time) (forward : now ≤ time)
    (world : s.data = alone sched data (some occurrence) now trace)
    (awake : Monitor.Awake (runner tz chrono NonDecreasing) s) :
    Step (runner tz chrono NonDecreasing) s .pass
      ⟨.holding,alone sched data (sched.nextRunAfter tz time) time
        (trace ++ [.executed ⟨0,data,occurrence,time,time⟩]),⟨.none,time⟩⟩ := by
  refine .pass .next _ _ awake ⟨fun _ => time,?_,?_⟩
  · rw [world]
    exact ⟨forward,monotone_const⟩
  · have ahead := chrono.lt_iff chrono.zero (chrono.between occurrence time)
    rw [chrono.nanos_zero,chrono.nanos_between] at ahead
    have early : chrono.lt chrono.zero (chrono.between occurrence time) = false := by
      rw [Bool.eq_false_iff,ne_eq,ahead]
      omega
    simp [world,alone,loopBody,IndexMap.forMut_single,visit,SchedRun.tillRun,early,
      SchedRun.updateNextRun]

theorem alone_fires_first (sched : Schedule) (data : Data) (forward : now ≤ time)
    (due : occurrence ≤ time) (next : sched.nextRunAfter tz now = some occurrence) :
    Reachable (runner tz chrono NonDecreasing) (startNew now)
      ⟨.holding,alone sched data (sched.nextRunAfter tz time) time
        [.scheduled ⟨0,0⟩ sched data now,.executed ⟨0,data,occurrence,time,time⟩],
        ⟨.none,time⟩⟩ := by
  let w := alone sched data (some occurrence) now [.scheduled ⟨0,0⟩ sched data now]
  have made : (World.new now).schedule tz sched data now = some w := by
    simp only [w,← next]
    rfl
  have called : Step (runner tz chrono NonDecreasing) (startNew now)
      (.update (.schedule sched data now)) ⟨.top,w,⟨.wait,now⟩⟩ :=
    .update _ w rfl ⟨rfl,⟨le_refl _,monotone_const⟩,made⟩
  have slept : Step (runner tz chrono NonDecreasing) ⟨.top,w,⟨.wait,now⟩⟩ .sleep
      ⟨.waiting false,w,⟨.wait,now⟩⟩ := .sleep rfl rfl
  have fired := alone_fires tz chrono due forward rfl
    (.inr ⟨false,rfl⟩ : Monitor.Awake _ ⟨.waiting false,w,⟨.wait,now⟩⟩)
  exact ((Relation.ReflTransGen.single ⟨_,called⟩).tail ⟨_,slept⟩).tail ⟨_,fired⟩

theorem alone_fires_again {start : State Data} (due : occurrence ≤ time)
    (reached : Reachable (runner tz chrono NonDecreasing) start
      ⟨.holding,alone sched data (some occurrence) time trace,⟨.none,time⟩⟩) :
    Reachable (runner tz chrono NonDecreasing) start
      ⟨.holding,alone sched data (sched.nextRunAfter tz time) time
        (trace ++ [.executed ⟨0,data,occurrence,time,time⟩]),⟨.none,time⟩⟩ := by
  let w := alone sched data (some occurrence) time trace
  have released : Step (runner tz chrono NonDecreasing) ⟨.holding,w,⟨.none,time⟩⟩ .release
      ⟨.top,w,⟨.none,time⟩⟩ := .release rfl
  have fired := alone_fires tz chrono due (le_refl time) rfl
    (.inl ⟨rfl,by simp [runner,WaitPeriod.sleeps]⟩ : Monitor.Awake _ ⟨.top,w,⟨.none,time⟩⟩)
  exact (reached.tail ⟨_,released⟩).tail ⟨_,fired⟩

end Alone

section Mondays
open ChronoModel (localAt ymdHms)

private def sunday : Int := ymdHms 2016 5 1 0 0 0

private def monday : Int := ymdHms 2016 5 2 9 41 0

private def mondayLate : Int := ymdHms 2016 5 2 9 41 1

private def fired (now : Int) (executions : List (Execution Unit)) : List (Event Unit) :=
  .scheduled ⟨0,0⟩ (mondays .none .none) () now :: executions.map .executed

private theorem fired_unbounded (now : Int) (executions : List (Execution Unit)) :
    Unbounded (fired now executions) := by
  intro event member guard sched since set
  rcases List.mem_cons.mp member with rfl | executed
  · rw [Event.schedule?] at set
    split at set <;> cases set
    exact ⟨rfl,rfl⟩
  · obtain ⟨execution,_,rfl⟩ := List.mem_map.mp executed
    cases set

/-- The run is scheduled on Sunday and fires on Monday, a second late. -/
private theorem fired_late : ∃ s : State Unit,
    Reachable (runner (fixedLocal ChronoModel.calendar 0) ChronoModel.duration NonDecreasing)
      (startNew sunday) s ∧ s.data.trace = fired sunday [⟨0,(),monday,mondayLate,mondayLate⟩] := by
  have next : (mondays .none .none).nextRunAfter (localAt 0) sunday = some monday := by
    decide +kernel
  have forward : sunday ≤ mondayLate := by decide +kernel
  have due : monday ≤ mondayLate := by decide +kernel
  exact ⟨_,alone_fires_first (localAt 0) ChronoModel.duration _ () forward due next,rfl⟩

theorem only_current_fires_late : ∃ s : State Unit, ∃ before execution,
    before ++ [.executed execution] = s.data.trace ∧ execution.occurrence = monday ∧
      (∃ guard sched since computed,
        Current (localAt 0) before execution guard sched since computed) ∧
      ∀ guard sched data, .stopped guard sched data ∈ before →
        latest (Event.owner? execution.index) before ≠ some guard := by
  obtain ⟨s,reached,trace⟩ := fired_late
  have whole : fired sunday [] ++ [.executed ⟨0,(),monday,mondayLate,mondayLate⟩] = s.data.trace :=
    trace.symm
  refine ⟨s,_,_,whole,rfl,(only_current_fire reached).1 _ _ ?_⟩
  rw [whole]

theorem fires_once_late : ∃ s : State Unit,
    s.data.trace = fired sunday [⟨0,(),monday,mondayLate,mondayLate⟩] ∧
      Increasing s.data.trace ∧ ∃ run next,
        s.data.data.runs.index 0 = some run ∧ run.nextRun = some next ∧ monday < next := by
  obtain ⟨s,reached,trace⟩ := fired_late
  have unbounded : Unbounded s.data.trace := by
    rw [trace]
    exact fired_unbounded _ _
  have past : monday < mondayLate := by decide +kernel
  obtain ⟨increasing,stored⟩ := fires_once_exactly reached unbounded
  refine ⟨s,trace,increasing ?_,?_⟩
  · intro execution member
    rw [trace] at member
    simp only [fired,List.map_cons,List.map_nil,List.mem_cons,List.not_mem_nil,or_false,
      reduceCtorEq,false_or,Event.executed.injEq] at member
    rw [member]
    exact past
  · obtain ⟨run,next,found,compared,exact⟩ :=
      stored (fired sunday []) _ [] trace (by simp [Untouched])
    exact ⟨run,next,found,compared,exact.mpr past⟩

/-- Both readings fall on the occurrence, and it fires again at once. -/
theorem monday_fires_twice : ¬ ∀ s : State Unit,
    Reachable (runner (fixedLocal ChronoModel.calendar 0) ChronoModel.duration NonDecreasing)
      (startNew monday) s → Unbounded s.data.trace → Increasing s.data.trace := by
  intro always
  have next : (mondays .none .none).nextRunAfter (localAt 0) monday = some monday := by
    decide +kernel
  have first := alone_fires_first (localAt 0) ChronoModel.duration _ () (le_refl _) (le_refl _) next
  rw [next] at first
  have twice := alone_fires_again (localAt 0) ChronoModel.duration (le_refl _) first
  have increasing := always _ twice (fired_unbounded monday [_,_])
  have later := increasing (fired monday []) [] _ _ (List.prefix_refl _) rfl (by simp [Undisturbed])
  exact absurd later (lt_irrefl _)

end Mondays

end Rinklers.ScheduleRunner
