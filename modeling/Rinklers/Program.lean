import Rinklers.SectionRunnerTrace

/-! `program.rs`: a program is a sequence of section runs. `queue_run` takes the lock anew for
each item, so that runs of other clients may come between them; `run_sync` waits for the last item
only. A program's name and schedule are left out, nothing modelled here depends on them. -/
namespace Rinklers
open Foundation Foundation.Service
open SectionRunner

variable {Sec : Type}

structure ProgItem (Sec : Type) where
  sec : Sec
  duration : Duration
deriving DecidableEq, Repr

structure Program (Sec : Type) where
  sequence : List (ProgItem Sec)
deriving DecidableEq, Repr

namespace Program

/-- Where a call of `run_sync` is: it has these items left to queue, or it iterates over the last
receiver, or it has returned, because of a notification or because no more can come. -/
inductive Stage (Sec : Type)
  | queueing (left : List (ProgItem Sec))
  | watching
  | returned (notification : Option RunNotification)

def Stage.left : Stage Sec → List (ProgItem Sec)
  | .queueing left => left
  | .watching | .returned _ => []

structure RunSync (Sec : Type) where
  notifiers : List Sender
  stage : Stage Sec

def breaks : RunNotification → Bool
  | .finish | .interrupted => true
  | .start => false

/-- Nothing waits in the channel and its sending end is gone. A panic unwinds the thread's stack. -/
def Disconnected (s : State Sec) (sender : Sender) : Prop :=
  (s.data.channel sender).buffer = [] ∧
    (∀ run ∈ s.data.data.queue, run.notificationSender ≠ sender) ∧
    (s.phase = .panicked ∨ ∀ run, s.thread.currentRun = some run → run.notify ≠ sender)

variable [DecidableEq Sec] (chrono : CDuration) (log : LogLevelFilter)

/-- A step of `run_sync`, or of anybody else: the runner's thread, the other clients of the runner
and whoever stops it. Nobody else has the receivers of the program. -/
inductive Step : State Sec × RunSync Sec → State Sec × RunSync Sec → Prop
  | other {s next : State Sec} (client : RunSync Sec) (label)
      (step : Monitor.Step (runner chrono log) s label next)
      (owned : label = .outside → ∀ sender ∈ client.notifiers,
        next.data.channel sender = s.data.channel sender) :
      Step (s,client) (next,client)
  | queueRun {s : State Sec} (notifiers item left) (free : s.phase.free = true) :
      Step (s,⟨notifiers,.queueing (item::left)⟩)
        (⟨s.phase.notify,s.data.runSection item.sec item.duration,s.thread⟩,
          ⟨notifiers ++ [s.data.channels],.queueing left⟩)
  | queued (s notifiers) : Step (s,⟨notifiers,.queueing []⟩) (s,⟨notifiers,.watching⟩)
  | nothing (s) : Step (s,⟨[],.watching⟩) (s,⟨[],.returned none⟩)
  | received {s : State Sec} (notifiers last notification rest)
      (final : notifiers.getLast? = some last)
      (message : (s.data.channel last).buffer = notification::rest) :
      Step (s,⟨notifiers,.watching⟩)
        ({s with data := s.data.receive last},
          ⟨notifiers,if breaks notification then .returned (some notification) else .watching⟩)
  | disconnected {s : State Sec} (notifiers last) (final : notifiers.getLast? = some last)
      (gone : Disconnected s last) :
      Step (s,⟨notifiers,.watching⟩) (s,⟨notifiers,.returned none⟩)

def runSync (program : Program Sec) : RunSync Sec := ⟨[],.queueing program.sequence⟩

def Reachable : State Sec × RunSync Sec → State Sec × RunSync Sec → Prop :=
  Relation.ReflTransGen (Step chrono log)

variable {chrono log}

theorem step_runner {s next : State Sec} {client after : RunSync Sec}
    (step : Step chrono log (s,client) (next,after)) :
    s = next ∨ ∃ label, Monitor.Step (runner chrono log) s label next := by
  cases step with
  | other _ label step => exact .inr ⟨label,step⟩
  | queueRun notifiers item left free =>
    exact .inr ⟨_,.update (Op.runSection item.sec item.duration) _ free rfl⟩
  | received notifiers last => exact .inr ⟨_,.outside _ (.receive _ last)⟩
  | queued | nothing | disconnected => exact .inl rfl

end Program

namespace SectionRunner

/-- Whatever waits in a channel has been sent into it. -/
def World.Delivered (w : World Sec) : Prop :=
  ∀ sender, ∀ notification ∈ (w.channel sender).buffer,
    ∃ time, ⟨time,sender,notification.signal⟩ ∈ notices w.trace

/-- The run in progress has been told that it has started, if anything. -/
def Unanswered (s : State Sec) : Prop :=
  ∀ run, s.thread.currentRun = some run → ∀ notice ∈ notices s.data.trace,
    notice.job = run.notify → notice.signal = .start

theorem queue_silent {s : State Sec} {ledger : Ledger Sender Instant} (books : Books s ledger)
    {run : SecRun Sec} (queued : run ∈ s.data.data.queue) :
    ∀ notice ∈ notices s.data.trace, notice.job ≠ run.notificationSender := by
  have waiting : run.notificationSender ∈ ledger.pending := by
    rw [← books.queued]
    exact List.mem_map.mpr ⟨run,queued,rfl⟩
  rw [books.sent]
  exact pending_silent ledger books.distinct waiting

variable [DecidableEq Sec] {chrono : CDuration} {log : LogLevelFilter}

private theorem mem_send {channel : Channel} {message notification : RunNotification}
    (waits : notification ∈ (channel.send message).buffer) :
    notification ∈ channel.buffer ∨ notification = message := by
  unfold Channel.send at waits
  split at waits
  · simpa using waits
  · exact .inl waits

private theorem perform_delivered {w : World Sec} (delivered : w.Delivered) (now : Instant)
    (effect : Effect Sec) : (w.perform now effect).Delivered := by
  have kept : ∀ sender, ∀ notification ∈ (w.channel sender).buffer, ∃ time,
      ⟨time,sender,notification.signal⟩ ∈ notices (w.perform now effect).trace := by
    intro sender notification waits
    obtain ⟨time,sent⟩ := delivered sender notification waits
    refine ⟨time,?_⟩
    have trace : (w.perform now effect).trace = w.trace ++ [.performed now effect] := by
      cases effect <;> rfl
    rw [trace,notices_append]
    exact List.mem_append_left _ sent
  intro sender notification waits
  cases effect with
  | setState sec state => exact kept sender notification waits
  | send target message =>
    by_cases same : sender = target
    · subst same
      simp only [World.perform,Function.update_self] at waits
      rcases mem_send waits with old | rfl
      · exact kept sender notification old
      · refine ⟨now,?_⟩
        rw [World.perform,notices_append]
        exact List.mem_append_right _ (List.mem_singleton_self _)
    · simp only [World.perform,Function.update_of_ne same] at waits
      exact kept sender notification waits

private theorem performs_delivered {w : World Sec} (delivered : w.Delivered) (now : Instant)
    (effects : List (Effect Sec)) : (effects.foldl (World.perform now) w).Delivered := by
  induction effects generalizing w with
  | nil => exact delivered
  | cons effect rest ih => exact ih (perform_delivered delivered now effect)

private theorem delivered_step {s next : State Sec} {label : Monitor.Label (Op Sec)}
    (delivered : s.data.Delivered) (step : Monitor.Step (runner chrono log) s label next) :
    next.data.Delivered := by
  cases step with
  | update op data _ updated =>
    cases op with
    | runSection sec dur =>
      cases updated
      intro sender notification waits
      rw [notices_runSection]
      by_cases same : sender = s.data.channels
      · subst same
        simp [World.runSection] at waits
      · simp only [World.runSection,Function.update_of_ne same] at waits
        exact delivered sender notification waits
    | stop =>
      obtain ⟨_,rfl⟩ := updated
      exact delivered
  | outside data changed =>
    intro sender notification waits
    cases changed with
    | hangUp other =>
      by_cases same : sender = other
      · subst same
        simp [World.hangUp] at waits
      · simp only [World.hangUp,Function.update_of_ne same] at waits
        exact delivered sender notification waits
    | receive other =>
      by_cases same : sender = other
      · subst same
        simp only [World.receive,Function.update_self,Channel.receive] at waits
        exact delivered sender notification (List.mem_of_mem_tail waits)
      · simp only [World.receive,Function.update_of_ne same] at waits
        exact delivered sender notification waits
  | pass exit data thread _ ran =>
    obtain ⟨now,pass,_,_,rfl,rfl,rfl⟩ := body_outcome ran
    apply performs_delivered
    exact delivered
  | sleep => exact delivered
  | release => exact delivered

theorem delivered_reachable {clock : Instant} {s : State Sec}
    (reached : Monitor.Reachable (runner chrono log) (startNew clock) s) : s.data.Delivered := by
  apply reached.invariant (fun s => s.data.Delivered)
  · intro sender notification waits
    cases waits
  · intro before label after delivered step
    exact delivered_step delivered step

private theorem unanswered_step {s next : State Sec} {label : Monitor.Label (Op Sec)}
    {ledger : Ledger Sender Instant} (books : Books s ledger) (unanswered : Unanswered s)
    (step : Monitor.Step (runner chrono log) s label next) : Unanswered next := by
  cases step with
  | update op data _ updated =>
    cases op with
    | runSection sec dur =>
      cases updated
      intro run running
      rw [notices_runSection]
      exact unanswered run running
    | stop =>
      obtain ⟨_,rfl⟩ := updated
      exact unanswered
  | outside data changed => cases changed <;> exact unanswered
  | pass exit data thread _ ran =>
    obtain ⟨now,pass,_,outcome,rfl,rfl,rfl⟩ := body_outcome ran
    intro run running
    rw [World.performs_trace,notices_append]
    cases outcome with
    | failed => simpa [notices] using unanswered run running
    | dropped front queue going free => exact absurd running (by simp [free])
    | interrupted | finished | rested => cases running
    | left quit free => exact absurd running (by simp [free])
    | continued current going same =>
      cases running
      simpa [notices] using unanswered run same
    | started front queue going free first =>
      cases running
      -- nothing has been said about a run that was in the queue until now
      have silent := queue_silent books (by rw [first]; exact List.mem_cons_self)
      intro notice member same
      rcases List.mem_append.mp member with before | now
      · exact absurd same (silent notice before)
      · cases List.mem_singleton.mp now
        rfl
  | sleep => exact unanswered
  | release => exact unanswered

theorem unanswered_reachable {clock : Instant} {s : State Sec}
    (reached : Monitor.Reachable (runner chrono log) (startNew clock) s) : Unanswered s := by
  have both : Unanswered s ∧ ∃ ledger, Books s ledger := by
    apply reached.invariant (fun s => Unanswered s ∧ ∃ ledger, Books s ledger)
    · refine ⟨?_,_,books_new clock⟩
      intro run running
      cases running
    · rintro before label after ⟨unanswered,ledger,books⟩ step
      obtain ⟨_,next,_,kept⟩ := books_step chrono log books step
      exact ⟨unanswered_step books unanswered step,next,kept⟩
  exact both.1

theorem step_grows {s next : State Sec} {label : Monitor.Label (Op Sec)}
    (step : Monitor.Step (runner chrono log) s label next) :
    (∃ more, next.data.trace = s.data.trace ++ more) ∧ s.data.channels ≤ next.data.channels := by
  cases step with
  | update op data _ updated =>
    cases op with
    | runSection sec dur =>
      cases updated
      exact ⟨⟨_,rfl⟩,Nat.le_succ _⟩
    | stop =>
      obtain ⟨_,rfl⟩ := updated
      exact ⟨⟨[],(List.append_nil _).symm⟩,le_refl _⟩
  | outside data changed => cases changed <;> exact ⟨⟨[],(List.append_nil _).symm⟩,le_refl _⟩
  | pass exit data thread _ ran =>
    obtain ⟨now,pass,_,_,rfl,rfl,rfl⟩ := body_outcome ran
    refine ⟨⟨_,World.performs_trace _ _ _⟩,?_⟩
    rw [World.performs_channels]
  | sleep => exact ⟨⟨[],(List.append_nil _).symm⟩,le_refl _⟩
  | release => exact ⟨⟨[],(List.append_nil _).symm⟩,le_refl _⟩

end SectionRunner

namespace Program

def Pushed (trace : List (Event Sec)) (item : ProgItem Sec) (sender : Sender) : Prop :=
  ⟨item.sec,item.duration,sender⟩ ∈ pushes trace

/-- The client has queued its items in order, and has seen what made it return. -/
structure Follows (program : Program Sec) (s : State Sec) (client : RunSync Sec) : Prop where
  items : ∃ done, program.sequence = done ++ client.stage.left ∧
    List.Forall₂ (Pushed s.data.trace) done client.notifiers
  ordered : client.notifiers.Pairwise (· < ·)
  made : ∀ sender ∈ client.notifiers, sender < s.data.channels
  told : ∀ notification, client.stage = .returned (some notification) →
    breaks notification = true ∧ ∃ last, client.notifiers.getLast? = some last ∧
      ∃ time, ⟨time,last,notification.signal⟩ ∈ notices s.data.trace

theorem Follows.grow {program : Program Sec} {s next : State Sec} {client : RunSync Sec}
    (follows : Follows program s client) {more : List (Event Sec)}
    (trace : next.data.trace = s.data.trace ++ more)
    (channels : s.data.channels ≤ next.data.channels) : Follows program next client where
  items := by
    obtain ⟨done,parts,pushed⟩ := follows.items
    refine ⟨done,parts,pushed.imp ?_⟩
    intro item sender member
    rw [Pushed,trace,pushes_append]
    exact List.mem_append_left _ member
  ordered := follows.ordered
  made sender member := Nat.lt_of_lt_of_le (follows.made sender member) channels
  told notification returned := by
    obtain ⟨ending,last,final,time,sent⟩ := follows.told notification returned
    refine ⟨ending,last,final,time,?_⟩
    rw [trace,notices_append]
    exact List.mem_append_left _ sent

variable [DecidableEq Sec] {chrono : CDuration} {log : LogLevelFilter} {program : Program Sec}

private theorem follows_step {s next : State Sec} {client after : RunSync Sec}
    (follows : Follows program s client) (delivered : s.data.Delivered)
    (step : Step chrono log (s,client) (next,after)) : Follows program next after := by
  cases step with
  | other _ label step =>
    obtain ⟨⟨more,trace⟩,channels⟩ := step_grows step
    exact follows.grow trace channels
  | queueRun notifiers item left free =>
    obtain ⟨done,parts,pushed⟩ := follows.items
    refine ⟨⟨done ++ [item],?_,?_⟩,?_,?_,fun _ impossible => by cases impossible⟩
    · rw [parts,List.append_assoc]
      rfl
    · apply List.rel_append
      · apply pushed.imp
        intro other sender member
        rw [Pushed,pushes_runSection]
        exact List.mem_append_left _ member
      · refine .cons ?_ .nil
        rw [Pushed,pushes_runSection]
        exact List.mem_append_right _ (List.mem_singleton_self _)
    · refine List.pairwise_append.mpr ⟨follows.ordered,List.pairwise_singleton _ _,?_⟩
      intro sender member new same
      rw [List.mem_singleton.mp same]
      exact follows.made sender member
    · intro sender member
      rcases List.mem_append.mp member with old | new
      · exact Nat.lt_succ_of_lt (follows.made sender old)
      · rw [List.mem_singleton.mp new]
        exact Nat.lt_succ_self _
  | queued _ notifiers =>
    exact ⟨follows.items,follows.ordered,follows.made,fun _ impossible => by cases impossible⟩
  | nothing =>
    exact ⟨follows.items,follows.ordered,follows.made,fun _ impossible => by cases impossible⟩
  | received notifiers last notification rest final message =>
    have sent := delivered last notification (by rw [message]; exact List.mem_cons_self)
    cases ending : breaks notification with
    | true =>
      rw [if_pos rfl]
      refine ⟨follows.items,follows.ordered,follows.made,?_⟩
      intro other same
      cases same
      exact ⟨ending,last,final,sent⟩
    | false =>
      rw [if_neg Bool.false_ne_true]
      exact ⟨follows.items,follows.ordered,follows.made,fun _ impossible => by cases impossible⟩
  | disconnected notifiers last =>
    exact ⟨follows.items,follows.ordered,follows.made,fun _ impossible => by cases impossible⟩

theorem reachable_runner {clock : Instant} {s : State Sec} {client : RunSync Sec}
    (reached : Reachable chrono log (startNew clock,program.runSync) (s,client)) :
    Monitor.Reachable (runner chrono log) (startNew clock) s ∧ Follows program s client := by
  generalize target : (s,client) = state at reached
  induction reached generalizing s client with
  | refl =>
    cases target
    refine ⟨.refl,⟨[],rfl,.nil⟩,.nil,?_,?_⟩
    · intro sender member
      cases member
    · intro notification returned
      cases returned
  | @tail middle _ _ step ih =>
    cases target
    obtain ⟨before,follows⟩ := ih rfl
    refine ⟨?_,follows_step follows (delivered_reachable before) step⟩
    rcases step_runner step with rfl | stepped
    · exact before
    · exact before.tail stepped

/-- What watching the last receiver says about the items before it. -/
structure Waits (program : Program Sec) (s : State Sec) (client : RunSync Sec) : Prop where
  items : ∃ done, program.sequence = done ++ client.stage.left ∧
    List.Forall₂ (Pushed s.data.trace) done client.notifiers
  finished : ∀ earlier last, client.notifiers = earlier ++ [last] → ∀ before time after,
    notices s.data.trace = before ++ ⟨time,last,.finish⟩ :: after →
    ∀ sender ∈ earlier, ∃ till, ⟨till,sender,.finish⟩ ∈ before
  interrupted : ∀ earlier last, client.notifiers = earlier ++ [last] → ∀ before time after,
    notices s.data.trace = before ++ ⟨time,last,.interrupted⟩ :: after →
    ∀ sender ∈ earlier, ∃ till, ⟨till,sender,.finish⟩ ∈ before ∨ ⟨till,sender,.interrupted⟩ ∈ before
  returned : ∀ notification, client.stage = .returned (some notification) →
    ∀ sender ∈ client.notifiers, (∀ run ∈ s.data.data.queue, run.notificationSender ≠ sender) ∧
      ∀ run, s.thread.currentRun = some run → run.notify ≠ sender

omit [DecidableEq Sec] in
private theorem ended_before {s : State Sec} {ledger : Ledger Sender Instant}
    (books : Books s ledger) {client : RunSync Sec} (follows : Follows program s client)
    {earlier : List Sender} {last : Sender} (parts : client.notifiers = earlier ++ [last])
    {before after : List (Notice Sender Instant)} {time : Instant} :
    (notices s.data.trace = before ++ ⟨time,last,.finish⟩ :: after →
      ∀ sender ∈ earlier, ∃ till, ⟨till,sender,.finish⟩ ∈ before) ∧
    (notices s.data.trace = before ++ ⟨time,last,.interrupted⟩ :: after →
      ∀ sender ∈ earlier, ∃ till,
        ⟨till,sender,.finish⟩ ∈ before ∨ ⟨till,sender,.interrupted⟩ ∈ before) := by
  have numbered : ledger.jobs.Pairwise (· < ·) := by
    rw [books.fresh]
    exact List.pairwise_lt_range
  have ordered := follows.ordered
  rw [parts] at ordered
  have earlierLast : ∀ sender ∈ earlier, sender ∈ ledger.jobs ∧ sender < last := by
    intro sender member
    rw [books.fresh,List.mem_range]
    refine ⟨follows.made sender ?_,?_⟩
    · rw [parts]
      exact List.mem_append_left _ member
    · exact (List.pairwise_append.mp ordered).2.2 sender member last (List.mem_singleton_self _)
  rw [books.sent]
  constructor
  · intro split sender member
    obtain ⟨known,order⟩ := earlierLast sender member
    exact finish_after_finish ledger numbered split known order
  · intro split sender member
    obtain ⟨known,order⟩ := earlierLast sender member
    exact interrupted_after_end ledger numbered split known order

omit [DecidableEq Sec] in
/-- When the call returns because of a notification, every item has been told how it ended. -/
private theorem closed_of_returned {s : State Sec} {ledger : Ledger Sender Instant}
    (books : Books s ledger) {client : RunSync Sec} (follows : Follows program s client)
    {notification : RunNotification} (returned : client.stage = .returned (some notification))
    {sender : Sender} (member : sender ∈ client.notifiers) :
    ∃ notice ∈ notices s.data.trace, notice.job = sender ∧ notice.signal ≠ .start := by
  obtain ⟨ending,last,final,time,sent⟩ := follows.told notification returned
  obtain ⟨earlier,parts⟩ := List.getLast?_eq_some_iff.mp final
  obtain ⟨before,after,split⟩ := List.append_of_mem sent
  have inside : ∀ notice ∈ before, notice ∈ notices s.data.trace := by
    rw [split]
    exact fun _ told => List.mem_append_left _ told
  rw [parts] at member
  rcases List.mem_append.mp member with first | same
  · cases notification with
    | start => cases ending
    | finish =>
      obtain ⟨till,told⟩ := (ended_before books follows parts).1 split sender first
      exact ⟨_,inside _ told,rfl,by simp⟩
    | interrupted =>
      obtain ⟨till,told | told⟩ := (ended_before books follows parts).2 split sender first
      · exact ⟨_,inside _ told,rfl,by simp⟩
      · exact ⟨_,inside _ told,rfl,by simp⟩
  · rw [List.mem_singleton.mp same]
    refine ⟨_,sent,rfl,?_⟩
    cases notification with
    | start => cases ending
    | finish | interrupted => simp [RunNotification.signal]

/-- Whoever waits for the last item of a program waits for the whole program. -/
theorem waits_for_whole_program {clock : Instant} {s : State Sec} {client : RunSync Sec}
    (reached : Reachable chrono log (startNew clock,program.runSync) (s,client)) :
    Waits program s client := by
  obtain ⟨running,follows⟩ := reachable_runner reached
  obtain ⟨ledger,books⟩ := reachable_books chrono log clock running
  refine ⟨follows.items,?_,?_,?_⟩
  · intro earlier last parts before time after
    exact (ended_before books follows parts).1
  · intro earlier last parts before time after
    exact (ended_before books follows parts).2
  · intro notification returned sender member
    obtain ⟨notice,told,rfl,ended⟩ := closed_of_returned books follows returned member
    constructor
    · intro run queued same
      exact queue_silent books queued notice told same.symm
    · intro run current same
      exact ended (unanswered_reachable running run current notice told same.symm)

private theorem play_others (chrono : CDuration) (log : LogLevelFilter) {s final : State Sec}
    {moves : List (Move Sec)} (client : RunSync Sec)
    (played : play chrono log s moves = some final) :
    Reachable chrono log (s,client) (final,client) := by
  apply @SectionRunner.play_rule _ _ chrono log
    (fun t => Reachable chrono log (s,client) (t,client)) _ _ _ _ .refl played
  intro t first next reached moved
  apply reached.tail (.other client first.label (move_step chrono log moved) _)
  intro outside
  cases first <;> cases outside

private def twoItems : Program Nat := ⟨[⟨7,forSeconds 5⟩,⟨8,forSeconds 6⟩]⟩

private def bothQueued : State Nat :=
  ⟨.top,((World.new (atSecond 0)).runSection 7 (forSeconds 5)).runSection 8 (forSeconds 6),
    ⟨none,.wait⟩⟩

private def bothServed : List (Move Nat) :=
  [.sleep,.pass (atSecond 0),.release,.sleep,.pass (atSecond 5),.release,.pass (atSecond 5),
    .release,.sleep,.pass (atSecond 11)]

theorem waits_for_two_items : ∃ s : State Nat,
    Waits twoItems s ⟨[0,1],.returned (some .finish)⟩ := by
  have served : (play ChronoModel.duration initLog bothQueued bothServed).isSome = true := by decide
  have buffer : (((play ChronoModel.duration initLog bothQueued bothServed).get served).data.channel
      1).buffer = [.start,.finish] := by decide +revert
  have queued : Reachable ChronoModel.duration initLog (startNew (atSecond 0),twoItems.runSync)
      (bothQueued,⟨[0,1],.watching⟩) :=
    ((Relation.ReflTransGen.single (.queueRun [] _ _ rfl)).tail (.queueRun _ _ _ rfl)).tail
      (.queued _ _)
  have ran := queued.trans (play_others _ _ ⟨[0,1],.watching⟩ (Option.some_get served).symm)
  have started := ran.tail (.received [0,1] 1 .start [.finish] rfl buffer)
  have finished := started.tail (.received [0,1] 1 .finish [] rfl (by
    simp [World.receive,Channel.receive,buffer]))
  exact ⟨_,waits_for_whole_program finished⟩

end Program
end Rinklers
