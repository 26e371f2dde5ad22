import Mathlib.Data.List.Nodup
import Mathlib.Data.List.Infix
import Mathlib.Order.Basic

/-! An abstract server that takes jobs in the order in which they are submitted, one at a time.
The ledger is its whole history: the jobs served, what became of the last job taken, and the
jobs still pending. Every signal ever sent can be read off the ledger, job by job. -/
namespace Foundation.Service

inductive Signal
  | start
  | finish
  | interrupted
deriving DecidableEq, Repr

def Signal.terminal : Signal → Bool
  | .start => false
  | .finish | .interrupted => true

structure Notice (Job Time : Type*) where
  time : Time
  job : Job
  signal : Signal
deriving DecidableEq, Repr

structure Record (Job Time : Type*) where
  job : Job
  sent : List (Time × Signal)

structure Served (Job Time : Type*) where
  job : Job
  since : Time
  till : Time

/-- The last job taken: `lost` was taken and never started, `closed` was interrupted together
with everything that was pending behind it. -/
inductive Tail (Job Time : Type*)
  | idle
  | busy (job : Job) (since : Time)
  | lost (job : Job)
  | closed (job : Job) (since till : Time) (rest : List Job)

structure Ledger (Job Time : Type*) where
  served : List (Served Job Time)
  tail : Tail Job Time
  pending : List Job

variable {Job Time : Type*}

def Record.notices (record : Record Job Time) : List (Notice Job Time) :=
  record.sent.map (fun s => ⟨s.1,record.job,s.2⟩)

def Served.record (served : Served Job Time) : Record Job Time :=
  ⟨served.job,[(served.since,.start),(served.till,.finish)]⟩

def Tail.records : Tail Job Time → List (Record Job Time)
  | .idle => []
  | .busy job since => [⟨job,[(since,.start)]⟩]
  | .lost job => [⟨job,[]⟩]
  | .closed job since till rest =>
    ⟨job,[(since,.start),(till,.interrupted)]⟩ :: rest.map (fun job => ⟨job,[(till,.interrupted)]⟩)

def Tail.Ended : Tail Job Time → Prop
  | .idle | .closed .. => True
  | .busy .. | .lost _ => False

namespace Ledger

def records (ledger : Ledger Job Time) : List (Record Job Time) :=
  ledger.served.map Served.record ++ ledger.tail.records ++ ledger.pending.map (fun job => ⟨job,[]⟩)

def jobs (ledger : Ledger Job Time) : List Job := ledger.records.map Record.job

def notices (ledger : Ledger Job Time) : List (Notice Job Time) :=
  ledger.records.flatMap Record.notices

def empty : Ledger Job Time := ⟨[],.idle,[]⟩

inductive Step : Ledger Job Time → List (Notice Job Time) → Ledger Job Time → Prop
  | submit (ledger : Ledger Job Time) (job : Job) :
      Step ledger [] {ledger with pending := ledger.pending ++ [job]}
  | start (served job rest) (time : Time) :
      Step ⟨served,.idle,job::rest⟩ [⟨time,job,.start⟩] ⟨served,.busy job time,rest⟩
  | lose (served job rest) : Step ⟨served,.idle,job::rest⟩ [] ⟨served,.lost job,rest⟩
  | finish (served job since pending) (time : Time) :
      Step ⟨served,.busy job since,pending⟩ [⟨time,job,.finish⟩]
        ⟨served ++ [⟨job,since,time⟩],.idle,pending⟩
  | close (served job since pending) (time : Time) :
      Step ⟨served,.busy job since,pending⟩
        (⟨time,job,.interrupted⟩ :: pending.map (fun job => ⟨time,job,.interrupted⟩))
        ⟨served,.closed job since time pending,[]⟩

private theorem unsent_notices (jobs : List Job) :
    (jobs.map (fun job => (⟨job,[]⟩ : Record Job Time))).flatMap Record.notices = [] := by
  simp [Record.notices]

private theorem interrupted_notices (jobs : List Job) (till : Time) :
    (jobs.map (fun job => (⟨job,[(till,.interrupted)]⟩ : Record Job Time))).flatMap
      Record.notices = jobs.map (fun job => ⟨till,job,.interrupted⟩) := by
  rw [List.flatMap_map,List.map_eq_flatMap]
  rfl

theorem notices_eq (served : List (Served Job Time)) (tail : Tail Job Time) (pending : List Job) :
    notices ⟨served,tail,pending⟩ =
      (served.map Served.record).flatMap Record.notices ++ tail.records.flatMap Record.notices := by
  simp only [notices,records,List.flatMap_append,unsent_notices,List.append_nil]

theorem step_notices {ledger next : Ledger Job Time} {sent : List (Notice Job Time)}
    (step : Step ledger sent next) : next.notices = ledger.notices ++ sent := by
  cases step with
  | submit _ job =>
    obtain ⟨served,tail,pending⟩ := ledger
    simp only [notices_eq,List.append_nil]
  | start served job rest time =>
    simp [notices_eq,Tail.records,Record.notices]
  | lose served job rest =>
    simp [notices_eq,Tail.records,Record.notices]
  | finish served job since pending time =>
    simp [notices_eq,Tail.records,Served.record,Record.notices]
  | close served job since pending time =>
    simp only [notices_eq,Tail.records,List.flatMap_cons,interrupted_notices]
    simp [Record.notices]

theorem jobs_eq (served : List (Served Job Time)) (tail : Tail Job Time) (pending : List Job) :
    jobs ⟨served,tail,pending⟩ =
      served.map Served.job ++ tail.records.map Record.job ++ pending := by
  simp [jobs,records,Served.record,Function.comp_def]

end Ledger

section History

def starts (notices : List (Notice Job Time)) : List Job :=
  notices.filterMap (fun n => if n.signal = .start then some n.job else none)

theorem starts_append (first second : List (Notice Job Time)) :
    starts (first ++ second) = starts first ++ starts second := by
  simp only [starts,List.filterMap_append]

private theorem starts_served (served : List (Served Job Time)) :
    starts ((served.map Served.record).flatMap Record.notices) = served.map Served.job := by
  induction served with
  | nil => rfl
  | cons first rest ih =>
    simp only [List.map_cons,List.flatMap_cons,starts_append,ih]
    rfl

private theorem starts_tail (tail : Tail Job Time) :
    starts (tail.records.flatMap Record.notices) <+: tail.records.map Record.job := by
  cases tail with
  | idle => exact List.prefix_rfl
  | busy job since => exact List.prefix_rfl
  | lost job => exact List.nil_prefix
  | closed job since till rest =>
    have silent :
        starts (rest.map (fun job => (⟨till,job,.interrupted⟩ : Notice Job Time))) = [] := by
      simp [starts]
    have only :
        starts ((Tail.closed job since till rest).records.flatMap Record.notices) = [job] := by
      simp only [Tail.records,List.flatMap_cons,Ledger.interrupted_notices,starts_append,silent]
      rfl
    rw [only]
    simp [Tail.records]

/-- Jobs are started in the order in which they were submitted. -/
theorem starts_prefix (ledger : Ledger Job Time) : starts ledger.notices <+: ledger.jobs := by
  obtain ⟨served,tail,pending⟩ := ledger
  rw [Ledger.notices_eq,Ledger.jobs_eq,starts_append,starts_served,List.append_assoc]
  exact List.prefix_append_right_inj _ |>.mpr
    ((starts_tail tail).trans (List.prefix_append _ pending))

private theorem tail_start_first (tail : Tail Job Time) (before after : List (Notice Job Time))
    (time : Time) (job : Job)
    (split : tail.records.flatMap Record.notices = before ++ ⟨time,job,.start⟩ :: after) :
    before = [] := by
  cases before with
  | nil => rfl
  | cons first rest =>
    have later : ⟨time,job,.start⟩ ∈ (tail.records.flatMap Record.notices).tail := by
      simp [split]
    cases tail with
    | idle => simp [Tail.records] at later
    | busy job since => simp [Tail.records,Record.notices] at later
    | lost job => simp [Tail.records,Record.notices] at later
    | closed job since till rest => simp [Tail.records,Record.notices] at later

/-- No job is started before every job started earlier has been finished. -/
theorem start_after_finish (ledger : Ledger Job Time) (before after : List (Notice Job Time))
    (time : Time) (job : Job) (split : ledger.notices = before ++ ⟨time,job,.start⟩ :: after)
    (earlier : Time) (other : Job) (started : ⟨earlier,other,.start⟩ ∈ before) :
    ∃ till, ⟨till,other,.finish⟩ ∈ before := by
  obtain ⟨served,tail,pending⟩ := ledger
  rw [Ledger.notices_eq] at split
  induction served generalizing before with
  | nil =>
    have first := tail_start_first tail before after time job (by simpa using split)
    simp [first] at started
  | cons head rest ih =>
    simp only [List.map_cons,List.flatMap_cons,Record.notices,Served.record,List.map_nil,
      List.cons_append,List.nil_append] at split
    -- The notices of `head` come first; `before` either ends inside them or contains them.
    match before with
    | [] => simp at started
    | [_] => simp at split
    | first::second::more =>
      simp only [List.cons_append,List.cons.injEq] at split
      obtain ⟨rfl,rfl,split⟩ := split
      rcases List.mem_cons.mp started with same | started
      · cases same
        exact ⟨head.till,by simp⟩
      · rcases List.mem_cons.mp started with same | started
        · cases same
        · obtain ⟨till,finished⟩ := ih more started split
          exact ⟨till,by simp [finished]⟩

/-- A job is finished only after it was started, at the two times kept in the ledger. -/
theorem finish_after_start (ledger : Ledger Job Time) (before after : List (Notice Job Time))
    (time : Time) (job : Job) (split : ledger.notices = before ++ ⟨time,job,.finish⟩ :: after) :
    ∃ since, ⟨job,since,time⟩ ∈ ledger.served ∧ ⟨since,job,.start⟩ ∈ before := by
  obtain ⟨served,tail,pending⟩ := ledger
  rw [Ledger.notices_eq] at split
  dsimp only
  induction served generalizing before with
  | nil =>
    have member : ⟨time,job,.finish⟩ ∈ tail.records.flatMap Record.notices := by
      have same : tail.records.flatMap Record.notices = before ++ ⟨time,job,.finish⟩ :: after := by
        simpa using split
      simp [same]
    cases tail <;> simp [Tail.records,Record.notices] at member
  | cons head rest ih =>
    simp only [List.map_cons,List.flatMap_cons,Record.notices,Served.record,List.map_nil,
      List.cons_append,List.nil_append] at split
    match before with
    | [] => simp at split
    | [_] =>
      simp only [List.cons_append,List.nil_append,List.cons.injEq,Notice.mk.injEq,and_true] at split
      obtain ⟨rfl,⟨rfl,rfl⟩,_⟩ := split
      exact ⟨head.since,by simp,by simp⟩
    | first::second::more =>
      simp only [List.cons_append,List.cons.injEq] at split
      obtain ⟨rfl,rfl,split⟩ := split
      obtain ⟨since,member,started⟩ := ih more split
      exact ⟨since,by simp [member],by simp [started]⟩

def courses : List (List Signal) :=
  [[.start,.finish],[.start,.interrupted],[.interrupted]]

private theorem record_course (ledger : Ledger Job Time) (record : Record Job Time)
    (member : record ∈ ledger.records) :
    ∃ course ∈ courses, record.sent.map Prod.snd <+: course := by
  simp only [Ledger.records,List.mem_append,List.mem_map] at member
  rcases member with (⟨served,_,rfl⟩ | inside) | ⟨job,_,rfl⟩
  · exact ⟨_,List.mem_cons_self,List.prefix_rfl⟩
  · cases tail : ledger.tail with
    | idle => simp [tail,Tail.records] at inside
    | busy job since =>
      simp only [tail,Tail.records,List.mem_singleton] at inside
      subst inside
      exact ⟨_,List.mem_cons_self,⟨[.finish],rfl⟩⟩
    | lost job =>
      simp only [tail,Tail.records,List.mem_singleton] at inside
      subst inside
      exact ⟨_,List.mem_cons_self,List.nil_prefix⟩
    | closed job since till rest =>
      simp only [tail,Tail.records,List.mem_cons,List.mem_map] at inside
      rcases inside with rfl | ⟨other,_,rfl⟩
      · exact ⟨[.start,.interrupted],by simp [courses],List.prefix_rfl⟩
      · exact ⟨[.interrupted],by simp [courses],List.prefix_rfl⟩
  · exact ⟨_,List.mem_cons_self,List.nil_prefix⟩

variable [DecidableEq Job]

def history (notices : List (Notice Job Time)) (job : Job) : List Signal :=
  notices.filterMap (fun n => if n.job = job then some n.signal else none)

private theorem history_record (record : Record Job Time) (job : Job) :
    history record.notices job = if record.job = job then record.sent.map Prod.snd else [] := by
  by_cases same : record.job = job <;>
    simp [history,Record.notices,List.filterMap_map,same]

private theorem history_absent (records : List (Record Job Time)) (job : Job)
    (absent : job ∉ records.map Record.job) :
    history (records.flatMap Record.notices) job = [] := by
  induction records with
  | nil => rfl
  | cons first rest ih =>
    simp only [List.map_cons,List.mem_cons,not_or] at absent
    have head := history_record first job
    rw [if_neg (Ne.symm absent.1)] at head
    simp only [List.flatMap_cons,history,List.filterMap_append] at head ih ⊢
    rw [head,ih absent.2,List.append_nil]

theorem history_of_record (records : List (Record Job Time))
    (distinct : (records.map Record.job).Nodup) (record : Record Job Time)
    (member : record ∈ records) :
    history (records.flatMap Record.notices) record.job = record.sent.map Prod.snd := by
  induction records with
  | nil => simp at member
  | cons first rest ih =>
    simp only [List.map_cons,List.nodup_cons] at distinct
    have split : history ((first::rest).flatMap Record.notices) record.job =
        history first.notices record.job ++ history (rest.flatMap Record.notices) record.job := by
      simp only [history,List.flatMap_cons,List.filterMap_append]
    rw [split,history_record]
    rcases List.mem_cons.mp member with rfl | inside
    · rw [if_pos rfl,history_absent rest record.job distinct.1,List.append_nil]
    · have other : first.job ≠ record.job := by
        intro same
        exact distinct.1 (same ▸ List.mem_map.mpr ⟨record,inside,rfl⟩)
      rw [if_neg other,ih distinct.2 inside,List.nil_append]

theorem history_course (ledger : Ledger Job Time) (distinct : ledger.jobs.Nodup) (job : Job) :
    ∃ course ∈ courses, history ledger.notices job <+: course := by
  by_cases known : job ∈ ledger.jobs
  · obtain ⟨record,member,rfl⟩ := List.mem_map.mp known
    rw [Ledger.notices,history_of_record ledger.records distinct record member]
    exact record_course ledger record member
  · rw [Ledger.notices,history_absent ledger.records job known]
    exact ⟨_,List.mem_cons_self,List.nil_prefix⟩

/-- Once nothing is pending or under way every job ever submitted has had one terminal signal. -/
theorem settled_terminal (ledger : Ledger Job Time) (distinct : ledger.jobs.Nodup)
    (emptied : ledger.pending = []) (ended : ledger.tail.Ended) (job : Job)
    (known : job ∈ ledger.jobs) :
    (history ledger.notices job).countP Signal.terminal = 1 := by
  obtain ⟨record,member,rfl⟩ := List.mem_map.mp known
  rw [Ledger.notices,history_of_record ledger.records distinct record member]
  obtain ⟨served,tail,pending⟩ := ledger
  cases emptied
  simp only [Ledger.records,List.map_nil,List.append_nil,List.mem_append,List.mem_map] at member
  rcases member with ⟨served,_,rfl⟩ | inside
  · rfl
  · cases tail with
    | idle => simp [Tail.records] at inside
    | busy job since => contradiction
    | lost job => contradiction
    | closed job since till rest =>
      simp only [Tail.records,List.mem_cons,List.mem_map] at inside
      rcases inside with rfl | ⟨other,_,rfl⟩ <;> rfl

end History

theorem pending_silent (ledger : Ledger Job Time) (distinct : ledger.jobs.Nodup) {job : Job}
    (waiting : job ∈ ledger.pending) : ∀ notice ∈ ledger.notices, notice.job ≠ job := by
  rintro notice member rfl
  obtain ⟨record,inside,sent⟩ := List.mem_flatMap.mp member
  have unsent : (⟨notice.job,[]⟩ : Record Job Time) ∈ ledger.records :=
    List.mem_append_right _ (List.mem_map.mpr ⟨_,waiting,rfl⟩)
  obtain ⟨message,listed,rfl⟩ := List.mem_map.mp sent
  have same : record = ⟨record.job,[]⟩ := List.inj_on_of_nodup_map distinct inside unsent rfl
  rw [same] at listed
  cases listed

section Order

def Record.Sent (record : Record Job Time) (signal : Signal) : Prop :=
  ∃ time, (time,signal) ∈ record.sent

/-- What has been sent about a job says how an earlier one has ended. -/
def Record.Precedes (first second : Record Job Time) : Prop :=
  (second.Sent .finish → first.Sent .finish) ∧
    (second.Sent .interrupted → first.Sent .finish ∨ first.Sent .interrupted)

private theorem served_precedes (served : Served Job Time) (second : Record Job Time) :
    served.record.Precedes second := by
  have finished : served.record.Sent .finish := ⟨served.till,by simp [Served.record]⟩
  exact ⟨fun _ => finished,fun _ => .inl finished⟩

private theorem unsent_follows (first : Record Job Time) (job : Job) :
    first.Precedes ⟨job,[]⟩ := by
  constructor <;> rintro ⟨_,sent⟩ <;> cases sent

private theorem tail_ordered (tail : Tail Job Time) : tail.records.Pairwise Record.Precedes := by
  cases tail with
  | idle => exact List.Pairwise.nil
  | busy job since => exact List.pairwise_singleton _ _
  | lost job => exact List.pairwise_singleton _ _
  | closed job since till rest =>
    have drained : ∀ (first : Record Job Time) job, first.Sent .interrupted →
        first.Precedes ⟨job,[(till,.interrupted)]⟩ := by
      intro first job ended
      refine ⟨?_,fun _ => .inr ended⟩
      rintro ⟨_,finished⟩
      simp at finished
    refine List.Pairwise.cons ?_ (List.pairwise_map.mpr (List.pairwise_of_forall ?_))
    · intro second member
      obtain ⟨job,_,rfl⟩ := List.mem_map.mp member
      exact drained _ job ⟨till,by simp⟩
    · intro first second
      exact drained _ second ⟨till,by simp⟩

theorem records_ordered (ledger : Ledger Job Time) : ledger.records.Pairwise Record.Precedes := by
  refine List.pairwise_append.mpr ⟨List.pairwise_append.mpr ⟨?_,tail_ordered _,?_⟩,?_,?_⟩
  · exact List.pairwise_map.mpr (List.pairwise_of_forall fun _ _ => served_precedes _ _)
  · intro first member second _
    obtain ⟨served,_,rfl⟩ := List.mem_map.mp member
    exact served_precedes served second
  · exact List.pairwise_map.mpr (List.pairwise_of_forall fun _ _ => unsent_follows _ _)
  · intro first _ second member
    obtain ⟨job,_,rfl⟩ := List.mem_map.mp member
    exact unsent_follows first job

/-- When a notice goes out, everything about the jobs before its own has gone out. -/
private theorem notices_split (records : List (Record Job Time))
    (before after : List (Notice Job Time)) (notice : Notice Job Time)
    (split : records.flatMap Record.notices = before ++ notice :: after) :
    ∃ front record back, records = front ++ record :: back ∧ record.job = notice.job ∧
      record.Sent notice.signal ∧ front.flatMap Record.notices ⊆ before := by
  induction records generalizing before with
  | nil => simp at split
  | cons first rest ih =>
    rw [List.flatMap_cons] at split
    rcases List.append_eq_append_iff.mp split with ⟨more,later,inside⟩ | ⟨more,inside,later⟩
    · obtain ⟨front,record,back,rfl,same,sent,told⟩ := ih more inside
      refine ⟨first::front,record,back,rfl,same,sent,?_⟩
      rw [later,List.flatMap_cons]
      exact List.append_subset.mpr ⟨List.subset_append_left _ _,
        List.Subset.trans told (List.subset_append_right _ _)⟩
    · cases more with
      | nil =>
        obtain ⟨front,record,back,rfl,same,sent,told⟩ := ih [] later.symm
        refine ⟨first::front,record,back,rfl,same,sent,?_⟩
        rw [List.flatMap_cons,inside,List.append_nil,List.subset_nil.mp told,List.append_nil]
        exact List.Subset.refl _
      | cons this more =>
        obtain ⟨rfl,_⟩ := List.cons_eq_cons.mp later
        have member : notice ∈ first.notices := by simp [inside]
        obtain ⟨⟨time,signal⟩,sent,rfl⟩ := List.mem_map.mp member
        exact ⟨[],first,rest,rfl,rfl,⟨time,sent⟩,List.nil_subset _⟩

private theorem sent_notice {records : List (Record Job Time)} {record : Record Job Time}
    (member : record ∈ records) {signal : Signal} (sent : record.Sent signal) :
    ∃ till, ⟨till,record.job,signal⟩ ∈ records.flatMap Record.notices := by
  obtain ⟨till,inside⟩ := sent
  exact ⟨till,List.mem_flatMap.mpr ⟨record,member,List.mem_map.mpr ⟨(till,signal),inside,rfl⟩⟩⟩

variable [Preorder Job]

/-- The jobs are numbered in the order in which they are submitted. -/
private theorem earlier_precedes (ledger : Ledger Job Time)
    (numbered : ledger.jobs.Pairwise (· < ·)) {before after : List (Notice Job Time)}
    {notice : Notice Job Time} (split : ledger.notices = before ++ notice :: after)
    {job : Job} (known : job ∈ ledger.jobs) (earlier : job < notice.job) :
    ∃ first second : Record Job Time, first.job = job ∧ first.Precedes second ∧
      second.Sent notice.signal ∧
      ∀ signal, first.Sent signal → ∃ till, ⟨till,job,signal⟩ ∈ before := by
  obtain ⟨front,second,back,parts,same,sent,told⟩ := notices_split _ _ _ _ split
  rw [Ledger.jobs,parts,List.map_append,List.map_cons,same] at known numbered
  obtain ⟨_,later,_⟩ := List.pairwise_append.mp numbered
  have inside : job ∈ front.map Record.job := by
    rcases List.mem_append.mp known with inside | outside
    · exact inside
    · rcases List.mem_cons.mp outside with rfl | after
      · exact absurd earlier (lt_irrefl _)
      · exact absurd (earlier.trans ((List.pairwise_cons.mp later).1 job after)) (lt_irrefl _)
  obtain ⟨first,member,rfl⟩ := List.mem_map.mp inside
  have ordered := records_ordered ledger
  rw [parts] at ordered
  have precedes := (List.pairwise_append.mp ordered).2.2 first member second List.mem_cons_self
  refine ⟨first,second,rfl,precedes,sent,?_⟩
  intro signal inside
  obtain ⟨till,notice⟩ := sent_notice member inside
  exact ⟨till,told notice⟩

theorem finish_after_finish (ledger : Ledger Job Time) (numbered : ledger.jobs.Pairwise (· < ·))
    {before after : List (Notice Job Time)} {time : Time} {last : Job}
    (split : ledger.notices = before ++ ⟨time,last,.finish⟩ :: after)
    {job : Job} (known : job ∈ ledger.jobs) (earlier : job < last) :
    ∃ till, ⟨till,job,.finish⟩ ∈ before := by
  obtain ⟨first,second,_,precedes,sent,told⟩ := earlier_precedes ledger numbered split known earlier
  exact told .finish (precedes.1 sent)

theorem interrupted_after_end (ledger : Ledger Job Time) (numbered : ledger.jobs.Pairwise (· < ·))
    {before after : List (Notice Job Time)} {time : Time} {last : Job}
    (split : ledger.notices = before ++ ⟨time,last,.interrupted⟩ :: after)
    {job : Job} (known : job ∈ ledger.jobs) (earlier : job < last) :
    ∃ till, ⟨till,job,.finish⟩ ∈ before ∨ ⟨till,job,.interrupted⟩ ∈ before := by
  obtain ⟨first,second,_,precedes,sent,told⟩ := earlier_precedes ledger numbered split known earlier
  rcases precedes.2 sent with finished | interrupted
  · obtain ⟨till,inside⟩ := told .finish finished
    exact ⟨till,.inl inside⟩
  · obtain ⟨till,inside⟩ := told .interrupted interrupted
    exact ⟨till,.inr inside⟩

end Order
end Foundation.Service
