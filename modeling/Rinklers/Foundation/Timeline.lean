import Mathlib.Algebra.BigOperators.Group.List.Basic
import Mathlib.Algebra.Order.Monoid.Defs
import Mathlib.Order.Monotone.Basic

/-! One worker on a line of time: it rests, or it works on a task, on one at a time. Times are
compared by what a clock shows at them. -/
namespace Foundation

structure Period (Task Time : Type*) where
  task : Task
  since : Time
  till : Time

variable {Task Time Amount : Type*}

inductive Timeline [LE Amount] (clock : Time → Amount) (start : Time) :
    List (Period Task Time) → Time → Prop
  | start : Timeline clock start [] start
  | rest {periods : List (Period Task Time)} {now : Time} (line : Timeline clock start periods now)
      (later : Time) (forward : clock now ≤ clock later) : Timeline clock start periods later
  | work {periods : List (Period Task Time)} {since : Time}
      (line : Timeline clock start periods since) (task : Task) (till : Time)
      (forward : clock since ≤ clock till) :
      Timeline clock start (periods ++ [⟨task,since,till⟩]) till

namespace Timeline

section Order
variable [Preorder Amount] {clock : Time → Amount} {start now : Time}
  {periods : List (Period Task Time)}

theorem till_le (line : Timeline clock start periods now) :
    ∀ period ∈ periods, clock period.till ≤ clock now := by
  induction line with
  | start =>
    intro period member
    cases member
  | rest line later forward ih => exact fun period member => (ih period member).trans forward
  | work line task till forward ih =>
    intro period member
    rcases List.mem_append.mp member with before | last
    · exact (ih period before).trans forward
    · cases List.mem_singleton.mp last
      exact le_rfl

/-- Each period is over before the next one begins. -/
theorem ordered (line : Timeline clock start periods now) :
    periods.Pairwise (fun earlier later => clock earlier.till ≤ clock later.since) := by
  induction line with
  | start => exact .nil
  | rest line later forward ih => exact ih
  | work line task till forward ih =>
    refine List.pairwise_append.mpr ⟨ih,List.pairwise_singleton _ _,?_⟩
    intro earlier before later last
    cases List.mem_singleton.mp last
    exact line.till_le earlier before

theorem forward (line : Timeline clock start periods now) :
    ∀ period ∈ periods, clock period.since ≤ clock period.till := by
  induction line with
  | start =>
    intro period member
    cases member
  | rest line later forward ih => exact ih
  | work line task till forward ih =>
    intro period member
    rcases List.mem_append.mp member with before | last
    · exact ih period before
    · cases List.mem_singleton.mp last
      exact forward

end Order

section Budget
variable [AddCommMonoid Amount] [PartialOrder Amount] [IsOrderedAddMonoid Amount]
  {clock : Time → Amount} {start now : Time} {periods : List (Period Task Time)}

/-- What the tasks demand together fits in the time that has gone by. -/
theorem budget (demand : Period Task Time → Amount) (line : Timeline clock start periods now)
    (whole : ∀ period ∈ periods, clock period.since + demand period ≤ clock period.till) :
    clock start + (periods.map demand).sum ≤ clock now := by
  induction line with
  | start => simp
  | rest line later forward ih => exact (ih whole).trans forward
  | @work periods since line task till forward ih =>
    have before := ih fun period member => whole period (List.mem_append_left _ member)
    have last := whole ⟨task,since,till⟩ (List.mem_append_right _ (List.mem_singleton_self _))
    rw [List.map_append,List.sum_append,List.map_singleton,List.sum_singleton]
    calc clock start + ((periods.map demand).sum + demand ⟨task,since,till⟩)
        = clock start + (periods.map demand).sum + demand ⟨task,since,till⟩ :=
          (add_assoc _ _ _).symm
      _ ≤ clock since + demand ⟨task,since,till⟩ := add_le_add_left before _
      _ ≤ clock till := last

end Budget
end Timeline
end Foundation
