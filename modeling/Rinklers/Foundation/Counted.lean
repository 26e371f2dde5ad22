import Mathlib.Order.Basic

/-! Runs of one party among others, with the number of the steps that the party itself takes. A
rank that its own steps lower and that nobody raises bounds that number. -/
namespace Foundation

variable {α : Type} {own other : α → α → Prop}

inductive Counted (own other : α → α → Prop) : Nat → α → α → Prop
  | refl (a : α) : Counted own other 0 a a
  | own {n : Nat} {a b c : α} (run : Counted own other n a b) (step : own b c) :
      Counted own other (n + 1) a c
  | other {n : Nat} {a b c : α} (run : Counted own other n a b) (step : other b c) :
      Counted own other n a c

namespace Counted

theorem invariant {holds : α → Prop} (kept : ∀ a b, holds a → own a b ∨ other a b → holds b)
    {n : Nat} {a b : α} (run : Counted own other n a b) (start : holds a) : holds b := by
  induction run with
  | refl => exact start
  | own _ step ih => exact kept _ _ (ih start) (.inl step)
  | other _ step ih => exact kept _ _ (ih start) (.inr step)

theorem bounded {holds : α → Prop} {rank : α → Nat}
    (kept : ∀ a b, holds a → own a b ∨ other a b → holds b)
    (lower : ∀ a b, holds a → own a b → rank b < rank a)
    (same : ∀ a b, holds a → other a b → rank b ≤ rank a)
    {n : Nat} {a b : α} (run : Counted own other n a b) (start : holds a) :
    n + rank b ≤ rank a := by
  induction run with
  | refl => omega
  | own run step ih =>
    have last := lower _ _ (run.invariant kept start) step
    have before := ih start
    omega
  | other run step ih =>
    have last := same _ _ (run.invariant kept start) step
    have before := ih start
    omega

end Counted
end Foundation
