import Mathlib.Order.Bounds.Basic

/-! The first element of a set that may be empty, and the searches that find it. -/
namespace Foundation

variable {α β : Type*} [LinearOrder α]

/-- `result` is the least element of `s`, and `none` exactly when `s` is empty. -/
def IsFirst (s : Set α) : Option α → Prop
  | none => s = ∅
  | some a => IsLeast s a

def earlier : Option α → Option α → Option α
  | some a, some b => some (min a b)
  | a, b => a.or b

namespace IsFirst

theorem unique {s : Set α} {a b : Option α} (first : IsFirst s a) (second : IsFirst s b) :
    a = b := by
  cases a with
  | none =>
    cases b with
    | none => rfl
    | some b =>
      change s = ∅ at first
      exact absurd second.1 (by simp [first])
  | some a =>
    cases b with
    | none =>
      change s = ∅ at second
      exact absurd first.1 (by simp [second])
    | some b => exact congrArg some (IsLeast.unique first second)

theorem of_mem {s : Set α} {a : Option α} (first : IsFirst s a) {x : α} (member : x ∈ s) :
    ∃ least, a = some least ∧ IsLeast s least := by
  cases a with
  | none =>
    change s = ∅ at first
    rw [first] at member
    exact absurd member (Set.notMem_empty x)
  | some least => exact ⟨least,rfl,first⟩

theorem congr {s t : Set α} {a : Option α} (first : IsFirst s a) (same : ∀ x, x ∈ s ↔ x ∈ t) :
    IsFirst t a := by
  rwa [← Set.ext same]

theorem union {s t : Set α} {a b : Option α} (first : IsFirst s a) (second : IsFirst t b) :
    IsFirst (s ∪ t) (earlier a b) := by
  cases a with
  | none =>
    change s = ∅ at first
    rw [first,Set.empty_union]
    cases b <;> exact second
  | some a =>
    cases b with
    | none =>
      change t = ∅ at second
      rw [second,Set.union_empty]
      exact first
    | some b => exact IsLeast.union first second

theorem cut {s : Set α} {a : α} (least : IsLeast s a) (last : α) :
    IsFirst (s ∩ Set.Iic last) (if last < a then none else some a) := by
  split
  · rename_i late
    rw [IsFirst,Set.eq_empty_iff_forall_notMem]
    intro x inside
    exact absurd (lt_of_lt_of_le late (least.2 inside.1)) (not_lt.mpr inside.2)
  · rename_i early
    exact ⟨⟨least.1,not_lt.mp early⟩,fun x inside => least.2 inside.1⟩

/-- A fold that adds the set of each item to what it has searched finds the first of them all. -/
theorem fold {items : List β} {found : β → Set α} {step : Option α → β → Option α}
    (sound : ∀ item ∈ items, ∀ s a, IsFirst s a → IsFirst (s ∪ found item) (step a item))
    {s : Set α} {a : Option α} (start : IsFirst s a) :
    IsFirst (s ∪ {x | ∃ item ∈ items, x ∈ found item}) (items.foldl step a) := by
  induction items generalizing s a with
  | nil =>
    apply start.congr
    intro x
    simp
  | cons item rest ih =>
    have next := sound item List.mem_cons_self s a start
    have done := ih (fun other member => sound other (List.mem_cons_of_mem item member)) next
    apply done.congr
    intro x
    simp [or_assoc]

/-- Two nested folds find the first of what is found at each pair of items. -/
theorem fold_both {γ : Type*} {items : List β} {others : List γ} {found : β → γ → Set α}
    {candidate : β → γ → Option α} (each : ∀ x y, IsFirst (found x y) (candidate x y)) :
    IsFirst {a | ∃ x ∈ items, ∃ y ∈ others, a ∈ found x y}
      (items.foldl (fun best x => others.foldl (fun best y => earlier best (candidate x y)) best)
        none) := by
  have nothing : IsFirst (∅ : Set α) none := rfl
  have row : ∀ x ∈ items, ∀ set best, IsFirst set best →
      IsFirst (set ∪ {a | ∃ y ∈ others, a ∈ found x y})
        (others.foldl (fun best y => earlier best (candidate x y)) best) := by
    intro x _ set best first
    apply fold _ first
    intro y _ others sofar earlier
    exact earlier.union (each x y)
  apply (fold row nothing).congr
  intro a
  simp only [Set.empty_union,Set.mem_ofPred_eq]

theorem of_option (a : Option α) : IsFirst {x | a = some x} a := by
  cases a with
  | none =>
    apply Set.eq_empty_of_forall_notMem
    intro x member
    cases member
  | some a => exact ⟨rfl,fun x member => le_of_eq (Option.some.inj member)⟩

/-- Where `s` has a first element, `t` has the same one exactly when nothing in either set
comes before all they have in common. -/
theorem same_iff {s t : Set α} {a : Option α} (first : IsFirst s a) :
    IsFirst t a ↔ ∀ x ∈ s ∪ t, ∃ y ∈ s ∩ t, y ≤ x := by
  constructor
  · intro second x member
    cases a with
    | none =>
      change s = ∅ at first
      change t = ∅ at second
      simp [first,second] at member
    | some a =>
      refine ⟨a,⟨first.1,second.1⟩,?_⟩
      rcases member with left | right
      · exact first.2 left
      · exact second.2 right
  · intro shared
    cases a with
    | none =>
      change s = ∅ at first
      rw [IsFirst,Set.eq_empty_iff_forall_notMem]
      intro x inside
      obtain ⟨y,⟨member,_⟩,_⟩ := shared x (Or.inr inside)
      simp [first] at member
    | some a =>
      obtain ⟨y,⟨left,right⟩,below⟩ := shared a (Or.inl first.1)
      have same : y = a := le_antisymm below (first.2 left)
      refine ⟨same ▸ right,?_⟩
      intro x inside
      obtain ⟨z,⟨member,_⟩,before⟩ := shared x (Or.inr inside)
      exact (first.2 member).trans before

private theorem shared_above {s : Set α} {bound : α} :
    (∀ x ∈ s ∪ s ∩ Set.Ici bound, ∃ y ∈ s ∩ (s ∩ Set.Ici bound), y ≤ x) ↔
      ∀ x ∈ s, bound ≤ x := by
  constructor
  · intro shared x inside
    obtain ⟨y,⟨_,_,above⟩,below⟩ := shared x (Or.inl inside)
    exact le_trans above below
  · intro all x member
    have inside : x ∈ s := member.elim id And.left
    exact ⟨x,⟨inside,inside,all x inside⟩,le_rfl⟩

theorem above_iff {s : Set α} {a : Option α} {bound : α} (first : IsFirst s a) :
    IsFirst (s ∩ Set.Ici bound) a ↔ ∀ x ∈ s, bound ≤ x := by
  rw [first.same_iff]
  exact shared_above

theorem below_iff {s : Set α} {a : Option α} {bound : α} (first : IsFirst (s ∩ Set.Ici bound) a) :
    IsFirst s a ↔ ∀ x ∈ s, bound ≤ x := by
  rw [first.same_iff,Set.union_comm,Set.inter_comm (s ∩ Set.Ici bound) s]
  exact shared_above

end IsFirst
end Foundation
