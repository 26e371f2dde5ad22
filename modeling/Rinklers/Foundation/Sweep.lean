import Rinklers.Foundation.First

/-! A search that is done again after each element that it has found. It need not go on where it
has stopped: what it skips then, and nothing else, is never found. -/
namespace Foundation

variable {α : Type*} [LinearOrder α]

/-- What has been found, each element with the place from which the search has gone on, and the
`cursor`, from which it goes on now. -/
inductive Sweep (next : α → Option α) (start : α) : List (α × α) → α → Prop
  | start : Sweep next start [] start
  | found {found : List (α × α)} {cursor : α} (element restart : α)
      (sweep : Sweep next start found cursor) (searched : next cursor = some element) :
      Sweep next start (found ++ [(element,restart)]) restart

variable {next : α → Option α} {start cursor : α} {found : List (α × α)} {s : Set α}

namespace Sweep

theorem searched_le (exact : ∀ cursor, IsFirst {x | x ∈ s ∧ cursor ≤ x} (next cursor)) {x : α}
    (member : x ∈ s) (ahead : cursor ≤ x) : ∃ element, next cursor = some element ∧ element ≤ x := by
  obtain ⟨element,first,least⟩ := (exact cursor).of_mem ⟨member,ahead⟩
  exact ⟨element,first,least.2 ⟨member,ahead⟩⟩

theorem mem_of_found (exact : ∀ cursor, IsFirst {x | x ∈ s ∧ cursor ≤ x} (next cursor))
    (sweep : Sweep next start found cursor) {x restart : α} (hit : (x,restart) ∈ found) : x ∈ s := by
  induction sweep with
  | start => cases hit
  | @found found cursor element place sweep searched ih =>
    rcases List.mem_append.mp hit with before | now
    · exact ih before
    · cases List.mem_singleton.mp now
      have first := exact cursor
      rw [searched] at first
      exact first.1.1

/-- An element is found, skipped by a restart after an earlier one, or still ahead. -/
theorem covers (exact : ∀ cursor, IsFirst {x | x ∈ s ∧ cursor ≤ x} (next cursor))
    (sweep : Sweep next start found cursor) {x : α} (member : x ∈ s) (after : start ≤ x) :
    (∃ restart, (x,restart) ∈ found) ∨
      (∃ element restart, (element,restart) ∈ found ∧ element < x ∧ x < restart) ∨ cursor ≤ x := by
  induction sweep with
  | start => exact .inr (.inr after)
  | @found found cursor element restart sweep searched ih =>
    rcases ih with ⟨place,hit⟩ | ⟨earlier,place,hit,below,above⟩ | ahead
    · exact .inl ⟨place,List.mem_append_left _ hit⟩
    · exact .inr (.inl ⟨earlier,place,List.mem_append_left _ hit,below,above⟩)
    · obtain ⟨first,same,least⟩ := searched_le exact member ahead
      cases searched.symm.trans same
      rcases least.eq_or_lt with rfl | below
      · exact .inl ⟨restart,List.mem_append_right _ (List.mem_singleton_self _)⟩
      · rcases le_or_gt restart x with behind | above
        · exact .inr (.inr behind)
        · exact .inr (.inl ⟨element,restart,
            List.mem_append_right _ (List.mem_singleton_self _),below,above⟩)

end Sweep
end Foundation
