import Mathlib.Data.List.Nodup
import Mathlib.Logic.Function.Basic

/-! A linked list of free cells that is threaded through the cells themselves. `link` says of
each cell whether it is free and, if so, which cell comes after it. -/
namespace Foundation

variable {Cell : Type*}

inductive Chain (link : Cell → Option (Option Cell)) : Option Cell → List Cell → Prop
  | nil : Chain link none []
  | cons {cell : Cell} {next : Option Cell} {cells : List Cell} (linked : link cell = some next)
      (rest : Chain link next cells) : Chain link (some cell) (cell::cells)

namespace Chain
variable {link other : Cell → Option (Option Cell)} {head : Option Cell} {cells : List Cell}

theorem congr (chain : Chain link head cells) (same : ∀ cell ∈ cells, other cell = link cell) :
    Chain other head cells := by
  induction chain with
  | nil => exact .nil
  | cons linked rest ih =>
    refine .cons ((same _ List.mem_cons_self).trans linked) (ih ?_)
    intro cell member
    exact same cell (List.mem_cons_of_mem _ member)

theorem free (chain : Chain link head cells) {cell : Cell} (member : cell ∈ cells) :
    ∃ next, link cell = some next := by
  induction chain with
  | nil => simp at member
  | cons linked rest ih =>
    rcases List.mem_cons.mp member with rfl | inside
    · exact ⟨_,linked⟩
    · exact ih inside

end Chain

/-- The chain from `head` on ends, and visits every free cell exactly once. -/
structure FreeList (link : Cell → Option (Option Cell)) (head : Option Cell)
    (cells : List Cell) : Prop where
  chain : Chain link head cells
  distinct : cells.Nodup
  complete : ∀ cell next, link cell = some next → cell ∈ cells

namespace FreeList
variable {link : Cell → Option (Option Cell)} {head : Option Cell} {cells : List Cell}

theorem empty (full : ∀ cell, link cell = none) : FreeList link none [] where
  chain := .nil
  distinct := List.nodup_nil
  complete cell next linked := by simp [full cell] at linked

theorem head_eq (list : FreeList link head cells) : head = cells.head? := by
  obtain ⟨chain,_,_⟩ := list
  cases chain with
  | nil => rfl
  | cons linked rest => rfl

theorem mem_iff (list : FreeList link head cells) (cell : Cell) :
    cell ∈ cells ↔ ∃ next, link cell = some next := by
  constructor
  · exact list.chain.free
  · rintro ⟨next,linked⟩
    exact list.complete cell next linked

theorem full (list : FreeList link head []) (cell : Cell) : link cell = none := by
  by_contra free
  obtain ⟨next,linked⟩ := Option.ne_none_iff_exists'.mp free
  cases list.complete cell next linked

variable [DecidableEq Cell]

/-- Taking the first cell leaves the list of the others. -/
theorem take {cell : Cell} (list : FreeList link (some cell) cells) :
    ∃ next rest, cells = cell::rest ∧ link cell = some next ∧
      FreeList (Function.update link cell none) next rest := by
  cases list with
  | mk chain distinct complete =>
    cases chain with
    | cons linked rest =>
      rename_i next cells
      obtain ⟨absent,distinct⟩ := List.nodup_cons.mp distinct
      refine ⟨next,cells,rfl,linked,rest.congr ?_,distinct,?_⟩
      · intro other member
        apply Function.update_of_ne
        rintro rfl
        exact absent member
      · intro other after found
        have apart : other ≠ cell := by
          rintro rfl
          simp at found
        rw [Function.update_of_ne apart] at found
        exact (List.mem_cons.mp (complete other after found)).resolve_left apart

/-- A cell that is in use is given back in front of the list. -/
theorem give (list : FreeList link head cells) {cell : Cell} (used : link cell = none) :
    FreeList (Function.update link cell (some head)) (some cell) (cell::cells) := by
  have absent : cell ∉ cells := by
    intro member
    obtain ⟨next,linked⟩ := list.chain.free member
    simp [used] at linked
  refine ⟨.cons (Function.update_self _ _ _) (list.chain.congr ?_),
    List.nodup_cons.mpr ⟨absent,list.distinct⟩,?_⟩
  · intro other member
    apply Function.update_of_ne
    rintro rfl
    exact absent member
  · intro other next found
    by_cases same : other = cell
    · exact List.mem_cons.mpr (Or.inl same)
    · rw [Function.update_of_ne same] at found
      exact List.mem_cons_of_mem _ (list.complete other next found)

end FreeList

section Order

/-- One cell has been given back since the other was given back last. -/
def GivenSince (given : List Cell) (cell other : Cell) : Prop :=
  ∃ before after, given = before ++ cell::after ∧ other ∉ after

/-- What was given back last is first. -/
def LastFirst (given cells : List Cell) : Prop := cells.Pairwise (GivenSince given)

variable {given cells : List Cell} {cell : Cell}

theorem GivenSince.append {other next : Cell} (since : GivenSince given cell other)
    (apart : other ≠ next) : GivenSince (given ++ [next]) cell other := by
  obtain ⟨before,after,rfl,absent⟩ := since
  refine ⟨before,after ++ [next],by simp,?_⟩
  intro member
  rcases List.mem_append.mp member with inside | last
  · exact absent inside
  · exact apart (List.mem_singleton.mp last)

theorem LastFirst.give (order : LastFirst given cells) (absent : cell ∉ cells) :
    LastFirst (given ++ [cell]) (cell::cells) := by
  refine List.pairwise_cons.mpr ⟨fun other _ => ⟨given,[],rfl,by simp⟩,?_⟩
  apply order.imp_of_mem
  intro first second _ member since
  apply since.append
  rintro rfl
  exact absent member

end Order

end Foundation
