import Rinklers.IndexMapRefinement
import Mathlib.Order.Bounds.Basic

/-! How `IndexMap` uses its slots. A slot that is freed is taken again before the vector grows, the
one freed last before the others, so that there are never more slots than there were elements. -/
namespace Rinklers.IndexMap
open Foundation

variable {E : Type*}

/-- The maps there have been since the empty one, the keys that have been freed, in the order in
which it happened, and the map there is now. -/
inductive History : List (IndexMap E) → List Nat → IndexMap E → Prop
  | new : History [new] [] new
  | insert {past : List (IndexMap E)} {freed : List Nat} {map after : IndexMap E}
      (history : History past freed map) (element : E) (key : Nat)
      (done : map.insert element = some (after,key)) : History (past ++ [after]) freed after
  | remove {past : List (IndexMap E)} {freed : List Nat} {map after : IndexMap E}
      (history : History past freed map) (key : Nat) (removed : Option E)
      (done : map.remove key = some (removed,after)) :
      History (past ++ [after]) (freed ++ if removed.isSome then [key] else []) after
  | retain {past : List (IndexMap E)} {freed : List Nat} {map : IndexMap E}
      (history : History past freed map) (keep : E → Bool) :
      History (past ++ [map.retain keep]) (freed ++ map.dropped keep) (map.retain keep)

/-- One insertion after the other, and the keys they return. -/
def insertAll (map : IndexMap E) : List E → Option (IndexMap E × List Nat)
  | [] => some (map,[])
  | element::rest => (map.insert element).bind (fun (map, key) =>
    (insertAll map rest).map (fun (map, keys) => (map,key::keys)))

section Slots
variable {map after : IndexMap E} {past : List (IndexMap E)} {freed cells : List Nat}

/-- The free slots are chained up in the order in which they have been freed, the last one first. -/
def Stacked (map : IndexMap E) (freed cells : List Nat) : Prop :=
  FreeList map.link map.nextEmpty cells ∧ LastFirst freed cells

theorem remove_stacked (stacked : map.Stacked freed cells) {key : Nat} {value : E}
    (live : map.index key = some value) :
    ∃ after, map.remove key = some (some value,after) ∧
      after.index = Function.update map.index key none ∧
      after.entries.length = map.entries.length ∧ after.Stacked (freed ++ [key]) (key::cells) := by
  obtain ⟨list,order⟩ := stacked
  obtain ⟨after,done,deleted,size,given⟩ := remove_give live
  refine ⟨after,done,deleted,size,given cells list,order.give ?_⟩
  intro member
  obtain ⟨next,free⟩ := list.chain.free member
  simp [link_of_index live] at free

theorem removes_stacked (stacked : map.Stacked freed cells) {keys : List Nat}
    (distinct : keys.Nodup) (live : ∀ key ∈ keys, (map.index key).isSome = true)
    (done : keys.foldlM (fun (map : IndexMap E) key => (map.remove key).map Prod.snd) map =
      some after) :
    after.entries.length = map.entries.length ∧ ∃ cells, after.Stacked (freed ++ keys) cells := by
  induction keys generalizing map freed cells with
  | nil =>
    cases done
    exact ⟨rfl,cells,by rwa [List.append_nil]⟩
  | cons key keys ih =>
    obtain ⟨here,others⟩ := List.forall_mem_cons.mp live
    obtain ⟨absent,distinct⟩ := List.nodup_cons.mp distinct
    obtain ⟨value,found⟩ := Option.isSome_iff_exists.mp here
    obtain ⟨next,removes,deleted,size,stacked⟩ := remove_stacked stacked found
    rw [List.foldlM_cons,removes] at done
    have still : ∀ other ∈ keys, (next.index other).isSome = true := by
      intro other member
      have apart : other ≠ key := by
        rintro rfl
        exact absent member
      rw [deleted,Function.update_of_ne apart]
      exact others other member
    obtain ⟨same,cells,order⟩ := ih stacked distinct still done
    refine ⟨same.trans size,cells,?_⟩
    rwa [List.append_assoc] at order

theorem retain_stacked (stacked : map.Stacked freed cells) (keep : E → Bool) :
    (map.retain keep).entries.length = map.entries.length ∧
      ∃ cells, (map.retain keep).Stacked (freed ++ map.dropped keep) cells := by
  have part : (map.dropped keep).Sublist map.indeces := List.filter_sublist.map Prod.fst
  have distinct : (map.dropped keep).Nodup :=
    ((indeces_sorted map).sublist part).imp Nat.ne_of_lt
  apply removes_stacked stacked distinct _ (retain_removes keep map)
  intro key member
  exact mem_indeces.mp (part.subset member)

theorem insertAll_stacked (list : FreeList map.link map.nextEmpty cells) {elements : List E}
    (same : elements.length = cells.length) :
    ∃ after, map.insertAll elements = some (after,cells) ∧
      after.entries.length = map.entries.length ∧ FreeList after.link after.nextEmpty [] := by
  induction cells generalizing map elements with
  | nil =>
    cases List.length_eq_zero_iff.mp same
    exact ⟨map,rfl,rfl,list⟩
  | cons key cells ih =>
    cases elements with
    | nil => cases same
    | cons element elements =>
      obtain ⟨next,done,_,_,size,shorter⟩ := insert_take list element
      obtain ⟨after,others,equal,full⟩ := ih shorter (Nat.succ.inj same)
      refine ⟨after,?_,equal.trans size,full⟩
      rw [insertAll,done,Option.bind_some]
      dsimp only
      rw [others,Option.map_some]

end Slots

section Peak
variable {map after : IndexMap E} {past : List (IndexMap E)}

/-- The number of slots is the largest number of elements there have been at one time. -/
def AtPeak (past : List (IndexMap E)) (slots : Nat) : Prop :=
  IsGreatest {count | ∃ old ∈ past, old.values.length = count} slots

theorem AtPeak.keep (peak : AtPeak past map.entries.length)
    (same : after.entries.length = map.entries.length) :
    AtPeak (past ++ [after]) after.entries.length := by
  obtain ⟨⟨old,member,count⟩,most⟩ := peak
  rw [same]
  refine ⟨⟨old,List.mem_append_left _ member,count⟩,?_⟩
  rintro _ ⟨other,inside,rfl⟩
  rcases List.mem_append.mp inside with before | now
  · exact most ⟨other,before,rfl⟩
  · rw [List.mem_singleton.mp now,← same]
    exact values_length_le after

theorem AtPeak.grow (peak : AtPeak past map.entries.length)
    (larger : after.entries.length = map.entries.length + 1) (full : ∀ key, after.link key = none) :
    AtPeak (past ++ [after]) after.entries.length := by
  have all : after.values.length = after.entries.length := by
    rw [entries_full full,List.length_map]
  refine ⟨⟨after,by simp,all⟩,?_⟩
  rintro _ ⟨other,inside,rfl⟩
  rcases List.mem_append.mp inside with before | now
  · rw [larger]
    exact Nat.le_succ_of_le (peak.2 ⟨other,before,rfl⟩)
  · rw [List.mem_singleton.mp now]
    exact values_length_le after

end Peak

section Histories
variable {past : List (IndexMap E)} {freed : List Nat} {map : IndexMap E}

theorem history_stacked (history : History past freed map) :
    (∃ cells, map.Stacked freed cells) ∧ AtPeak past map.entries.length := by
  induction history with
  | new =>
    refine ⟨⟨[],FreeList.empty (fun _ => rfl),List.Pairwise.nil⟩,⟨new,by simp,rfl⟩,?_⟩
    rintro _ ⟨old,member,rfl⟩
    rw [List.mem_singleton.mp member]
    exact Nat.le_refl 0
  | insert history element key done ih =>
    obtain ⟨⟨cells,list,order⟩,peak⟩ := ih
    cases cells with
    | nil =>
      obtain ⟨after,inserted,_,larger,kept⟩ := insert_grow list element
      cases inserted.symm.trans done
      exact ⟨⟨[],kept,List.Pairwise.nil⟩,peak.grow larger kept.full⟩
    | cons first cells =>
      obtain ⟨after,inserted,_,_,same,kept⟩ := insert_take list element
      cases inserted.symm.trans done
      exact ⟨⟨cells,kept,(List.pairwise_cons.mp order).2⟩,peak.keep same⟩
  | @remove past freed map after history key removed done ih =>
    obtain ⟨⟨cells,stacked⟩,peak⟩ := ih
    cases live : map.index key with
    | none =>
      obtain ⟨entry,place,_⟩ := Option.map_eq_some_iff.mp done
      have inside := (List.getElem?_eq_some_iff.mp place).1
      cases (remove_free inside live).symm.trans done
      refine ⟨⟨cells,?_⟩,peak.keep rfl⟩
      simpa using stacked
    | some value =>
      obtain ⟨after,removes,_,same,kept⟩ := remove_stacked stacked live
      cases removes.symm.trans done
      exact ⟨⟨_,kept⟩,peak.keep same⟩
  | retain history keep ih =>
    obtain ⟨⟨cells,stacked⟩,peak⟩ := ih
    obtain ⟨same,kept⟩ := retain_stacked stacked keep
    exact ⟨kept,peak.keep same⟩

/-- No slot is wasted: the vector is as long as it has to be, the free slots are taken first and
in the opposite order, and a map without any is the one made from its values. -/
structure Reuses (past : List (IndexMap E)) (freed : List Nat) (map : IndexMap E) : Prop where
  peak : IsGreatest {count | ∃ old ∈ past, old.values.length = count} map.entries.length
  reuse : ∃ keys : List Nat, keys.Nodup ∧
    (∀ key, key ∈ keys ↔ key < map.entries.length ∧ map.index key = none) ∧
    keys.Pairwise (GivenSince freed) ∧
    ∀ elements : List E, elements.length = keys.length → ∃ after,
      map.insertAll elements = some (after,keys) ∧
        ∀ element, ∃ grown, after.insert element = some (grown,map.entries.length)
  full : (∀ key, key < map.entries.length → (map.index key).isSome = true) →
    fromIter map.values = some map

theorem slots_reused (history : History past freed map) : Reuses past freed map := by
  obtain ⟨⟨cells,list,order⟩,peak⟩ := history_stacked history
  have free : ∀ key, key ∈ cells ↔ key < map.entries.length ∧ map.index key = none :=
    fun key => (list.mem_iff key).trans (free_iff key)
  refine ⟨peak,⟨cells,list.distinct,free,order,?_⟩,?_⟩
  · intro elements same
    obtain ⟨after,done,size,full⟩ := insertAll_stacked list same
    refine ⟨after,done,?_⟩
    intro element
    obtain ⟨grown,inserted,_⟩ := insert_grow full element
    rw [size] at inserted
    exact ⟨grown,inserted⟩
  · intro live
    have none_free : cells = [] := by
      rw [List.eq_nil_iff_forall_not_mem]
      intro key member
      obtain ⟨inside,empty⟩ := (free key).mp member
      have present := live key inside
      rw [empty] at present
      cases present
    subst none_free
    have chain : map.nextEmpty = none := list.head_eq
    rw [fromIter_eq,← entries_full list.full,← chain]

end Histories

/-- Two of three slots are free, and the second of them was freed last. -/
theorem slots_reused_after_removals : ∃ (past : List (IndexMap Nat)) (map : IndexMap Nat),
    map.entries = [.empty none,.element 200,.empty (some 0)] ∧ Reuses past [0,2] map := by
  have first : History [new,⟨[.element 100],none⟩] [] (⟨[.element 100],none⟩ : IndexMap Nat) :=
    .insert .new 100 0 rfl
  have second := first.insert 200 1 rfl
  have third := second.insert 300 2 rfl
  have fourth := third.remove 0 (some 100) rfl
  have fifth := fourth.remove 2 (some 300) rfl
  exact ⟨_,_,rfl,slots_reused fifth⟩

end Rinklers.IndexMap
