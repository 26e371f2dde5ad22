import Rinklers.IndexMap
import Mathlib.Logic.Relation

/-! `IndexMap` as a finite map whose keys stay put. `index` reads off the map that a vector of
slots stands for; what the operations do to the slots is forgotten but for the free list. -/
namespace Rinklers.IndexMap
open Foundation

variable {E : Type*}

/-- The operations, each where the source may call it: `remove` on one of the slots, the others
where they do not panic. -/
inductive Step : IndexMap E → IndexMap E → Prop
  | insert {map after : IndexMap E} (element : E) (key : Nat)
      (done : map.insert element = some (after,key)) : Step map after
  | remove {map after : IndexMap E} (key : Nat) (removed : Option E)
      (inside : key < map.entries.length) (done : map.remove key = some (removed,after)) :
      Step map after
  | retain (map : IndexMap E) (keep : E → Bool) : Step map (map.retain keep)
  | update {α : Type} {map after : IndexMap E} (key : Nat) (change : E → α × E) (result : α)
      (done : map.update key change = some (result,after)) : Step map after
  | forMut {σ : Type} (map : IndexMap E) (body : σ → Nat → E → σ × E) (s : σ) :
      Step map (map.forMut body s).2
  | valuesMut {σ : Type} (map : IndexMap E) (body : σ → E → σ × E) (s : σ) :
      Step map (map.valuesMut body s).2
  | fromIter {map after : IndexMap E} (elements : List E)
      (done : fromIter elements = some after) : Step map after

def Reached (map : IndexMap E) : Prop := Relation.ReflTransGen Step new map

theorem index_of_update {α : Type*} {map after : IndexMap E} {key : Nat} {change : E → α × E}
    {result : α} (done : map.update key change = some (result,after)) :
    ∃ value, map.index key = some value := by
  obtain ⟨value,live,_⟩ := Option.map_eq_some_iff.mp done
  exact ⟨value,live⟩

theorem remove_wellFormed {map after : IndexMap E} (formed : map.WellFormed) {key : Nat}
    {removed : Option E} (inside : key < map.entries.length)
    (done : map.remove key = some (removed,after)) : after.WellFormed := by
  cases live : map.index key with
  | none =>
    cases (remove_free inside live).symm.trans done
    exact formed
  | some value =>
    obtain ⟨_,removes,_,kept⟩ := remove_live live
    cases removes.symm.trans done
    exact kept formed

theorem step_wellFormed {map after : IndexMap E} (formed : map.WellFormed)
    (step : Step map after) : after.WellFormed := by
  cases step with
  | insert element key done =>
    obtain ⟨_,_,inserted,_,_,kept⟩ := insert_spec formed element
    cases inserted.symm.trans done
    exact kept
  | remove key removed inside done => exact remove_wellFormed formed inside done
  | retain _ keep => exact retain_wellFormed keep formed
  | update key change result done =>
    obtain ⟨value,live⟩ := index_of_update done
    obtain ⟨_,updated,_,kept⟩ := update_live live change
    cases updated.symm.trans done
    exact kept formed
  | forMut _ body s => exact forMut_wellFormed formed body s
  | valuesMut _ body s => exact forMut_wellFormed formed (fun s _ value => body s value) s
  | fromIter elements done =>
    cases (fromIter_eq elements).symm.trans done
    exact fromElements_wellFormed elements

theorem reached_wellFormed {map : IndexMap E} (reached : Reached map) : map.WellFormed := by
  induction reached with
  | refl => exact new_wellFormed
  | tail _ step ih => exact step_wellFormed ih step

theorem iter_eq (map : IndexMap E) : map.iter =
    map.indeces.filterMap (fun key => (map.index key).map (fun value => (key,value))) := by
  have live : ∀ binding ∈ map.iter, map.index binding.1 = some binding.2 :=
    fun binding member => mem_iter.mp member
  rw [indeces]
  generalize map.iter = bindings at live
  induction bindings with
  | nil => rfl
  | cons binding rest ih =>
    have here := live binding List.mem_cons_self
    have there := ih (fun other member => live other (List.mem_cons_of_mem _ member))
    rw [List.map_cons,List.filterMap_cons_some (by rw [here]; rfl),← there]

theorem values_eq (map : IndexMap E) : map.values = map.indeces.filterMap map.index := by
  rw [values,iter_eq,List.map_filterMap]
  congr 1
  funext key
  cases map.index key <;> rfl

/-- What it means for the map to be a finite map with stable keys, whatever is done next. -/
structure FiniteMap (map : IndexMap E) : Prop where
  freeList : ∃ cells, FreeList map.link map.nextEmpty cells ∧
    ∀ cell ∈ cells, cell < map.entries.length
  insert : ∀ element, ∃ after key, map.insert element = some (after,key) ∧
    map.index key = none ∧ after.index = Function.update map.index key (some element)
  remove : ∀ key, key < map.entries.length → ∃ after,
    map.remove key = some (map.index key,after) ∧
      after.index = Function.update map.index key none ∧ (map.index key = none → after = map)
  retain : ∀ keep : E → Bool, (map.retain keep).index = fun key => (map.index key).filter keep
  update : ∀ key value, map.index key = some value → ∀ {α : Type} (change : E → α × E), ∃ after,
    map.update key change = some ((change value).1,after) ∧
      after.index = Function.update map.index key (some (change value).2)
  fromIter : ∀ elements : List E, ∃ made, fromIter elements = some made ∧
    made.index = fun key => elements[key]?
  indeces : map.indeces.Pairwise (· < ·) ∧
    ∀ key, key ∈ map.indeces ↔ (map.index key).isSome = true
  iter : map.iter =
    map.indeces.filterMap (fun key => (map.index key).map (fun value => (key,value)))
  values : map.values = map.indeces.filterMap map.index
  iterMut : ∀ {σ : Type} (body : σ → Nat → E → σ × E) s,
    (map.forMut body s).1 = map.iter.foldl (fun s binding => (body s binding.1 binding.2).1) s
  iterMutChanges : ∀ {σ : Type} (note : σ → Nat → E → σ) (change : Nat → E → E) s,
    (map.forMut (fun s key value => (note s key value,change key value)) s).2.index =
      fun key => (map.index key).map (change key)
  iterMutLive : ∀ {σ : Type} (body : σ → Nat → E → σ × E) s key,
    ((map.forMut body s).2.index key).isSome = (map.index key).isSome
  valuesMut : ∀ {σ : Type} (body : σ → E → σ × E) s,
    (map.valuesMut body s).1 = map.values.foldl (fun s value => (body s value).1) s
  valuesMutChanges : ∀ {σ : Type} (note : σ → E → σ) (change : E → E) s,
    (map.valuesMut (fun s value => (note s value,change value)) s).2.index =
      fun key => (map.index key).map change
  valuesMutLive : ∀ {σ : Type} (body : σ → E → σ × E) s key,
    ((map.valuesMut body s).2.index key).isSome = (map.index key).isSome

/-- After any history of operations the map is a finite map with stable keys, none of whose
operations panics. -/
theorem refines_finite_map {map : IndexMap E} (reached : Reached map) : FiniteMap map where
  freeList := by
    obtain ⟨cells,list⟩ := reached_wellFormed reached
    exact ⟨cells,list,fun key member => ((free_iff key).mp (list.chain.free member)).1⟩
  insert element := by
    obtain ⟨after,key,done,fresh,bound,_⟩ := insert_spec (reached_wellFormed reached) element
    exact ⟨after,key,done,fresh,bound⟩
  remove key inside := by
    cases live : map.index key with
    | none =>
      refine ⟨map,remove_free inside live,?_,fun _ => rfl⟩
      exact (Function.update_eq_self_iff.mpr live.symm).symm
    | some value =>
      obtain ⟨after,done,deleted,_⟩ := remove_live live
      exact ⟨after,done,deleted,fun free => by cases free⟩
  retain keep := index_retain keep map
  update key value live _ change := by
    obtain ⟨after,done,changed,_⟩ := update_live live change
    exact ⟨after,done,changed⟩
  fromIter elements := ⟨_,fromIter_eq elements,index_fromElements elements⟩
  indeces := ⟨indeces_sorted map,fun _ => mem_indeces⟩
  iter := iter_eq map
  values := values_eq map
  iterMut body s := forMut_state map body s
  iterMutChanges note change s := index_forMut map note change s
  iterMutLive body s key := forMut_live map body s key
  valuesMut body s := valuesMut_state map body s
  valuesMutChanges note change s := index_valuesMut map note change s
  valuesMutLive body s key := forMut_live map (fun s _ value => body s value) s key

/-- The history of `test_index_map`, up to the slot that is free. -/
theorem refines_after_removal : ∃ map : IndexMap Nat,
    map.nextEmpty = some 0 ∧ map.values = [200,300,400] ∧ FiniteMap map := by
  have first : Step (new : IndexMap Nat) ⟨[.element 100],none⟩ := .insert 100 0 rfl
  have second : Step (⟨[.element 100],none⟩ : IndexMap Nat)
      ⟨[.element 100,.element 200],none⟩ := .insert 200 1 rfl
  have third : Step (⟨[.element 100,.element 200],none⟩ : IndexMap Nat)
      ⟨[.element 100,.element 200,.element 300],none⟩ := .insert 300 2 rfl
  have fourth : Step (⟨[.element 100,.element 200,.element 300],none⟩ : IndexMap Nat)
      ⟨[.element 100,.element 200,.element 300,.element 400],none⟩ := .insert 400 3 rfl
  have removal : Step (⟨[.element 100,.element 200,.element 300,.element 400],none⟩ : IndexMap Nat)
      ⟨[.empty none,.element 200,.element 300,.element 400],some 0⟩ :=
    .remove 0 (some 100) (by decide) rfl
  have reached : Reached (⟨[.empty none,.element 200,.element 300,.element 400],some 0⟩ :
      IndexMap Nat) :=
    ((((Relation.ReflTransGen.single first).tail second).tail third).tail fourth).tail removal
  exact ⟨_,rfl,rfl,refines_finite_map reached⟩

/-- The end of `test_index_map`: ten is added to each value of the copy. -/
example : ((⟨[.element 500,.element 200,.element 300,.element 400],none⟩ : IndexMap Nat).valuesMut
    (fun _ item => ((),item + 10)) ()).2 =
      ⟨[.element 510,.element 210,.element 310,.element 410],none⟩ := rfl

end Rinklers.IndexMap
