import Rinklers.Foundation.FreeList
import Mathlib.Data.List.Basic

/-! `mod index_map` of `schedule_runner.rs`: a vector whose free slots form a linked list.
Indexing a vector out of bounds and every `panic!` of the source is `none` here. -/
namespace Rinklers
open Foundation

inductive Entry (E : Type*)
  | element (value : E)
  | empty (next : Option Nat)
deriving DecidableEq, Repr

structure IndexMap (E : Type*) where
  entries : List (Entry E)
  nextEmpty : Option Nat
deriving DecidableEq, Repr

variable {E : Type*}

def Entry.element? : Entry E → Option E
  | .element value => some value
  | .empty _ => none

def Entry.next? : Entry E → Option (Option Nat)
  | .element _ => none
  | .empty next => some next

namespace IndexMap

def new : IndexMap E := ⟨[],none⟩

def insert (map : IndexMap E) (element : E) : Option (IndexMap E × Nat) :=
  match map.nextEmpty with
  | none => some (⟨map.entries ++ [.element element],none⟩,map.entries.length)
  | some index =>
    match map.entries[index]? with
    | some (.empty next) => some (⟨map.entries.set index (.element element),next⟩,index)
    | some (.element _) | none => none

/-- What `remove_entry` returns and what it leaves in `next_empty` and in the entry. -/
def removeEntry (nextEmpty : Option Nat) (index : Nat) :
    Entry E → Option E × Option Nat × Entry E
  | .element value => (some value,some index,.empty nextEmpty)
  | .empty next => (none,nextEmpty,.empty next)

def remove (map : IndexMap E) (index : Nat) : Option (Option E × IndexMap E) :=
  (map.entries[index]?).map (fun entry =>
    let (removed, nextEmpty, entry) := removeEntry map.nextEmpty index entry
    (removed,⟨map.entries.set index entry,nextEmpty⟩))

private def retainEntries (keep : E → Bool) :
    Nat → List (Entry E) → Option Nat → List (Entry E) × Option Nat
  | _, [], nextEmpty => ([],nextEmpty)
  | index, entry::rest, nextEmpty =>
    let retain := match entry with
      | .element value => keep value
      | .empty _ => true
    let (entry, nextEmpty) :=
      if retain then (entry,nextEmpty)
      else let (_, nextEmpty, entry) := removeEntry nextEmpty index entry; (entry,nextEmpty)
    let (rest, nextEmpty) := retainEntries keep (index + 1) rest nextEmpty
    (entry::rest,nextEmpty)

def retain (map : IndexMap E) (keep : E → Bool) : IndexMap E :=
  let (entries, nextEmpty) := retainEntries keep 0 map.entries map.nextEmpty
  ⟨entries,nextEmpty⟩

private def iterEntries : Nat → List (Entry E) → List (Nat × E)
  | _, [] => []
  | index, .empty _ :: rest => iterEntries (index + 1) rest
  | index, .element value :: rest => (index,value) :: iterEntries (index + 1) rest

def iter (map : IndexMap E) : List (Nat × E) := iterEntries 0 map.entries

def indeces (map : IndexMap E) : List Nat := map.iter.map Prod.fst

def values (map : IndexMap E) : List E := map.iter.map Prod.snd

def index (map : IndexMap E) (index : Nat) : Option E := map.entries[index]?.bind Entry.element?

def update {α : Type*} (map : IndexMap E) (index : Nat) (change : E → α × E) :
    Option (α × IndexMap E) :=
  (map.index index).map (fun element =>
    let (result, element) := change element
    (result,{map with entries := map.entries.set index (.element element)}))

private def forEntries {σ : Type*} (body : σ → Nat → E → σ × E) :
    Nat → List (Entry E) → σ → σ × List (Entry E)
  | _, [], s => (s,[])
  | index, .empty next :: rest, s =>
    let (s, rest) := forEntries body (index + 1) rest s
    (s,.empty next :: rest)
  | index, .element value :: rest, s =>
    let (s, value) := body s index value
    let (s, rest) := forEntries body (index + 1) rest s
    (s,.element value :: rest)

def forMut {σ : Type*} (map : IndexMap E) (body : σ → Nat → E → σ × E) (s : σ) :
    σ × IndexMap E :=
  let (s, entries) := forEntries body 0 map.entries s
  (s,{map with entries := entries})

/-- A loop over `values_mut`, whose iterator is that of `iter_mut` less the indices. -/
def valuesMut {σ : Type*} (map : IndexMap E) (body : σ → E → σ × E) (s : σ) : σ × IndexMap E :=
  map.forMut (fun s _ value => body s value) s

theorem forMut_single {σ : Type*} (body : σ → Nat → E → σ × E) (value : E)
    (nextEmpty : Option Nat) (s : σ) :
    (⟨[.element value],nextEmpty⟩ : IndexMap E).forMut body s =
      ((body s 0 value).1,⟨[.element (body s 0 value).2],nextEmpty⟩) := rfl

def fromIter (elements : List E) : Option (IndexMap E) :=
  elements.foldlM (fun map element => (map.insert element).map Prod.fst) new

private theorem mem_iterEntries (value : E) (index : Nat) (entries : List (Entry E)) :
    value ∈ (iterEntries index entries).map Prod.snd ↔ .element value ∈ entries := by
  induction entries generalizing index with
  | nil => simp [iterEntries]
  | cons entry rest ih => cases entry <;> simp [iterEntries,ih]

theorem mem_values {map : IndexMap E} {value : E} :
    value ∈ map.values ↔ .element value ∈ map.entries :=
  mem_iterEntries value 0 map.entries

theorem values_new : (new : IndexMap E).values = [] := rfl

private theorem mem_set_element {entries : List (Entry E)} {index : Nat}
    (inside : index < entries.length) (value : E) :
    .element value ∈ entries.set index (.element value) ∧
      ∀ other, .element other ∈ entries.set index (.element value) →
        other = value ∨ .element other ∈ entries := by
  refine ⟨List.mem_set inside _,?_⟩
  intro other member
  rcases List.mem_or_eq_of_mem_set member with old | new
  · exact Or.inr old
  · exact Or.inl (Entry.element.inj new)

theorem values_insert {map after : IndexMap E} {value : E} {index : Nat}
    (inserted : map.insert value = some (after,index)) :
    value ∈ after.values ∧ ∀ other ∈ after.values, other = value ∨ other ∈ map.values := by
  simp only [mem_values]
  unfold insert at inserted
  split at inserted
  · cases inserted
    simp [or_comm]
  · split at inserted
    · rename_i found
      cases inserted
      exact mem_set_element (List.getElem?_eq_some_iff.mp found).1 value
    · cases inserted
    · cases inserted

theorem values_remove {map after : IndexMap E} {removed : Option E} {index : Nat}
    (done : map.remove index = some (removed,after)) :
    ∀ other ∈ after.values, other ∈ map.values := by
  intro other member
  rw [mem_values] at member ⊢
  obtain ⟨entry,found,same⟩ := Option.map_eq_some_iff.mp done
  cases same
  rcases List.mem_or_eq_of_mem_set member with old | new
  · exact old
  · cases entry <;> cases new

theorem values_update {α : Type*} {map after : IndexMap E} {result : α} {index : Nat}
    {change : E → α × E} (done : map.update index change = some (result,after)) :
    ∃ old ∈ map.values, (change old).2 ∈ after.values ∧
      ∀ other ∈ after.values, other = (change old).2 ∨ other ∈ map.values := by
  obtain ⟨old,found,same⟩ := Option.map_eq_some_iff.mp done
  obtain ⟨entry,place,live⟩ := Option.bind_eq_some_iff.mp found
  cases entry with
  | empty next => cases live
  | element value =>
    cases live
    cases same
    refine ⟨old,mem_values.mpr (List.mem_of_getElem? place),?_⟩
    simp only [mem_values]
    exact mem_set_element (List.getElem?_eq_some_iff.mp place).1 (change old).2

section Loop
variable {σ : Type*} {body : σ → Nat → E → σ × E} {holds : σ → Prop} {settled : σ → E → Prop}

private theorem forEntries_rule
    (visit : ∀ s index value, holds s →
      holds (body s index value).1 ∧ settled (body s index value).1 (body s index value).2)
    (keep : ∀ s index value other, holds s → settled s other →
      settled (body s index value).1 other)
    (index : Nat) (entries : List (Entry E)) (s : σ) (start : holds s) :
    holds (forEntries body index entries s).1 ∧
      (∀ other, settled s other → settled (forEntries body index entries s).1 other) ∧
      ∀ value, .element value ∈ (forEntries body index entries s).2 →
        settled (forEntries body index entries s).1 value := by
  induction entries generalizing index s with
  | nil => exact ⟨start,fun _ => id,by simp [forEntries]⟩
  | cons entry rest ih =>
    cases entry with
    | empty next =>
      obtain ⟨done,kept,all⟩ := ih (index + 1) s start
      refine ⟨done,kept,?_⟩
      simpa [forEntries] using all
    | element value =>
      obtain ⟨next,fresh⟩ := visit s index value start
      obtain ⟨done,kept,all⟩ := ih (index + 1) (body s index value).1 next
      refine ⟨done,fun other old => kept other (keep s index value other start old),?_⟩
      intro other member
      rcases List.mem_cons.mp member with first | later
      · cases first
        exact kept _ fresh
      · exact all other later

/-- The rule for such a loop: its invariant, and what each visit settles about its element and
no later visit undoes. -/
theorem forMut_rule (map : IndexMap E) {s : σ} (start : holds s)
    (visit : ∀ s index value, holds s →
      holds (body s index value).1 ∧ settled (body s index value).1 (body s index value).2)
    (keep : ∀ s index value other, holds s → settled s other →
      settled (body s index value).1 other) :
    holds (map.forMut body s).1 ∧
      ∀ value ∈ (map.forMut body s).2.values, settled (map.forMut body s).1 value := by
  obtain ⟨done,_,all⟩ := forEntries_rule visit keep 0 map.entries s start
  refine ⟨done,?_⟩
  intro value member
  exact all value (mem_values.mp member)

end Loop

section Slots

/-- The link in a free slot. -/
def link (map : IndexMap E) (index : Nat) : Option (Option Nat) :=
  map.entries[index]?.bind Entry.next?

/-- The free slots are the cells of a list that begins at `next_empty`. -/
def WellFormed (map : IndexMap E) : Prop := ∃ cells, FreeList map.link map.nextEmpty cells

private theorem bind_set {α : Type*} (read : Entry E → Option α) {entries : List (Entry E)}
    {index : Nat} (inside : index < entries.length) (entry : Entry E) :
    (fun i => (entries.set index entry)[i]?.bind read) =
      Function.update (fun i => entries[i]?.bind read) index (read entry) := by
  funext i
  by_cases same : i = index
  · subst same
    simp [List.getElem?_set_self inside]
  · rw [Function.update_of_ne same,List.getElem?_set_ne (Ne.symm same)]

private theorem bind_append {α : Type*} (read : Entry E → Option α) (entries : List (Entry E))
    (entry : Entry E) :
    (fun i => (entries ++ [entry])[i]?.bind read) =
      Function.update (fun i => entries[i]?.bind read) entries.length (read entry) := by
  funext i
  rcases Nat.lt_trichotomy i entries.length with before | rfl | after
  · rw [Function.update_of_ne (Nat.ne_of_lt before),List.getElem?_append_left before]
  · simp
  · have none : (entries ++ [entry])[i]? = none := by
      apply List.getElem?_eq_none
      simp
      omega
    rw [Function.update_of_ne (Nat.ne_of_gt after),none,List.getElem?_eq_none (Nat.le_of_lt after)]

theorem link_of_index {map : IndexMap E} {index : Nat} {value : E}
    (live : map.index index = some value) : map.link index = none := by
  obtain ⟨entry,place,read⟩ := Option.bind_eq_some_iff.mp live
  cases entry with
  | element value => simp [link,place,Entry.next?]
  | empty next => cases read

theorem index_of_link {map : IndexMap E} {index : Nat} {next : Option Nat}
    (free : map.link index = some next) : map.index index = none := by
  cases live : map.index index with
  | none => rfl
  | some value => simp [link_of_index live] at free

theorem entry_of_index {map : IndexMap E} {index : Nat} {value : E}
    (live : map.index index = some value) : map.entries[index]? = some (.element value) := by
  obtain ⟨entry,place,read⟩ := Option.bind_eq_some_iff.mp live
  cases entry with
  | element found => cases read; exact place
  | empty next => cases read

theorem entry_of_link {map : IndexMap E} {index : Nat} {next : Option Nat}
    (free : map.link index = some next) : map.entries[index]? = some (.empty next) := by
  obtain ⟨entry,place,read⟩ := Option.bind_eq_some_iff.mp free
  cases entry with
  | element found => cases read
  | empty next => cases read; exact place

theorem index_lt {map : IndexMap E} {index : Nat} {value : E}
    (live : map.index index = some value) : index < map.entries.length :=
  (List.getElem?_eq_some_iff.mp (entry_of_index live)).1

theorem new_wellFormed : (new : IndexMap E).WellFormed :=
  ⟨[],FreeList.empty (fun _ => rfl)⟩

theorem free_iff {map : IndexMap E} (key : Nat) :
    (∃ next, map.link key = some next) ↔ key < map.entries.length ∧ map.index key = none := by
  constructor
  · rintro ⟨next,free⟩
    exact ⟨(List.getElem?_eq_some_iff.mp (entry_of_link free)).1,index_of_link free⟩
  · rintro ⟨inside,free⟩
    have place := List.getElem?_eq_getElem inside
    cases entry : map.entries[key] with
    | element value => simp [index,place,entry,Entry.element?] at free
    | empty next => exact ⟨next,by simp [link,place,entry,Entry.next?]⟩

/-- A free slot is taken before the vector grows. -/
theorem insert_take {map : IndexMap E} {key : Nat} {cells : List Nat}
    (list : FreeList map.link map.nextEmpty (key::cells)) (element : E) :
    ∃ after, map.insert element = some (after,key) ∧ map.index key = none ∧
      after.index = Function.update map.index key (some element) ∧
      after.entries.length = map.entries.length ∧ FreeList after.link after.nextEmpty cells := by
  have first : map.nextEmpty = some key := list.head_eq
  rw [first] at list
  obtain ⟨next,rest,same,free,shorter⟩ := list.take
  cases same
  have place := entry_of_link free
  obtain ⟨inside,_⟩ := List.getElem?_eq_some_iff.mp place
  have changed : (⟨map.entries.set key (.element element),next⟩ : IndexMap E).link =
      Function.update map.link key none := bind_set Entry.next? inside _
  refine ⟨⟨map.entries.set key (.element element),next⟩,?_,index_of_link free,
    bind_set Entry.element? inside _,List.length_set,?_⟩
  · simp [insert,first,place]
  · rw [changed]
    exact shorter

theorem insert_grow {map : IndexMap E} (list : FreeList map.link map.nextEmpty []) (element : E) :
    ∃ after, map.insert element = some (after,map.entries.length) ∧
      after.index = Function.update map.index map.entries.length (some element) ∧
      after.entries.length = map.entries.length + 1 ∧ FreeList after.link after.nextEmpty [] := by
  have full : map.nextEmpty = none := list.head_eq
  have unchanged : (⟨map.entries ++ [.element element],none⟩ : IndexMap E).link = map.link := by
    refine (bind_append Entry.next? map.entries _).trans (Function.update_eq_self_iff.mpr ?_)
    simp [Entry.next?]
  refine ⟨⟨map.entries ++ [Entry.element element],none⟩,?_,
    bind_append Entry.element? map.entries (.element element),by simp,?_⟩
  · simp [insert,full]
  · rw [full] at list
    rw [unchanged]
    exact list

theorem insert_spec {map : IndexMap E} (formed : map.WellFormed) (element : E) :
    ∃ after key, map.insert element = some (after,key) ∧ map.index key = none ∧
      after.index = Function.update map.index key (some element) ∧ after.WellFormed := by
  obtain ⟨cells,list⟩ := formed
  cases cells with
  | nil =>
    obtain ⟨after,done,bound,_,kept⟩ := insert_grow list element
    exact ⟨after,map.entries.length,done,by simp [index],bound,[],kept⟩
  | cons key cells =>
    obtain ⟨after,done,free,bound,_,kept⟩ := insert_take list element
    exact ⟨after,key,done,free,bound,cells,kept⟩

theorem remove_give {map : IndexMap E} {key : Nat} {value : E}
    (live : map.index key = some value) :
    ∃ after, map.remove key = some (some value,after) ∧
      after.index = Function.update map.index key none ∧
      after.entries.length = map.entries.length ∧
      ∀ cells, FreeList map.link map.nextEmpty cells →
        FreeList after.link after.nextEmpty (key::cells) := by
  have place := entry_of_index live
  have inside := index_lt live
  have changed : (⟨map.entries.set key (.empty map.nextEmpty),some key⟩ : IndexMap E).link =
      Function.update map.link key (some map.nextEmpty) := bind_set Entry.next? inside _
  refine ⟨⟨map.entries.set key (.empty map.nextEmpty),some key⟩,?_,
    bind_set Entry.element? inside _,List.length_set,?_⟩
  · simp [remove,place,removeEntry]
  · intro cells list
    rw [changed]
    exact list.give (link_of_index live)

theorem remove_live {map : IndexMap E} {key : Nat} {value : E}
    (live : map.index key = some value) :
    ∃ after, map.remove key = some (some value,after) ∧
      after.index = Function.update map.index key none ∧
      (map.WellFormed → after.WellFormed) := by
  obtain ⟨after,done,deleted,_,given⟩ := remove_give live
  refine ⟨after,done,deleted,?_⟩
  rintro ⟨cells,list⟩
  exact ⟨key::cells,given cells list⟩

theorem remove_free {map : IndexMap E} {key : Nat} (inside : key < map.entries.length)
    (free : map.index key = none) : map.remove key = some (none,map) := by
  have place := List.getElem?_eq_getElem inside
  cases entry : map.entries[key] with
  | element value => simp [index,place,entry,Entry.element?] at free
  | empty next =>
    rw [entry] at place
    have same : map.entries.set key (.empty next) = map.entries := by
      rw [← entry]
      exact List.set_getElem_self inside
    simp [remove,place,removeEntry,same]

theorem update_live {α : Type*} {map : IndexMap E} {key : Nat} {value : E}
    (live : map.index key = some value) (change : E → α × E) :
    ∃ after, map.update key change = some ((change value).1,after) ∧
      after.index = Function.update map.index key (some (change value).2) ∧
      (map.WellFormed → after.WellFormed) := by
  have inside := index_lt live
  refine ⟨{map with entries := map.entries.set key (.element (change value).2)},?_,
    bind_set Entry.element? inside _,?_⟩
  · simp [update,live]
  · rintro ⟨cells,list⟩
    have unchanged :
        ({map with entries := map.entries.set key (.element (change value).2)} : IndexMap E).link =
          map.link := by
      refine (bind_set Entry.next? inside _).trans (Function.update_eq_self_iff.mpr ?_)
      exact (link_of_index live).symm
    refine ⟨cells,?_⟩
    rw [unchanged]
    exact list

theorem fromIter_eq (elements : List E) :
    fromIter elements = some ⟨elements.map .element,none⟩ := by
  have grown : ∀ done : List E, elements.foldlM
      (fun (map : IndexMap E) element => (map.insert element).map Prod.fst)
        ⟨done.map .element,none⟩ = some ⟨(done ++ elements).map .element,none⟩ := by
    induction elements with
    | nil => simp
    | cons element rest ih =>
      intro done
      have next := ih (done ++ [element])
      rw [List.append_assoc] at next
      simpa [insert] using next
  exact grown []

theorem index_fromElements (elements : List E) :
    (⟨elements.map .element,none⟩ : IndexMap E).index = fun key => elements[key]? := by
  funext key
  simp only [index,List.getElem?_map,Option.bind_map]
  cases elements[key]? <;> rfl

theorem fromElements_wellFormed (elements : List E) :
    (⟨elements.map .element,none⟩ : IndexMap E).WellFormed := by
  refine ⟨[],FreeList.empty ?_⟩
  intro key
  simp only [link,List.getElem?_map,Option.bind_map]
  cases elements[key]? <;> rfl

end Slots

section Retain
variable (keep : E → Bool)

private theorem retainEntries_rule {holds : IndexMap E → Prop}
    (remove : ∀ map key value after, holds map → map.index key = some value →
      keep value = false → map.remove key = some (some value,after) → holds after)
    (rest done : List (Entry E)) (nextEmpty : Option Nat) (start : holds ⟨done ++ rest,nextEmpty⟩) :
    holds ⟨done ++ (retainEntries keep done.length rest nextEmpty).1,
      (retainEntries keep done.length rest nextEmpty).2⟩ := by
  induction rest generalizing done nextEmpty with
  | nil => exact start
  | cons entry rest ih =>
    have onward : ∀ (entry : Entry E) nextEmpty, holds ⟨done ++ entry::rest,nextEmpty⟩ →
        holds ⟨done ++ entry :: (retainEntries keep (done.length + 1) rest nextEmpty).1,
          (retainEntries keep (done.length + 1) rest nextEmpty).2⟩ := by
      intro entry nextEmpty here
      have later := ih (done ++ [entry]) nextEmpty (by simpa using here)
      simpa using later
    cases entry with
    | empty next => exact onward (.empty next) nextEmpty start
    | element value =>
      cases kept : keep value with
      | true =>
        simp only [retainEntries,kept,if_true]
        exact onward (.element value) nextEmpty start
      | false =>
        simp only [retainEntries,kept,Bool.false_eq_true,if_false,removeEntry]
        apply onward
        apply remove _ done.length value _ start
        · simp [index,Entry.element?]
        · exact kept
        · simp [IndexMap.remove,removeEntry]

/-- The rule for `retain`: an invariant that removing an unwanted element keeps. -/
theorem retain_rule {holds : IndexMap E → Prop}
    (remove : ∀ map key value after, holds map → map.index key = some value →
      keep value = false → map.remove key = some (some value,after) → holds after)
    (map : IndexMap E) (start : holds map) : holds (map.retain keep) :=
  retainEntries_rule keep remove map.entries [] map.nextEmpty start

/-- The keys of the elements that are not kept, in increasing order. -/
def dropped (map : IndexMap E) : List Nat :=
  (map.iter.filter (fun binding => !keep binding.2)).map Prod.fst

private theorem retainEntries_removes (rest done : List (Entry E)) (nextEmpty : Option Nat) :
    (((iterEntries done.length rest).filter (fun binding => !keep binding.2)).map Prod.fst).foldlM
      (fun (map : IndexMap E) key => (map.remove key).map Prod.snd) ⟨done ++ rest,nextEmpty⟩ =
      some ⟨done ++ (retainEntries keep done.length rest nextEmpty).1,
        (retainEntries keep done.length rest nextEmpty).2⟩ := by
  induction rest generalizing done nextEmpty with
  | nil => rfl
  | cons entry rest ih =>
    have onward : ∀ (entry : Entry E) nextEmpty,
        (((iterEntries (done.length + 1) rest).filter
          (fun binding => !keep binding.2)).map Prod.fst).foldlM
          (fun (map : IndexMap E) key => (map.remove key).map Prod.snd)
          ⟨done ++ entry::rest,nextEmpty⟩ =
        some ⟨done ++ entry :: (retainEntries keep (done.length + 1) rest nextEmpty).1,
          (retainEntries keep (done.length + 1) rest nextEmpty).2⟩ := by
      intro entry nextEmpty
      have later := ih (done ++ [entry]) nextEmpty
      simpa using later
    cases entry with
    | empty next => exact onward (.empty next) nextEmpty
    | element value =>
      cases kept : keep value with
      | true => simpa [iterEntries,retainEntries,kept] using onward (.element value) nextEmpty
      | false =>
        simpa [iterEntries,retainEntries,kept,remove,removeEntry] using
          onward (.empty nextEmpty) (some done.length)

/-- `retain` removes what is not kept one by one, in increasing order of the keys. -/
theorem retain_removes (map : IndexMap E) :
    (map.dropped keep).foldlM (fun map key => (map.remove key).map Prod.snd) map =
      some (map.retain keep) :=
  retainEntries_removes keep map.entries [] map.nextEmpty

theorem retain_wellFormed {map : IndexMap E} (formed : map.WellFormed) :
    (map.retain keep).WellFormed := by
  apply retain_rule keep _ map formed
  intro map key value after formed live _ removed
  obtain ⟨result,done,_,kept⟩ := remove_live live
  cases done.symm.trans removed
  exact kept formed

private theorem element_retainEntries (index : Nat) (entries : List (Entry E))
    (nextEmpty : Option Nat) (i : Nat) :
    (retainEntries keep index entries nextEmpty).1[i]?.bind Entry.element? =
      (entries[i]?.bind Entry.element?).filter keep := by
  induction entries generalizing index nextEmpty i with
  | nil => rfl
  | cons entry rest ih =>
    cases i with
    | zero =>
      cases entry with
      | empty next => rfl
      | element value =>
        cases kept : keep value <;>
          simp [retainEntries,kept,removeEntry,Entry.element?,Option.filter]
    | succ i => exact ih (index + 1) _ i

theorem index_retain (map : IndexMap E) :
    (map.retain keep).index = fun key => (map.index key).filter keep := by
  funext key
  exact element_retainEntries keep 0 map.entries map.nextEmpty key

end Retain

section Iteration
variable {σ : Type*}

private theorem mem_iterEntries_iff (start : Nat) (entries : List (Entry E)) (key : Nat)
    (value : E) : (key,value) ∈ iterEntries start entries ↔
      start ≤ key ∧ entries[key - start]? = some (.element value) := by
  induction entries generalizing start with
  | nil => simp [iterEntries]
  | cons entry rest ih =>
    by_cases first : key = start
    · subst first
      cases entry with
      | empty next =>
        have later : ¬ key + 1 ≤ key := by omega
        simp [iterEntries,ih,later]
      | element found =>
        have later : ¬ key + 1 ≤ key := by omega
        simp [iterEntries,ih,later,eq_comm]
    · have next : start ≤ key → key - start = key - (start + 1) + 1 := by omega
      have order : start + 1 ≤ key ↔ start ≤ key := by omega
      cases entry with
      | empty link =>
        rw [iterEntries,ih,order]
        apply and_congr_right
        intro after
        rw [next after,List.getElem?_cons_succ]
      | element found =>
        rw [iterEntries,List.mem_cons,ih,order]
        have other : ¬ (key,value) = (start,found) := fun same => first (congrArg Prod.fst same)
        rw [or_iff_right other]
        apply and_congr_right
        intro after
        rw [next after,List.getElem?_cons_succ]

theorem mem_iter {map : IndexMap E} {key : Nat} {value : E} :
    (key,value) ∈ map.iter ↔ map.index key = some value := by
  rw [iter,mem_iterEntries_iff]
  simp only [Nat.zero_le,true_and,Nat.sub_zero]
  constructor
  · intro place
    simp [index,place,Entry.element?]
  · exact entry_of_index

private theorem iterEntries_sorted (start : Nat) (entries : List (Entry E)) :
    ((iterEntries start entries).map Prod.fst).Pairwise (· < ·) := by
  induction entries generalizing start with
  | nil => exact List.Pairwise.nil
  | cons entry rest ih =>
    cases entry with
    | empty next => exact ih (start + 1)
    | element value =>
      refine List.Pairwise.cons ?_ (ih (start + 1))
      intro key member
      obtain ⟨⟨_,found⟩,inside,rfl⟩ := List.mem_map.mp member
      exact ((mem_iterEntries_iff _ _ _ _).mp inside).1

theorem indeces_sorted (map : IndexMap E) : map.indeces.Pairwise (· < ·) :=
  iterEntries_sorted 0 map.entries

theorem mem_indeces {map : IndexMap E} {key : Nat} :
    key ∈ map.indeces ↔ (map.index key).isSome = true := by
  rw [Option.isSome_iff_exists]
  constructor
  · intro member
    obtain ⟨⟨_,value⟩,inside,rfl⟩ := List.mem_map.mp member
    exact ⟨value,mem_iter.mp inside⟩
  · rintro ⟨value,live⟩
    exact List.mem_map.mpr ⟨(key,value),mem_iter.mpr live,rfl⟩

private theorem iterEntries_length_le (start : Nat) (entries : List (Entry E)) :
    (iterEntries start entries).length ≤ entries.length := by
  induction entries generalizing start with
  | nil => exact Nat.le_refl 0
  | cons entry rest ih =>
    cases entry with
    | empty next => exact Nat.le_succ_of_le (ih (start + 1))
    | element value => exact Nat.succ_le_succ (ih (start + 1))

theorem values_length_le (map : IndexMap E) : map.values.length ≤ map.entries.length := by
  rw [values,List.length_map]
  exact iterEntries_length_le 0 map.entries

private theorem iterEntries_full (start : Nat) (entries : List (Entry E))
    (full : ∀ entry ∈ entries, entry.next? = none) :
    entries = ((iterEntries start entries).map Prod.snd).map .element := by
  induction entries generalizing start with
  | nil => rfl
  | cons entry rest ih =>
    obtain ⟨here,later⟩ := List.forall_mem_cons.mp full
    cases entry with
    | empty next => cases here
    | element value => exact congrArg (Entry.element value :: ·) (ih (start + 1) later)

theorem entries_full {map : IndexMap E} (full : ∀ key, map.link key = none) :
    map.entries = map.values.map .element := by
  apply iterEntries_full
  intro entry member
  obtain ⟨key,place⟩ := List.mem_iff_getElem?.mp member
  have used := full key
  rwa [link,place] at used

private theorem forEntries_state (body : σ → Nat → E → σ × E) (start : Nat)
    (entries : List (Entry E)) (s : σ) :
    (forEntries body start entries s).1 =
      (iterEntries start entries).foldl (fun s binding => (body s binding.1 binding.2).1) s := by
  induction entries generalizing start s with
  | nil => rfl
  | cons entry rest ih => cases entry <;> exact ih (start + 1) _

/-- A loop over `&mut map` visits what `iter` yields, in that order. -/
theorem forMut_state (map : IndexMap E) (body : σ → Nat → E → σ × E) (s : σ) :
    (map.forMut body s).1 = map.iter.foldl (fun s binding => (body s binding.1 binding.2).1) s :=
  forEntries_state body 0 map.entries s

private theorem forEntries_congr {body other : σ → Nat → E → σ × E} {holds : σ → Prop}
    (start : Nat) (entries : List (Entry E)) {s : σ} (begins : holds s)
    (agree : ∀ s i value, holds s → entries[i]? = some (.element value) →
      body s (start + i) value = other s (start + i) value ∧
        holds (other s (start + i) value).1) :
    forEntries body start entries s = forEntries other start entries s ∧
      holds (forEntries other start entries s).1 := by
  induction entries generalizing start s with
  | nil => exact ⟨rfl,begins⟩
  | cons entry rest ih =>
    have onward : ∀ {s}, holds s →
        forEntries body (start + 1) rest s = forEntries other (start + 1) rest s ∧
          holds (forEntries other (start + 1) rest s).1 := by
      intro s here
      apply ih (start + 1) here
      intro s i value held found
      have place : start + 1 + i = start + (i + 1) := by omega
      rw [place]
      exact agree s (i + 1) value held found
    cases entry with
    | empty next =>
      obtain ⟨same,held⟩ := onward begins
      exact ⟨by simp only [forEntries,same],held⟩
    | element value =>
      have here := agree s 0 value begins rfl
      rw [Nat.add_zero] at here
      obtain ⟨same,held⟩ := onward here.2
      exact ⟨by simp only [forEntries,here.1,same],held⟩

/-- Two bodies that do the same to what is there, where an invariant holds, make the same loop. -/
theorem forMut_congr {body other : σ → Nat → E → σ × E} {holds : σ → Prop} (map : IndexMap E)
    {s : σ} (begins : holds s)
    (agree : ∀ s key value, holds s → map.index key = some value →
      body s key value = other s key value ∧ holds (other s key value).1) :
    map.forMut body s = map.forMut other s ∧ holds (map.forMut other s).1 := by
  obtain ⟨same,held⟩ : forEntries body 0 map.entries s = forEntries other 0 map.entries s ∧
      holds (forEntries other 0 map.entries s).1 := by
    apply forEntries_congr 0 map.entries begins
    intro s i value held place
    rw [Nat.zero_add]
    apply agree s i value held
    simp [index,place,Entry.element?]
  exact ⟨by simp only [forMut,same],held⟩

private theorem forEntries_steps {body : σ → Nat → E → σ × E} {holds : σ → IndexMap E → Prop}
    (visit : ∀ s map key value after, holds s map → map.index key = some value →
      map.update key (fun value => ((),(body s key value).2)) = some ((),after) →
      holds (body s key value).1 after)
    (nextEmpty : Option Nat) (rest done : List (Entry E)) (s : σ)
    (start : holds s ⟨done ++ rest,nextEmpty⟩) :
    holds (forEntries body done.length rest s).1
      ⟨done ++ (forEntries body done.length rest s).2,nextEmpty⟩ := by
  induction rest generalizing done s with
  | nil => exact start
  | cons entry rest ih =>
    have onward : ∀ (entry : Entry E) s, holds s ⟨done ++ entry::rest,nextEmpty⟩ →
        holds (forEntries body (done.length + 1) rest s).1
          ⟨done ++ entry :: (forEntries body (done.length + 1) rest s).2,nextEmpty⟩ := by
      intro entry s here
      have later := ih (done ++ [entry]) s (by simpa using here)
      simpa using later
    cases entry with
    | empty next => exact onward (.empty next) s start
    | element value =>
      apply onward
      apply visit s _ done.length value _ start
      · simp [index,Entry.element?]
      · simp [update,index,Entry.element?]

/-- The rule for a loop over `&mut map` with an invariant of the variables and the map, which
each visit, an update in place, keeps. -/
theorem forMut_steps {body : σ → Nat → E → σ × E} {holds : σ → IndexMap E → Prop}
    (visit : ∀ s map key value after, holds s map → map.index key = some value →
      map.update key (fun value => ((),(body s key value).2)) = some ((),after) →
      holds (body s key value).1 after)
    (map : IndexMap E) {s : σ} (start : holds s map) :
    holds (map.forMut body s).1 (map.forMut body s).2 :=
  forEntries_steps visit map.nextEmpty map.entries [] s start

theorem forMut_wellFormed {map : IndexMap E} (formed : map.WellFormed)
    (body : σ → Nat → E → σ × E) (s : σ) : (map.forMut body s).2.WellFormed := by
  apply @forMut_steps E σ body (fun _ map => map.WellFormed) _ map s formed
  intro s map key value after formed live updated
  obtain ⟨result,done,_,kept⟩ := update_live live (fun value => ((),(body s key value).2))
  cases done.symm.trans updated
  exact kept formed

/-- Such a loop frees no slot and takes none. -/
theorem forMut_live (map : IndexMap E) (body : σ → Nat → E → σ × E) (s : σ) (key : Nat) :
    ((map.forMut body s).2.index key).isSome = (map.index key).isSome := by
  apply @forMut_steps E σ body
    (fun _ after => (after.index key).isSome = (map.index key).isSome) _ map s rfl
  intro s before visited value after kept live updated
  obtain ⟨result,done,changed,_⟩ := update_live live (fun value => ((),(body s visited value).2))
  cases done.symm.trans updated
  rw [changed,← kept]
  by_cases same : key = visited
  · rw [same,Function.update_self,live]
    rfl
  · rw [Function.update_of_ne same]

private theorem element_forEntries (note : σ → Nat → E → σ) (change : Nat → E → E) (start : Nat)
    (entries : List (Entry E)) (s : σ) (i : Nat) :
    (forEntries (fun s key value => (note s key value,change key value)) start entries s).2[i]?.bind
        Entry.element? =
      (entries[i]?.bind Entry.element?).map (change (start + i)) := by
  induction entries generalizing start s i with
  | nil => rfl
  | cons entry rest ih =>
    cases i with
    | zero => cases entry <;> rfl
    | succ i =>
      have place : start + (i + 1) = start + 1 + i := by omega
      rw [place]
      cases entry <;> exact ih (start + 1) _ i

theorem index_forMut (map : IndexMap E) (note : σ → Nat → E → σ) (change : Nat → E → E) (s : σ) :
    (map.forMut (fun s key value => (note s key value,change key value)) s).2.index =
      fun key => (map.index key).map (change key) := by
  funext key
  have visited := element_forEntries note change 0 map.entries s key
  rw [Nat.zero_add] at visited
  exact visited

theorem valuesMut_state (map : IndexMap E) (body : σ → E → σ × E) (s : σ) :
    (map.valuesMut body s).1 = map.values.foldl (fun s value => (body s value).1) s := by
  rw [valuesMut,forMut_state,values,List.foldl_map]

theorem index_valuesMut (map : IndexMap E) (note : σ → E → σ) (change : E → E) (s : σ) :
    (map.valuesMut (fun s value => (note s value,change value)) s).2.index =
      fun key => (map.index key).map change :=
  index_forMut map (fun s _ value => note s value) (fun _ value => change value) s

end Iteration

end IndexMap
end Rinklers
