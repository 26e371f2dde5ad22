import Mathlib.Data.List.Forall2

/-! A step that may fail, done to all the items of a list in order: what it makes when it succeeds
on each of them, and which failure comes out otherwise. -/
namespace Foundation

variable {α β γ ε : Type}

theorem forall₂_getElem? {R : α → β → Prop} {items : List α} {results : List β}
    (related : List.Forall₂ R items results) {i : Nat} {made : β} (found : results[i]? = some made) :
    ∃ item, items[i]? = some item ∧ R item made := by
  obtain ⟨inside,rfl⟩ := List.getElem?_eq_some_iff.mp found
  have before : i < items.length := related.length_eq.symm ▸ inside
  exact ⟨items[i],List.getElem?_eq_getElem before,related.get before inside⟩

/-- The first item on which `f` fails, with this failure. -/
def FailsFirst (f : α → Except ε β) (items : List α) (failure : ε) : Prop :=
  ∃ front item back, items = front ++ item::back ∧ (∀ other ∈ front, ∃ made, f other = .ok made) ∧
    f item = .error failure

theorem failsFirst_cons_ok {f : α → Except ε β} {item : α} {made : β} (works : f item = .ok made)
    (items : List α) (failure : ε) :
    FailsFirst f (item::items) failure ↔ FailsFirst f items failure := by
  constructor
  · rintro ⟨front,other,back,parts,fine,fails⟩
    cases front with
    | nil =>
      cases parts
      rw [works] at fails
      cases fails
    | cons first front =>
      cases parts
      exact ⟨front,other,back,rfl,fun item member => fine item (List.mem_cons_of_mem _ member),
        fails⟩
  · rintro ⟨front,other,back,rfl,fine,fails⟩
    exact ⟨item::front,other,back,rfl,List.forall_mem_cons.mpr ⟨⟨made,works⟩,fine⟩,fails⟩

theorem failsFirst_cons_error {f : α → Except ε β} {item : α} {first : ε}
    (fails : f item = .error first) (items : List α) (failure : ε) :
    FailsFirst f (item::items) failure ↔ first = failure := by
  constructor
  · rintro ⟨front,other,back,parts,fine,last⟩
    cases front with
    | nil =>
      cases parts
      exact Except.error.inj (fails.symm.trans last)
    | cons head front =>
      cases parts
      obtain ⟨made,works⟩ := fine item List.mem_cons_self
      cases fails.symm.trans works
  · rintro rfl
    exact ⟨[],item,items,rfl,by simp,fails⟩

theorem mapM_eq_ok {f : α → Except ε β} {items : List α} {results : List β} :
    items.mapM f = .ok results ↔ List.Forall₂ (fun item made => f item = .ok made) items results := by
  induction items generalizing results with
  | nil =>
    rw [List.forall₂_nil_left_iff]
    exact ⟨fun made => (Except.ok.inj made).symm,fun made => by rw [made]; rfl⟩
  | cons item items ih =>
    rw [List.mapM_cons]
    cases here : f item with
    | error failure =>
      refine iff_of_false (fun made => by cases made) ?_
      rintro (_ | ⟨works,_⟩)
      cases here.symm.trans works
    | ok made =>
      constructor
      · intro all
        cases rest : items.mapM f with
        | error failure =>
          rw [rest] at all
          cases all
        | ok others =>
          rw [rest] at all
          cases all
          exact .cons here (ih.mp rest)
      · rintro (_ | ⟨works,tail⟩)
        cases here.symm.trans works
        rw [ih.mpr tail]
        rfl

theorem mapM_eq_error {f : α → Except ε β} {items : List α} {failure : ε} :
    items.mapM f = .error failure ↔ FailsFirst f items failure := by
  induction items with
  | nil =>
    refine iff_of_false (fun made => by cases made) ?_
    rintro ⟨front,item,back,parts,_⟩
    simp at parts
  | cons item items ih =>
    rw [List.mapM_cons]
    cases here : f item with
    | error first =>
      rw [failsFirst_cons_error here]
      exact ⟨fun same => Except.error.inj same,fun same => congrArg Except.error same⟩
    | ok made =>
      rw [failsFirst_cons_ok here,← ih]
      cases rest : items.mapM f with
      | error other => exact Iff.rfl
      | ok others => exact iff_of_false (fun same => by cases same) (fun same => by cases same)

/-- What is made of the results decides nothing about which step fails. -/
theorem failsFirst_map {f : α → Except ε β} (g : α → β → γ) {items : List α} {failure : ε} :
    FailsFirst (fun item => (f item).map (g item)) items failure ↔ FailsFirst f items failure := by
  have works : ∀ item, (∃ made, (f item).map (g item) = .ok made) ↔ ∃ made, f item = .ok made := by
    intro item
    cases f item <;> simp [Except.map]
  have fails : ∀ item, (f item).map (g item) = .error failure ↔ f item = .error failure := by
    intro item
    cases f item <;> simp [Except.map]
  simp only [FailsFirst,works,fails]

/-- Lists of lists are gone through as one list. -/
theorem mapM_flatMap (f : α → Except ε β) (parts : γ → List α) (items : List γ) :
    (items.flatMap parts).mapM f =
      (items.mapM fun item => (parts item).mapM f).map List.flatten := by
  induction items with
  | nil => rfl
  | cons item items ih =>
    rw [List.flatMap_cons,List.mapM_append,List.mapM_cons,ih]
    cases (parts item).mapM f with
    | error first => rfl
    | ok made => cases items.mapM fun item => (parts item).mapM f <;> rfl

theorem failsFirst_flatMap {f : α → Except ε β} {parts : γ → List α} {items : List γ}
    {failure : ε} :
    FailsFirst f (items.flatMap parts) failure ↔
      FailsFirst (fun item => (parts item).mapM f) items failure := by
  rw [← mapM_eq_error,← mapM_eq_error,mapM_flatMap]
  cases items.mapM fun item => (parts item).mapM f with
  | error first => simp only [Except.map,Except.error.injEq]
  | ok made => exact iff_of_false (fun same => by cases same) (fun same => by cases same)

end Foundation
