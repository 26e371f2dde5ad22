import Rinklers.Foundation.Format

/-! Which documents stand for which values, said without a reader: the fields of a struct stand in
any order, among others that it does not have. A reader understands the documents so described if it
returns the value, up to what `same` ignores. -/
namespace Foundation

abbrev Description (α : Type) := Value → α → Prop

def Understands {α : Type} (read : Value → Except Failure α) (same : α → α → Prop)
    (describes : Description α) : Prop :=
  ∀ value a, describes value a → ∃ b, read value = .ok b ∧ same a b

/-- The documents that a format reads, where nothing more is known of them. -/
def Format.accepts {α : Type} (format : Format α) : Description α :=
  fun value a => format.read value = .ok a

namespace Description
variable {α : Type}

def list (describes : Description α) : Description (List α) := fun value items =>
  ∃ values, value = .seq values ∧ List.Forall₂ describes values items

/-- The entries of a struct, in which none of its names stands twice. -/
def Struct (names : List String) (value : Value) (entries : List (String × Value)) : Prop :=
  value = .map entries ∧ ∀ name ∈ names, (entries.map Prod.fst).count name ≤ 1

def Field (describes : Description α) (entries : List (String × Value)) (name : String)
    (a : α) : Prop :=
  ∃ value, (name,value) ∈ entries ∧ describes value a

/-- A field that may be left out for its default. -/
def Optional (describes : Description α) (default : α) (entries : List (String × Value))
    (name : String) (a : α) : Prop :=
  describes.Field entries name a ∨ name ∉ entries.map Prod.fst ∧ a = default

end Description

section Rules
variable {α : Type} {read : Value → Except Failure α} {same : α → α → Prop}
  {describes : Description α} {names : List String} {value : Value}
  {entries : List (String × Value)} {name : String}

theorem fields_struct (described : Description.Struct names value entries) :
    value.fields names = .ok entries := by
  obtain ⟨rfl,unique⟩ := described
  have none : names.find? (fun name => 1 < (entries.map Prod.fst).count name) = none := by
    rw [List.find?_eq_none]
    intro name member
    rw [decide_eq_true_eq]
    exact Nat.not_lt.mpr (unique name member)
  rw [Value.fields,none]

theorem struct_distinct (distinct : (entries.map Prod.fst).Nodup) :
    Description.Struct names (.map entries) entries :=
  ⟨rfl,fun name _ => List.nodup_iff_count.mp distinct name⟩

theorem lookup_unique (unique : (entries.map Prod.fst).count name ≤ 1)
    (member : (name,value) ∈ entries) : entries.lookup name = some value := by
  obtain ⟨before,after,rfl⟩ := List.append_of_mem member
  rw [List.lookup_eq_some_iff]
  refine ⟨before,after,rfl,?_⟩
  intro entry earlier
  rw [List.map_append,List.map_cons,List.count_append,List.count_cons_self] at unique
  have absent : (before.map Prod.fst).count name = 0 := by omega
  rw [bne_iff_ne]
  rintro rfl
  exact List.count_eq_zero.mp absent (List.mem_map_of_mem earlier)

theorem lookup_absent (absent : name ∉ entries.map Prod.fst) : entries.lookup name = none := by
  rw [List.lookup_eq_none_iff]
  intro entry member
  rw [bne_iff_ne]
  rintro rfl
  exact absent (List.mem_map_of_mem member)

theorem Understands.field (understands : Understands read same describes)
    (described : Description.Struct names value entries) (listed : name ∈ names)
    {a : α} (field : describes.Field entries name a) (default : Option α) :
    ∃ b, readField entries name read default = .ok b ∧ same a b := by
  obtain ⟨content,member,stands⟩ := field
  unfold readField
  rw [lookup_unique (described.2 name listed) member]
  exact understands content a stands

theorem Understands.optional (understands : Understands read same describes)
    (described : Description.Struct names value entries) (listed : name ∈ names) {a default : α}
    (alike : same default default) (field : describes.Optional default entries name a) :
    ∃ b, readField entries name read (some default) = .ok b ∧ same a b := by
  rcases field with given | ⟨absent,rfl⟩
  · exact understands.field described listed given (some default)
  · unfold readField
    rw [lookup_absent absent]
    exact ⟨a,rfl,alike⟩

theorem Understands.list {format : Format α}
    (understands : Understands format.read same describes) :
    Understands (Format.seq format).read (List.Forall₂ same) describes.list := by
  rintro value items ⟨values,rfl,described⟩
  change ∃ results, values.mapM format.read = .ok results ∧ List.Forall₂ same items results
  induction described with
  | nil => exact ⟨[],rfl,.nil⟩
  | @cons content item _ _ head _ ih =>
    obtain ⟨first,read_first,alike⟩ := understands content item head
    obtain ⟨others,read_others,rest⟩ := ih
    refine ⟨first::others,?_,.cons alike rest⟩
    rw [List.mapM_cons,read_first,read_others]
    rfl

theorem Format.understands (format : Format α) :
    Understands format.read (· = ·) format.accepts :=
  fun _ a read => ⟨a,read,rfl⟩

theorem Lossless.list_read (format : Lossless α) {items : List α}
    (described : format.accepts.list value items) : format.seq.read value = .ok items := by
  obtain ⟨results,read,same⟩ := Understands.list format.understands value items described
  rw [List.forall₂_eq_eq_eq] at same
  rw [same]
  exact read

theorem Description.list_exists {items : List α}
    (each : ∀ item ∈ items, ∃ value, describes value item) :
    ∃ value, describes.list value items := by
  induction items with
  | nil => exact ⟨.seq [],[],rfl,.nil⟩
  | cons item rest ih =>
    obtain ⟨⟨first,head⟩,later⟩ := List.forall_mem_cons.mp each
    obtain ⟨_,others,rfl,tail⟩ := ih later
    exact ⟨.seq (first::others),first::others,rfl,.cons head tail⟩

theorem Lossless.list_written (format : Lossless α) (items : List α) :
    ∃ value, format.accepts.list value items :=
  Description.list_exists (fun item _ => ⟨format.write item,format.read_write item⟩)

end Rules
end Foundation
