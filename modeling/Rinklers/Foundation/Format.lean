import Mathlib.Data.List.Forall2

/-! Self-describing data formats: values are written to and read from a tree of sequences and
fields, and a writer and a reader that are given separately may or may not fit together. -/
namespace Foundation

/-- A document; `decimal` is any number that has a sign, a fraction or an exponent. -/
inductive Value
  | null
  | bool (value : Bool)
  | number (value : Nat)
  | decimal (mantissa exponent : Int)
  | string (value : String)
  | seq (items : List Value)
  | map (entries : List (String × Value))

inductive Failure
  | custom (message : String)
  | invalidType
  | invalidValue
  | missingField (name : String)
  | duplicateField (name : String)
  | unknownVariant
  | panic
deriving DecidableEq, Repr

structure Format (α : Type) where
  write : α → Value
  read : Value → Except Failure α

structure Lossless (α : Type) extends Format α where
  read_write : ∀ a, read (write a) = .ok a

/-- The entries of a struct with the given field names. Names that it does not have are skipped. -/
def Value.fields (names : List String) : Value → Except Failure (List (String × Value))
  | .map entries =>
    match names.find? (fun name => 1 < (entries.map Prod.fst).count name) with
    | some name => .error (.duplicateField name)
    | none => .ok entries
  | _ => .error .invalidType

def readField {α : Type} (entries : List (String × Value)) (name : String)
    (read : Value → Except Failure α) (default : Option α) : Except Failure α :=
  match entries.lookup name, default with
  | some value, _ => read value
  | none, some default => .ok default
  | none, none => .error (.missingField name)

namespace Format
variable {α : Type}

/-- What is written is read back, up to what `same` ignores. -/
def RoundTrips (format : Format α) (same : α → α → Prop) (a : α) : Prop :=
  ∃ b, format.read (format.write a) = .ok b ∧ same a b

def string : Lossless String where
  write := .string
  read
    | .string value => .ok value
    | _ => .error .invalidType
  read_write _ := rfl

def number (bound : Nat) : Lossless (Fin bound) where
  write n := .number n.val
  read
    | .number n => if inside : n < bound then .ok ⟨n,inside⟩ else .error .invalidValue
    | _ => .error .invalidType
  read_write n := dif_pos n.isLt

def seq (format : Format α) : Format (List α) where
  write items := .seq (items.map format.write)
  read
    | .seq items => items.mapM format.read
    | _ => .error .invalidType

end Format

section Laws
variable {α β : Type}

theorem except_bind_eq_ok {x : Except Failure α} {next : α → Except Failure β} {result : β} :
    (x >>= next) = .ok result ↔ ∃ a, x = .ok a ∧ next a = .ok result := by
  cases x with
  | error failure => simp [bind,Except.bind]
  | ok a => simp [bind,Except.bind]

theorem Lossless.roundTrips (format : Lossless α) (a : α) :
    format.RoundTrips (· = ·) a := ⟨a,format.read_write a,rfl⟩

variable {format : Format α} {same : α → α → Prop}

theorem Format.seq_read_write {items results : List α} :
    (Format.seq format).read ((Format.seq format).write items) = .ok results ↔
      List.Forall₂ (fun item result => format.read (format.write item) = .ok result)
        items results := by
  simp only [Format.seq]
  induction items generalizing results with
  | nil =>
    rw [List.forall₂_nil_left_iff]
    exact ⟨fun made => (Except.ok.inj made).symm,fun made => by rw [made]; rfl⟩
  | cons item rest ih =>
    simp only [List.map_cons,List.mapM_cons,except_bind_eq_ok,ih]
    constructor
    · rintro ⟨first,head,others,tail,made⟩
      cases made
      exact .cons head tail
    · rintro (_ | ⟨head,tail⟩)
      exact ⟨_,head,_,tail,rfl⟩

/-- A list is read back exactly when each of its items is. -/
theorem Format.seq_roundTrips (items : List α) :
    (Format.seq format).RoundTrips (List.Forall₂ same) items ↔
      ∀ item ∈ items, format.RoundTrips same item := by
  unfold RoundTrips
  simp only [seq_read_write]
  induction items with
  | nil => exact iff_of_true ⟨[],.nil,.nil⟩ (by simp)
  | cons item rest ih =>
    rw [List.forall_mem_cons,← ih]
    constructor
    · rintro ⟨_ | ⟨first,others⟩,read,alike⟩
      · cases read
      · obtain ⟨head,tail⟩ := List.forall₂_cons.mp read
        obtain ⟨alike,rest⟩ := List.forall₂_cons.mp alike
        exact ⟨⟨first,head,alike⟩,others,tail,rest⟩
    · rintro ⟨⟨first,head,alike⟩,others,tail,rest⟩
      exact ⟨first::others,.cons head tail,.cons alike rest⟩

def Lossless.seq (format : Lossless α) : Lossless (List α) where
  toFormat := Format.seq format.toFormat
  read_write items := by
    obtain ⟨result,read,same⟩ := (Format.seq_roundTrips items).mpr
      (fun item _ => format.roundTrips item)
    rw [List.forall₂_eq_eq_eq] at same
    rw [read,same]

end Laws
end Foundation
