import Rinklers.DurationText

/-! Durations as people write them: items of a number and a unit, in any order and as often as they
like, in upper or lower case and with spaces around both. -/
namespace Rinklers

structure Item where
  before : List Char
  digits : List Char
  between : List Char
  letters : List Char
  unit : DurationUnit
  spaces : ∀ c ∈ before ++ between, isWhitespace c = true
  nonempty : digits ≠ []
  numeral : ∀ c ∈ digits, c.isDigit = true
  named : letters.map Char.toLower = unit.text

namespace Item

def text (item : Item) : List Char :=
  item.before ++ item.digits ++ item.between ++ item.letters

/-- The numeral in the decimal system. -/
def num (item : Item) : Int := (Nat.ofDigitChars 10 item.digits 0 : Nat)

def nanos (item : Item) : Int := item.num * item.unit.nanos

/-- What the parser collects before it comes to the unit. -/
def group (item : Item) : List Char := item.before ++ item.digits ++ item.between

end Item

section Items

theorem groupValue_append (num : Int) (first second : List Char) :
    groupValue num (first ++ second) = groupValue (groupValue num first) second :=
  List.foldl_append

theorem groupValue_spaces (num : Int) {spaces : List Char}
    (blank : ∀ c ∈ spaces, isWhitespace c = true) : groupValue num spaces = num := by
  induction spaces with
  | nil => rfl
  | cons c rest ih =>
    rw [groupValue_cons,toDigit_whitespace (blank c List.mem_cons_self)]
    exact ih (fun c member => blank c (List.mem_cons_of_mem _ member))

theorem spaces_inGroup {spaces : List Char} (blank : ∀ c ∈ spaces, isWhitespace c = true) :
    ∀ c ∈ spaces, inGroup c = true := by
  intro c member
  rw [inGroup,blank c member,Bool.true_or]

variable (item : Item)

theorem Item.blank_before : ∀ c ∈ item.before, isWhitespace c = true :=
  fun c member => item.spaces c (List.mem_append_left _ member)

theorem Item.blank_between : ∀ c ∈ item.between, isWhitespace c = true :=
  fun c member => item.spaces c (List.mem_append_right _ member)

theorem Item.group_inGroup : ∀ c ∈ item.group, inGroup c = true := by
  intro c member
  rcases List.mem_append.mp member with first | between
  · rcases List.mem_append.mp first with before | digit
    · exact spaces_inGroup item.blank_before c before
    · simp [inGroup,toDigit_of_isDigit (item.numeral c digit)]
  · exact spaces_inGroup item.blank_between c between

theorem Item.group_ne_nil : item.group ≠ [] := by
  simp [Item.group,item.nonempty]

theorem Item.groupValue_group : groupValue 0 item.group = item.num := by
  rw [Item.group,groupValue_append,groupValue_append,groupValue_spaces _ item.blank_before,
    groupValue_spaces _ item.blank_between]
  exact groupValue_ofDigitChars item.digits 0 item.numeral

theorem Item.nanos_nonneg : 0 ≤ item.nanos :=
  Int.mul_nonneg (Int.natCast_nonneg _) item.unit.nanos_pos.le

variable (unicode : Lowercase)

theorem Item.lower_group : item.group.flatMap unicode.lower = item.group := by
  apply lower_all
  intro c member
  rcases List.mem_append.mp member with first | between
  · rcases List.mem_append.mp first with before | digit
    · exact unicode.lower_whitespace c (item.blank_before c before)
    · obtain ⟨low,high⟩ := isDigit_iff.mp (item.numeral c digit)
      exact lower_eq unicode (by omega) (by omega)
  · exact unicode.lower_whitespace c (item.blank_between c between)

theorem Item.lower_letters : item.letters.flatMap unicode.lower = item.unit.text := by
  have ascii : ∀ c ∈ item.letters, unicode.lower c = [c.toLower] := by
    intro c member
    have small : c.toLower ∈ item.unit.text := by
      rw [← item.named]
      exact List.mem_map_of_mem member
    have letters : ∀ c ∈ item.unit.text, c.toNat < 128 := by
      cases item.unit <;> simp [DurationUnit.text]
    have bound := letters _ small
    rw [toNat_toLower] at bound
    apply unicode.lower_ascii
    split at bound <;> omega
  rw [List.flatMap_congr ascii,← item.named]
  exact List.flatMap_pure_eq_map Char.toLower item.letters

theorem Item.lower_text :
    item.text.flatMap unicode.lower = item.group ++ item.unit.text := by
  change (item.group ++ item.letters).flatMap unicode.lower = _
  rw [List.flatMap_append,item.lower_group,item.lower_letters]

/-- The invariant of the text: every item in it is read as itself. -/
theorem reads_items {items : List Item} {after : List Char}
    (spaces : ∀ c ∈ after, isWhitespace c = true) (numerals : ∀ item ∈ items, item.num < 2 ^ 63)
    (bounded : (items.map Item.nanos).sum ≤ CDuration.maxNanos) :
    Reads ((items.flatMap Item.text ++ after).flatMap unicode.lower)
        (items.map Item.nanos).sum ∧
      ((items.flatMap Item.text ++ after).flatMap unicode.lower).head? ≠ some 's' := by
  induction items with
  | nil =>
    have same : after.flatMap unicode.lower = after :=
      lower_all unicode (fun c member => unicode.lower_whitespace c (spaces c member))
    rw [List.flatMap_nil,List.nil_append,same]
    refine ⟨reads_zero (spaces_inGroup spaces) (groupValue_spaces 0 spaces),?_⟩
    intro head
    exact absurd (spaces _ (List.mem_of_head? head)) (by decide)
  | cons item items ih =>
    obtain ⟨small,later⟩ := List.forall_mem_cons.mp numerals
    have others : 0 ≤ (items.map Item.nanos).sum := by
      apply List.sum_nonneg
      intro nanos member
      obtain ⟨other,_,rfl⟩ := List.mem_map.mp member
      exact other.nanos_nonneg
    have positive := item.nanos_nonneg
    rw [List.map_cons,List.sum_cons] at bounded ⊢
    obtain ⟨reads,next⟩ := ih later (by omega)
    rw [List.flatMap_cons,List.append_assoc,List.flatMap_append,item.lower_text]
    constructor
    · rw [Item.nanos,← item.groupValue_group] at positive bounded ⊢
      rw [← item.groupValue_group] at small
      exact reads_unit item.group_inGroup next small (by omega) reads
    · rw [List.append_assoc]
      exact group_head item.group_inGroup item.group_ne_nil _

variable (chrono : CDuration)

/-- A text made of items parses as the sum of them. No item is longer than the sum, and no partial
sum either. -/
theorem items_parse (items : List Item) (after : List Char)
    (spaces : ∀ c ∈ after, isWhitespace c = true) (numerals : ∀ item ∈ items, item.num < 2 ^ 63)
    (bounded : (items.map Item.nanos).sum ≤ CDuration.maxNanos) :
    ∃ dur, chronoDurationFromStr chrono unicode
        (String.ofList (items.flatMap Item.text ++ after)) = some (.ok dur) ∧
      chrono.nanos dur = (items.map Item.nanos).sum := by
  apply chronoDurationFromStr_reads chrono unicode _ bounded
  rw [String.toList_ofList]
  exact (reads_items unicode spaces numerals bounded).1

end Items

private def twoWeeks : Item where
  before := [' ']
  digits := ['0','2']
  between := [' ']
  letters := ['W']
  unit := .weeks
  spaces := by simp [isWhitespace]
  nonempty := by simp
  numeral := by simp
  named := rfl

private def fiveMillis : Item where
  before := []
  digits := ['5']
  between := []
  letters := ['M','s']
  unit := .milliseconds
  spaces := by simp
  nonempty := by simp
  numeral := by simp
  named := rfl

theorem items_parse_in_any_case :
    ∃ dur, chronoDurationFromStr ChronoModel.duration asciiLowercase " 02 W5Ms\n" = some (.ok dur) ∧
      ChronoModel.duration.nanos dur = 1209600005000000 :=
  items_parse asciiLowercase ChronoModel.duration [twoWeeks,fiveMillis] ['\n']
    (by simp [isWhitespace])
    (List.forall_mem_cons.mpr ⟨by decide,List.forall_mem_singleton.mpr (by decide)⟩) (by decide)

end Rinklers
