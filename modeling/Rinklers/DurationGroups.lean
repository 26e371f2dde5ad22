import Rinklers.ChronoModel
import Rinklers.Util
import Mathlib.Algebra.Order.BigOperators.Group.List
import Mathlib.Data.List.TakeWhile

/-! What the text of a duration says: its digit groups, whose digits are read across whitespace,
and the unit after each of them. The parser of `util.rs` is compared with this reading. -/
namespace Rinklers

inductive DurationUnit
  | weeks | days | hours | minutes | seconds | milliseconds | microseconds | nanoseconds
deriving DecidableEq, Repr

namespace DurationUnit

def nanos : DurationUnit → Int
  | .weeks => 7 * nanosPerDay
  | .days => nanosPerDay
  | .hours => 3600 * nanosPerSec
  | .minutes => 60 * nanosPerSec
  | .seconds => nanosPerSec
  | .milliseconds => 1000000
  | .microseconds => 1000
  | .nanoseconds => 1

/-- The unit that begins with a character, given the one after it. -/
def ofChars : Char → Option Char → Option DurationUnit
  | 'w', _ => some .weeks
  | 'd', _ => some .days
  | 'h', _ => some .hours
  | 's', _ => some .seconds
  | 'm', some 's' => some .milliseconds
  | 'm', _ => some .minutes
  | 'u', some 's' => some .microseconds
  | 'n', some 's' => some .nanoseconds
  | _, _ => none

variable (chrono : CDuration)

def times (num : Int) : DurationUnit → Option chrono.Carrier
  | .weeks => chrono.weeks num
  | .days => chrono.days num
  | .hours => chrono.hours num
  | .minutes => chrono.minutes num
  | .seconds => chrono.seconds num
  | .milliseconds => some (chrono.milliseconds num)
  | .microseconds => some (chrono.microseconds num)
  | .nanoseconds => some (chrono.nanoseconds num)

theorem unitDuration_eq (num : Int) (c : Char) (next : Option Char) :
    unitDuration chrono num c next = (ofChars c next).map (times chrono num) := by
  fun_cases ofChars c next <;> simp_all [unitDuration,times]

theorem nanos_times {num : Int} {unit : DurationUnit} {part : chrono.Carrier}
    (made : unit.times chrono num = some part) : chrono.nanos part = num * unit.nanos := by
  cases unit with
  | weeks => exact chrono.nanos_weeks num part made
  | days => exact chrono.nanos_days num part made
  | hours => exact chrono.nanos_hours num part made
  | minutes => exact chrono.nanos_minutes num part made
  | seconds => exact chrono.nanos_seconds num part made
  | milliseconds => cases made; exact chrono.nanos_milliseconds num
  | microseconds => cases made; exact chrono.nanos_microseconds num
  | nanoseconds => cases made; exact (chrono.nanos_nanoseconds num).trans (mul_one num).symm

theorem nanos_pos (unit : DurationUnit) : 0 < unit.nanos := by
  cases unit <;> decide

theorem times_isSome {num : Int} (unit : DurationUnit) (nonneg : 0 ≤ num)
    (small : num * unit.nanos ≤ CDuration.maxNanos) : (unit.times chrono num).isSome = true := by
  have large : CDuration.minNanos ≤ num * unit.nanos := by
    have product := Int.mul_nonneg nonneg unit.nanos_pos.le
    have bound : CDuration.minNanos ≤ 0 := by decide
    omega
  cases unit with
  | weeks => exact (chrono.weeks_isSome num).mpr ⟨large,small⟩
  | days => exact (chrono.days_isSome num).mpr ⟨large,small⟩
  | hours => exact (chrono.hours_isSome num).mpr ⟨large,small⟩
  | minutes => exact (chrono.minutes_isSome num).mpr ⟨large,small⟩
  | seconds => exact (chrono.seconds_isSome num).mpr ⟨large,small⟩
  | milliseconds | microseconds | nanoseconds => rfl

end DurationUnit

/-- A number of the text and the unit after it; a group without digits is the number zero. -/
structure Group where
  num : Int
  unit : Option DurationUnit
deriving DecidableEq, Repr

def Group.nanos (group : Group) : Int :=
  match group.unit with
  | some unit => group.num * unit.nanos
  | none => 0

def inGroup (c : Char) : Bool := isWhitespace c || (toDigit c).isSome

def groupValue (num : Int) (chars : List Char) : Int :=
  chars.foldl (fun num c =>
    match toDigit c with
    | some digit => num * 10 + digit
    | none => num) num

/-- The groups that another character ends, and the number at the end of the text. -/
structure Reading where
  groups : List Group
  trailing : Int
deriving DecidableEq, Repr

def Reading.all (reading : Reading) : List Group := reading.groups ++ [⟨reading.trailing,none⟩]

def Reading.total (reading : Reading) : Int := (reading.groups.map Group.nanos).sum

/-- The groups before the first that has no unit: what is added up before the text is rejected. -/
def used (groups : List Group) : List Group := groups.takeWhile fun group => group.unit.isSome

def read (text : List Char) : Reading :=
  match _ : text.dropWhile inGroup with
  | [] => ⟨[],groupValue 0 text⟩
  | c::rest =>
    ⟨⟨groupValue 0 (text.takeWhile inGroup),DurationUnit.ofChars c rest.head?⟩::(read rest).groups,
      (read rest).trailing⟩
termination_by text.length
decreasing_by
  all_goals
    rename_i after
    have shorter := (List.dropWhile_suffix inGroup (l := text)).length_le
    rw [after,List.length_cons] at shorter
    omega

section Read
variable {group rest : List Char} {c : Char}

theorem read_end (digits : ∀ c ∈ group, inGroup c = true) :
    read group = ⟨[],groupValue 0 group⟩ := by
  rw [read]
  split
  · rfl
  · rename_i c rest after
    have empty : group.dropWhile inGroup = [] := List.dropWhile_eq_nil_iff.mpr digits
    rw [empty] at after
    cases after

theorem read_close (digits : ∀ c ∈ group, inGroup c = true) (ends : inGroup c = false) :
    read (group ++ c::rest) =
      ⟨⟨groupValue 0 group,DurationUnit.ofChars c rest.head?⟩::(read rest).groups,
        (read rest).trailing⟩ := by
  have stop : ¬ inGroup c = true := by simp [ends]
  have taken : (group ++ c::rest).takeWhile inGroup = group := by
    rw [List.takeWhile_append_of_pos digits,List.takeWhile_cons_of_neg stop,List.append_nil]
  have dropped : (group ++ c::rest).dropWhile inGroup = c::rest := by
    rw [List.dropWhile_append_of_pos digits,List.dropWhile_cons_of_neg stop]
  rw [read]
  split
  · rename_i after
    rw [dropped] at after
    cases after
  · rename_i first others after
    rw [dropped] at after
    cases after
    rw [taken]

/-- A text is read group by group. -/
theorem groups_induction {holds : List Char → Prop}
    (last : ∀ group, (∀ c ∈ group, inGroup c = true) → holds group)
    (more : ∀ group c rest, (∀ c ∈ group, inGroup c = true) → inGroup c = false → holds rest →
      holds (group ++ c::rest)) (text : List Char) : holds text := by
  induction size : text.length using Nat.strong_induction_on generalizing text with
  | _ size ih =>
    have parts := List.takeWhile_append_dropWhile (p := inGroup) (l := text)
    have digits : ∀ c ∈ text.takeWhile inGroup, inGroup c = true := fun _ member =>
      List.mem_takeWhile_imp member
    cases after : text.dropWhile inGroup with
    | nil =>
      rw [after,List.append_nil] at parts
      rw [← parts]
      exact last _ digits
    | cons c rest =>
      rw [after] at parts
      have ends : inGroup c = false := by
        have head := List.head?_dropWhile_not inGroup text
        simpa [after] using head
      rw [← parts]
      apply more _ c rest digits ends
      apply ih rest.length _ rest rfl
      rw [← size,← parts,List.length_append,List.length_cons]
      omega

end Read

section Digits

theorem toDigit_nonneg {c : Char} {digit : Int} (found : toDigit c = some digit) :
    0 ≤ digit := by
  unfold toDigit at found
  split at found
  · cases found
    exact Int.natCast_nonneg _
  · cases found

theorem toDigit_whitespace {c : Char} (space : isWhitespace c = true) : toDigit c = none := by
  unfold toDigit
  apply if_neg
  rintro ⟨low,high⟩
  have lower : 48 ≤ c.toNat := low
  have upper : c.toNat ≤ 57 := high
  simp only [isWhitespace,Bool.or_eq_true,Bool.and_eq_true,decide_eq_true_eq,beq_iff_eq] at space
  omega

theorem inGroup_cases {c : Char} (inside : inGroup c = true) :
    (isWhitespace c = true ∧ toDigit c = none) ∨
      (isWhitespace c = false ∧ ∃ digit, toDigit c = some digit ∧ 0 ≤ digit) := by
  cases space : isWhitespace c with
  | true => exact Or.inl ⟨rfl,toDigit_whitespace space⟩
  | false =>
    rw [inGroup,space,Bool.false_or] at inside
    obtain ⟨digit,found⟩ := Option.isSome_iff_exists.mp inside
    exact Or.inr ⟨rfl,digit,found,toDigit_nonneg found⟩

theorem not_inGroup {c : Char} (ends : inGroup c = false) :
    isWhitespace c = false ∧ toDigit c = none := by
  simpa [inGroup] using ends

theorem groupValue_cons (num : Int) (c : Char) (rest : List Char) :
    groupValue num (c::rest) =
      groupValue (match toDigit c with | some digit => num * 10 + digit | none => num) rest := rfl

theorem le_groupValue {num : Int} (nonneg : 0 ≤ num) (chars : List Char) :
    num ≤ groupValue num chars := by
  induction chars generalizing num with
  | nil => exact le_refl num
  | cons c rest ih =>
    rw [groupValue_cons]
    cases found : toDigit c with
    | none => exact ih nonneg
    | some digit =>
      have positive := toDigit_nonneg found
      have grown : num ≤ num * 10 + digit := by omega
      exact grown.trans (ih (nonneg.trans grown))

variable (chrono : CDuration) {group rest : List Char} {num : Int}

/-- The loop takes a group in, and panics if its number is not an `i64`. -/
theorem durationLoop_group (digits : ∀ c ∈ group, inGroup c = true) (nonneg : 0 ≤ num)
    (small : num < 2 ^ 63) (dur : chrono.Carrier) :
    durationLoop chrono (group ++ rest) dur num =
      if groupValue num group < 2 ^ 63 then durationLoop chrono rest dur (groupValue num group)
      else none := by
  induction group generalizing num with
  | nil => exact (if_pos small).symm
  | cons c group ih =>
    obtain ⟨here,later⟩ := List.forall_mem_cons.mp digits
    rw [List.cons_append,durationLoop,groupValue_cons]
    rcases inGroup_cases here with ⟨space,found⟩ | ⟨space,digit,found,positive⟩
    · rw [space,if_pos rfl,found]
      exact ih later nonneg small
    · rw [space,if_neg Bool.false_ne_true,found]
      dsimp only
      split
      · rename_i fits
        exact ih later (by omega) fits
      · rename_i large
        have grown := le_groupValue (by omega : 0 ≤ num * 10 + digit) group
        rw [if_neg (by omega)]

theorem durationLoop_last (digits : ∀ c ∈ group, inGroup c = true) (dur : chrono.Carrier) :
    durationLoop chrono group dur 0 =
      if groupValue 0 group < 2 ^ 63 then some (.ok dur) else none := by
  have loop : durationLoop chrono (group ++ []) dur 0 = _ :=
    durationLoop_group chrono digits (le_refl 0) (by decide) dur
  rwa [List.append_nil] at loop

variable {c : Char} (ends : inGroup c = false) (dur : chrono.Carrier)
include ends

theorem durationLoop_unit {unit : DurationUnit}
    (found : DurationUnit.ofChars c rest.head? = some unit) :
    durationLoop chrono (c::rest) dur num = (unit.times chrono num).bind
      (fun part => durationLoop chrono rest (chrono.add dur part) 0) := by
  obtain ⟨space,digit⟩ := not_inGroup ends
  rw [durationLoop,space,if_neg Bool.false_ne_true,digit]
  dsimp only
  rw [DurationUnit.unitDuration_eq,found,Option.map_some]
  cases unit.times chrono num <;> rfl

theorem durationLoop_unexpected (found : DurationUnit.ofChars c rest.head? = none) :
    durationLoop chrono (c::rest) dur num = some (.error (.unexpectedChar c)) := by
  obtain ⟨space,digit⟩ := not_inGroup ends
  rw [durationLoop,space,if_neg Bool.false_ne_true,digit]
  dsimp only
  rw [DurationUnit.unitDuration_eq,found,Option.map_none]

end Digits

theorem groupValue_nonneg (chars : List Char) : 0 ≤ groupValue 0 chars :=
  le_groupValue (le_refl 0) chars

theorem total_cons (group : Group) (groups : List Group) (trailing : Int) :
    Reading.total ⟨group::groups,trailing⟩ = group.nanos + Reading.total ⟨groups,trailing⟩ := by
  rw [Reading.total,List.map_cons,List.sum_cons]
  rfl

theorem read_nonneg (text : List Char) :
    0 ≤ (read text).trailing ∧ ∀ group ∈ (read text).groups, 0 ≤ group.num := by
  induction text using groups_induction with
  | last group digits =>
    rw [read_end digits]
    exact ⟨groupValue_nonneg group,fun _ member => by cases member⟩
  | more group c rest digits ends ih =>
    rw [read_close digits ends]
    refine ⟨ih.1,?_⟩
    intro other member
    rcases List.mem_cons.mp member with rfl | later
    · exact groupValue_nonneg group
    · exact ih.2 other later

theorem nanos_nonneg {group : Group} (nonneg : 0 ≤ group.num) : 0 ≤ group.nanos := by
  unfold Group.nanos
  split
  · exact Int.mul_nonneg nonneg (DurationUnit.nanos_pos _).le
  · exact le_refl 0

theorem used_nonneg (text : List Char) : 0 ≤ ((used (read text).groups).map Group.nanos).sum := by
  apply List.sum_nonneg
  intro nanos member
  obtain ⟨group,inside,rfl⟩ := List.mem_map.mp member
  exact nanos_nonneg ((read_nonneg text).2 group ((List.takeWhile_prefix _).subset inside))

theorem used_cons (num : Int) (unit : DurationUnit) (groups : List Group) :
    used (⟨num,some unit⟩::groups) = ⟨num,some unit⟩::used groups :=
  List.takeWhile_cons_of_pos rfl

section Loop
variable (chrono : CDuration)

def Complete (reading : Reading) : Prop := ∀ group ∈ reading.groups, group.unit ≠ none

theorem complete_cons (group : Group) (groups : List Group) (trailing other : Int) :
    Complete ⟨group::groups,trailing⟩ ↔ group.unit ≠ none ∧ Complete ⟨groups,other⟩ :=
  List.forall_mem_cons

theorem used_complete {reading : Reading} (complete : Complete reading) :
    used reading.groups = reading.groups :=
  List.takeWhile_eq_self_iff.mpr fun group member =>
    Option.isSome_iff_ne_none.mpr (complete group member)

theorem nanos_add_group {num : Int} {unit : DurationUnit} {dur part : chrono.Carrier}
    (made : unit.times chrono num = some part) (value : 0 ≤ num) (nonneg : 0 ≤ chrono.nanos dur)
    (bounded : chrono.nanos dur + num * unit.nanos ≤ CDuration.maxNanos) :
    chrono.nanos (chrono.add dur part) = chrono.nanos dur + num * unit.nanos := by
  have positive := Int.mul_nonneg value unit.nanos_pos.le
  have least : CDuration.minNanos ≤ 0 := by decide
  rw [← unit.nanos_times chrono made] at positive bounded ⊢
  exact chrono.nanos_add dur part (by omega) (by omega)

/-- Where the loop does not overflow it adds up the groups, if each that a character ends has a
unit; the first that has none is an error. What is read last is never looked at. -/
theorem durationLoop_read (text : List Char) (dur : chrono.Carrier) (nonneg : 0 ≤ chrono.nanos dur)
    (bounded :
      chrono.nanos dur + ((used (read text).groups).map Group.nanos).sum ≤ CDuration.maxNanos)
    (fits : durationLoop chrono text dur 0 ≠ none) :
    (Complete (read text) → ∃ result, durationLoop chrono text dur 0 = some (.ok result) ∧
        chrono.nanos result = chrono.nanos dur + (read text).total) ∧
      (¬ Complete (read text) →
        ∃ c, durationLoop chrono text dur 0 = some (.error (.unexpectedChar c))) := by
  induction text using groups_induction generalizing dur with
  | last group digits =>
    rw [durationLoop_last chrono digits] at fits ⊢
    rw [read_end digits]
    split at fits
    · rename_i small
      rw [if_pos small]
      refine ⟨fun _ => ⟨dur,rfl,(add_zero _).symm⟩,fun incomplete => ?_⟩
      exact absurd (fun _ member => by cases member) incomplete
    · exact absurd rfl fits
  | more group c rest digits ends ih =>
    have loop : durationLoop chrono (group ++ c::rest) dur 0 = _ :=
      durationLoop_group chrono digits (le_refl 0) (by decide) dur
    have value := groupValue_nonneg group
    rw [loop] at fits ⊢
    rw [read_close digits ends] at bounded ⊢
    rw [total_cons]
    split at fits
    · rename_i small
      rw [if_pos small]
      cases found : DurationUnit.ofChars c rest.head? with
      | none =>
        refine ⟨fun complete => ?_,fun _ => ⟨c,durationLoop_unexpected chrono ends dur found⟩⟩
        exact absurd rfl (complete _ List.mem_cons_self)
      | some unit =>
        rw [durationLoop_unit chrono ends dur found] at fits ⊢
        rw [found] at bounded
        cases made : unit.times chrono (groupValue 0 group) with
        | none => exact absurd (by rw [made]; rfl) fits
        | some part =>
          rw [used_cons,List.map_cons,List.sum_cons] at bounded
          have later := used_nonneg rest
          have positive := Int.mul_nonneg value unit.nanos_pos.le
          change chrono.nanos dur + (groupValue 0 group * unit.nanos + _) ≤ _ at bounded
          have sum := nanos_add_group chrono made value nonneg (by omega)
          rw [made] at fits
          obtain ⟨done,failed⟩ := ih (chrono.add dur part) (by omega) (by omega) fits
          rw [complete_cons _ _ _ (read rest).trailing]
          constructor
          · rintro ⟨_,complete⟩
            obtain ⟨result,parsed,total⟩ := done complete
            refine ⟨result,parsed,?_⟩
            rw [total,sum,add_assoc]
            rfl
          · intro incomplete
            apply failed
            intro complete
            exact incomplete ⟨Option.some_ne_none unit,complete⟩
    · exact absurd rfl fits

/-- Groups that are small enough leave no room for a panic. -/
theorem durationLoop_ne_none (text : List Char) (dur : chrono.Carrier)
    (last : (read text).trailing < 2 ^ 63)
    (small : ∀ group ∈ (read text).groups,
      group.num < 2 ^ 63 ∧ group.nanos ≤ CDuration.maxNanos) :
    durationLoop chrono text dur 0 ≠ none := by
  induction text using groups_induction generalizing dur with
  | last group digits =>
    rw [read_end digits] at last
    rw [durationLoop_last chrono digits,if_pos last]
    exact Option.some_ne_none _
  | more group c rest digits ends ih =>
    have loop : durationLoop chrono (group ++ c::rest) dur 0 = _ :=
      durationLoop_group chrono digits (le_refl 0) (by decide) dur
    rw [read_close digits ends] at last small
    obtain ⟨⟨fits,most⟩,later⟩ := List.forall_mem_cons.mp small
    rw [loop,if_pos fits]
    cases found : DurationUnit.ofChars c rest.head? with
    | none =>
      rw [durationLoop_unexpected chrono ends dur found]
      exact Option.some_ne_none _
    | some unit =>
      rw [found] at most
      obtain ⟨part,made⟩ := Option.isSome_iff_exists.mp
        (unit.times_isSome chrono (groupValue_nonneg group) most)
      rw [durationLoop_unit chrono ends dur found,made]
      exact ih (chrono.add dur part) last later

end Loop

section Discarded
variable (chrono : CDuration) (unicode : Lowercase)

/-- How the text of a string reads. Upper and lower case are the same to the parser. -/
def readStr (s : String) : Reading := read (s.toList.flatMap unicode.lower)

/-- Every number of a text that is accepted counts, and a text with a number, other than zero,
that has no unit is not accepted. -/
structure NothingDiscarded (s : String) : Prop where
  accepted : ∀ dur, chronoDurationFromStr chrono unicode s = some (.ok dur) →
    (∀ group ∈ (readStr unicode s).all, group.num ≠ 0 → group.unit ≠ none) ∧
      chrono.nanos dur = ((readStr unicode s).all.map Group.nanos).sum
  rejected : (∃ group ∈ (readStr unicode s).all, group.num ≠ 0 ∧ group.unit = none) →
    ∃ err, chronoDurationFromStr chrono unicode s = some (.error err)

theorem sum_all (reading : Reading) : (reading.all.map Group.nanos).sum = reading.total := by
  rw [Reading.all,List.map_append,List.sum_append]
  exact add_zero _

/-- Nothing is discarded exactly when the text does not end in a number without a unit, or is
rejected for an unexpected character. -/
theorem nothing_discarded_exactly (s : String)
    (fits : chronoDurationFromStr chrono unicode s ≠ none)
    (bounded : ((used (readStr unicode s).groups).map Group.nanos).sum ≤ CDuration.maxNanos) :
    NothingDiscarded chrono unicode s ↔ (readStr unicode s).trailing = 0 ∨
      ∃ group ∈ (readStr unicode s).groups, group.unit = none := by
  have parsed := durationLoop_read chrono (s.toList.flatMap unicode.lower) chrono.zero
    chrono.nanos_zero.ge (by rw [chrono.nanos_zero,zero_add]; exact bounded) fits
  rw [chrono.nanos_zero,zero_add] at parsed
  obtain ⟨accepts,rejects⟩ := parsed
  by_cases complete : Complete (readStr unicode s)
  · obtain ⟨result,ok,total⟩ := accepts complete
    have units : ¬ ∃ group ∈ (readStr unicode s).groups, group.unit = none := by
      rintro ⟨group,member,bare⟩
      exact complete group member bare
    rw [or_iff_left units]
    constructor
    · intro kept
      by_contra number
      have ends : (⟨(readStr unicode s).trailing,none⟩ : Group) ∈ (readStr unicode s).all :=
        List.mem_append_right _ (List.mem_singleton_self _)
      exact (kept.accepted result ok).1 _ ends number rfl
    · intro zero
      have bare : ∀ group ∈ (readStr unicode s).all, group.num ≠ 0 → group.unit ≠ none := by
        intro group member number
        rcases List.mem_append.mp member with inside | last
        · exact complete group inside
        · rw [List.mem_singleton.mp last] at number
          exact absurd zero number
      constructor
      · intro dur again
        cases ok.symm.trans again
        rw [sum_all]
        exact ⟨bare,total⟩
      · rintro ⟨group,member,number,none⟩
        exact absurd none (bare group member number)
  · obtain ⟨c,error⟩ := rejects complete
    have bare : ∃ group ∈ (readStr unicode s).groups, group.unit = none := by
      simpa [Complete] using complete
    refine iff_of_true ⟨?_,fun _ => ⟨_,error⟩⟩ (Or.inr bare)
    intro dur ok
    cases error.symm.trans ok

end Discarded

section FiveMinutes

private theorem five_digits : ∀ c ∈ ['5'], inGroup c = true :=
  List.forall_mem_singleton.mpr (by decide)

private theorem read_five : readStr asciiLowercase "5" = ⟨[],5⟩ := read_end five_digits

private theorem parse_five (rest : List Char) :
    durationLoop ChronoModel.duration (['5'] ++ rest) ChronoModel.duration.zero 0 =
      durationLoop ChronoModel.duration rest ChronoModel.duration.zero (groupValue 0 ['5']) :=
  (durationLoop_group _ five_digits (by decide) (by decide) _).trans (if_pos (by decide))

/-- A number alone is accepted as no time at all. -/
theorem five_discarded : ¬ ∀ s, chronoDurationFromStr ChronoModel.duration asciiLowercase s ≠ none →
    ((readStr asciiLowercase s).all.map Group.nanos).sum ≤ CDuration.maxNanos →
    NothingDiscarded ChronoModel.duration asciiLowercase s := by
  intro always
  have parsed : chronoDurationFromStr ChronoModel.duration asciiLowercase "5" =
      some (.ok ChronoModel.duration.zero) := parse_five []
  have kept := always "5" (Option.ne_none_iff_exists'.mpr ⟨_,parsed⟩) (by rw [read_five]; decide)
  have units := (kept.accepted _ parsed).1
  rw [read_five] at units
  exact units ⟨5,none⟩ (by simp [Reading.all]) (by decide) rfl

private theorem read_five_minutes : readStr asciiLowercase "5m" = ⟨[⟨5,some .minutes⟩],0⟩ := by
  have rest : read [] = ⟨[],0⟩ := read_end (by simp)
  have whole : read (['5'] ++ ['m']) = _ := read_close five_digits (by decide)
  rw [rest] at whole
  exact whole

theorem five_minutes_kept : NothingDiscarded ChronoModel.duration asciiLowercase "5m" := by
  have parsed : chronoDurationFromStr ChronoModel.duration asciiLowercase "5m" = _ :=
    (parse_five ['m']).trans (durationLoop_unit _ (by decide) _ rfl)
  apply (nothing_discarded_exactly ChronoModel.duration asciiLowercase "5m" _ _).mpr
  · rw [read_five_minutes]
    exact Or.inl rfl
  · intro panicked
    cases parsed.symm.trans panicked
  · rw [read_five_minutes]
    decide

end FiveMinutes

end Rinklers
