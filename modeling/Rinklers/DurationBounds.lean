import Rinklers.DurationGroups
import Rinklers.Config

/-! When the arithmetic of the duration parser stays in range: the digits go into an `i64`, five of
the constructors of a `chrono::Duration` have bounds, and so has what is added up. -/
namespace Rinklers
open Foundation

def CDuration.InBounds (nanos : Int) : Prop :=
  CDuration.minNanos ≤ nanos ∧ nanos ≤ CDuration.maxNanos

section Arithmetic
variable (chrono : CDuration)

/-- No step of the loop leaves the range of its type. This follows `durationLoop` line by line. -/
def NoOverflow : List Char → chrono.Carrier → Int → Prop
  | [], _, _ => True
  | c::rest, dur, num =>
    if isWhitespace c then NoOverflow rest dur num else
    match toDigit c with
    | some digit => num * 10 + digit < 2 ^ 63 ∧ NoOverflow rest dur (num * 10 + digit)
    | none =>
      match unitDuration chrono num c rest.head? with
      | some (some part) =>
        CDuration.InBounds (chrono.nanos dur) ∧ CDuration.InBounds (chrono.nanos part) ∧
          CDuration.InBounds (chrono.nanos dur + chrono.nanos part) ∧
          NoOverflow rest (chrono.add dur part) 0
      | some none => False
      | none => True

theorem durationLoop_returns {text : List Char} {dur : chrono.Carrier} {num : Int}
    (inRange : NoOverflow chrono text dur num) : durationLoop chrono text dur num ≠ none := by
  induction text generalizing dur num with
  | nil => exact Option.some_ne_none _
  | cons c rest ih =>
    rw [NoOverflow] at inRange
    rw [durationLoop]
    split at inRange
    · rename_i space
      rw [if_pos space]
      exact ih inRange
    · rename_i other
      rw [if_neg other]
      cases found : toDigit c with
      | some digit =>
        rw [found] at inRange
        dsimp only at inRange ⊢
        rw [if_pos inRange.1]
        exact ih inRange.2
      | none =>
        rw [found] at inRange
        dsimp only at inRange ⊢
        cases unit : unitDuration chrono num c rest.head? with
        | none => exact Option.some_ne_none _
        | some made =>
          rw [unit] at inRange
          cases made with
          | none => exact inRange.elim
          | some part => exact ih inRange.2.2.2

variable {group rest : List Char} {c : Char} {num : Int}

theorem noOverflow_group (digits : ∀ c ∈ group, inGroup c = true) (nonneg : 0 ≤ num)
    (small : num < 2 ^ 63) (dur : chrono.Carrier) :
    NoOverflow chrono (group ++ rest) dur num ↔
      groupValue num group < 2 ^ 63 ∧ NoOverflow chrono rest dur (groupValue num group) := by
  induction group generalizing num with
  | nil => exact (and_iff_right small).symm
  | cons c group ih =>
    obtain ⟨here,later⟩ := List.forall_mem_cons.mp digits
    rw [List.cons_append,NoOverflow,groupValue_cons]
    rcases inGroup_cases here with ⟨space,found⟩ | ⟨space,digit,found,positive⟩
    · rw [space,if_pos rfl,found]
      exact ih later nonneg small
    · rw [space,if_neg Bool.false_ne_true,found]
      have grown := le_groupValue (by omega : 0 ≤ num * 10 + digit) group
      dsimp only
      constructor
      · rintro ⟨fits,inRange⟩
        exact (ih later (by omega) fits).mp inRange
      · intro inRange
        have fits : num * 10 + digit < 2 ^ 63 := by omega
        exact ⟨fits,(ih later (by omega) fits).mpr inRange⟩

variable (ends : inGroup c = false) (dur : chrono.Carrier)
include ends

theorem noOverflow_unit {unit : DurationUnit}
    (found : DurationUnit.ofChars c rest.head? = some unit) :
    NoOverflow chrono (c::rest) dur num ↔ ∃ part, unit.times chrono num = some part ∧
      CDuration.InBounds (chrono.nanos dur) ∧ CDuration.InBounds (chrono.nanos part) ∧
      CDuration.InBounds (chrono.nanos dur + chrono.nanos part) ∧
      NoOverflow chrono rest (chrono.add dur part) 0 := by
  obtain ⟨space,digit⟩ := not_inGroup ends
  rw [NoOverflow,space,if_neg Bool.false_ne_true,digit]
  dsimp only
  rw [DurationUnit.unitDuration_eq,found,Option.map_some]
  cases unit.times chrono num <;> simp

theorem noOverflow_unexpected (found : DurationUnit.ofChars c rest.head? = none) :
    NoOverflow chrono (c::rest) dur num := by
  obtain ⟨space,digit⟩ := not_inGroup ends
  rw [NoOverflow,space,if_neg Bool.false_ne_true,digit]
  dsimp only
  rw [DurationUnit.unitDuration_eq,found,Option.map_none]
  trivial

end Arithmetic

section Moderate

/-- Up to the first number that has no unit, that one included, every number is an `i64` and what
has been read so far is no longer than a `chrono::Duration` can be. -/
def Moderate (reading : Reading) : Prop :=
  ∀ front group back, reading.all = front ++ group::back → (∀ other ∈ front, other.unit ≠ none) →
    group.num < 2 ^ 63 ∧ ((front ++ [group]).map Group.nanos).sum ≤ CDuration.maxNanos

/-- The same for groups that come after a text of length `sum`. -/
private def ModerateAfter (sum : Int) (groups : List Group) : Prop :=
  ∀ front group back, groups = front ++ group::back → (∀ other ∈ front, other.unit ≠ none) →
    group.num < 2 ^ 63 ∧ sum + ((front ++ [group]).map Group.nanos).sum ≤ CDuration.maxNanos

private theorem moderateAfter_cons (sum : Int) (group : Group) (groups : List Group) :
    ModerateAfter sum (group::groups) ↔
      (group.num < 2 ^ 63 ∧ sum + group.nanos ≤ CDuration.maxNanos) ∧
        (group.unit ≠ none → ModerateAfter (sum + group.nanos) groups) := by
  constructor
  · intro moderate
    constructor
    · simpa using moderate [] group groups rfl (by simp)
    · intro unit front other back parts units
      have later := moderate (group::front) other back (by rw [parts]; rfl)
        (List.forall_mem_cons.mpr ⟨unit,units⟩)
      simpa [add_assoc] using later
  · rintro ⟨here,later⟩ front other back parts units
    cases front with
    | nil =>
      cases parts
      simpa using here
    | cons first front =>
      cases parts
      obtain ⟨unit,others⟩ := List.forall_mem_cons.mp units
      simpa [add_assoc] using later unit front other back rfl others

variable (chrono : CDuration)

private theorem noOverflow_iff (text : List Char) (dur : chrono.Carrier)
    (nonneg : 0 ≤ chrono.nanos dur) (bounded : chrono.nanos dur ≤ CDuration.maxNanos) :
    NoOverflow chrono text dur 0 ↔ ModerateAfter (chrono.nanos dur) (read text).all := by
  have least : CDuration.minNanos ≤ 0 := by decide
  induction text using groups_induction generalizing dur with
  | last group digits =>
    have loop : NoOverflow chrono (group ++ []) dur 0 ↔ _ :=
      noOverflow_group chrono digits (le_refl 0) (by decide) dur
    rw [List.append_nil] at loop
    rw [loop,read_end digits]
    change _ ↔ ModerateAfter _ [⟨groupValue 0 group,none⟩]
    rw [moderateAfter_cons,Group.nanos,add_zero]
    constructor
    · rintro ⟨small,_⟩
      exact ⟨⟨small,bounded⟩,fun unit => absurd rfl unit⟩
    · rintro ⟨⟨small,_⟩,_⟩
      exact ⟨small,trivial⟩
  | more group c rest digits ends ih =>
    have value := groupValue_nonneg group
    rw [noOverflow_group chrono digits (le_refl 0) (by decide) dur,read_close digits ends]
    change _ ↔ ModerateAfter _
      (⟨groupValue 0 group,DurationUnit.ofChars c rest.head?⟩::(read rest).all)
    rw [moderateAfter_cons,and_assoc]
    apply and_congr_right
    intro small
    cases found : DurationUnit.ofChars c rest.head? with
    | none =>
      rw [Group.nanos,add_zero]
      exact iff_of_true (noOverflow_unexpected chrono ends dur found)
        ⟨bounded,fun unit => absurd rfl unit⟩
    | some unit =>
      have positive := Int.mul_nonneg value unit.nanos_pos.le
      rw [noOverflow_unit chrono ends dur found]
      change _ ↔ chrono.nanos dur + groupValue 0 group * unit.nanos ≤ _ ∧
        (_ → ModerateAfter (chrono.nanos dur + groupValue 0 group * unit.nanos) _)
      constructor
      · rintro ⟨part,made,_,_,sum,inRange⟩
        have length := unit.nanos_times chrono made
        rw [length] at sum
        have total := nanos_add_group chrono made value nonneg sum.2
        refine ⟨sum.2,fun _ => ?_⟩
        rw [← total] at sum ⊢
        exact (ih _ (by omega) sum.2).mp inRange
      · rintro ⟨sum,later⟩
        obtain ⟨part,made⟩ := Option.isSome_iff_exists.mp
          (unit.times_isSome chrono value (by omega))
        have length := unit.nanos_times chrono made
        have total := nanos_add_group chrono made value nonneg sum
        have after := later (Option.some_ne_none unit)
        rw [← total] at after
        refine ⟨part,made,⟨by omega,bounded⟩,?_,?_,(ih _ (by omega) (by omega)).mpr after⟩
        · rw [length]
          exact ⟨by omega,by omega⟩
        · rw [length]
          exact ⟨by omega,sum⟩

end Moderate

section NeverOverflows
variable (chrono : CDuration) (unicode : Lowercase)

/-- Whoever parses the text gets a duration or an error, with no arithmetic out of range. -/
structure NeverOverflows (s : String) : Prop where
  parsed : chronoDurationFromStr chrono unicode s ≠ none
  converted : durationFromStr chrono unicode s ≠ none
  deserialized : ∀ value, Format.string.read value = .ok s →
    deserializeDuration chrono unicode value ≠ .error .panic
  arithmetic : NoOverflow chrono (s.toList.flatMap unicode.lower) chrono.zero 0

theorem converted_of_parsed {s : String} (parsed : chronoDurationFromStr chrono unicode s ≠ none) :
    durationFromStr chrono unicode s ≠ none := by
  rw [durationFromStr]
  exact mt Option.map_eq_none_iff.mp parsed

theorem deserialized_of_converted {s : String} (converted : durationFromStr chrono unicode s ≠ none)
    {value : Value} (text : Format.string.read value = .ok s) :
    deserializeDuration chrono unicode value ≠ .error .panic := by
  obtain ⟨result,returned⟩ := Option.ne_none_iff_exists'.mp converted
  rw [deserializeDuration,text]
  cases result with
  | ok duration => simp [returned,bind,Except.bind]
  | error err => simp [returned,bind,Except.bind]

/-- The parser stays in range exactly on the texts of moderate numbers. -/
theorem never_overflows_exactly (s : String) :
    NeverOverflows chrono unicode s ↔ Moderate (readStr unicode s) := by
  have after : Moderate (readStr unicode s) ↔ ModerateAfter 0 (readStr unicode s).all := by
    simp [Moderate,ModerateAfter]
  have inRange := noOverflow_iff chrono (s.toList.flatMap unicode.lower) chrono.zero
    chrono.nanos_zero.ge (by rw [chrono.nanos_zero]; decide)
  rw [chrono.nanos_zero] at inRange
  rw [after]
  constructor
  · intro never
    exact inRange.mp never.arithmetic
  · intro moderate
    have arithmetic := inRange.mpr moderate
    have parsed := durationLoop_returns chrono arithmetic
    have converted := converted_of_parsed chrono unicode parsed
    exact ⟨parsed,converted,fun _ => deserialized_of_converted chrono unicode converted,arithmetic⟩

end NeverOverflows

/-- One second more than an `i64` can count. -/
theorem seconds_overflow :
    ¬ ∀ s, NeverOverflows ChronoModel.duration asciiLowercase s := by
  intro always
  apply (always "9223372036854775808s").parsed
  have digits : ∀ c ∈ "9223372036854775808".toList, inGroup c = true := by
    simp [inGroup,toDigit]
  have parsed : durationLoop ChronoModel.duration ("9223372036854775808".toList ++ ['s']) _ 0 = _ :=
    durationLoop_group _ digits (le_refl 0) (by decide) ChronoModel.duration.zero
  exact parsed.trans (if_neg (by decide))

end Rinklers
