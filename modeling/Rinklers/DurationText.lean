import Rinklers.DurationGroups

/-! The text of a duration reads as the duration again. It is made of parts, each a number and its
unit, and the parser takes such a text part by part. -/
namespace Rinklers

def DurationUnit.text : DurationUnit → List Char
  | .weeks => ['w']
  | .days => ['d']
  | .hours => ['h']
  | .minutes => ['m']
  | .seconds => ['s']
  | .milliseconds => ['m','s']
  | .microseconds => ['u','s']
  | .nanoseconds => ['n','s']

structure Part where
  num : Int
  unit : DurationUnit
deriving DecidableEq, Repr

namespace Part

def nanos (part : Part) : Int := part.num * part.unit.nanos

def text (part : Part) : List Char :=
  if 0 < part.num then Nat.toDigits 10 part.num.toNat ++ part.unit.text else []

end Part

section Digits

theorem isDigit_iff {c : Char} : c.isDigit = true ↔ 48 ≤ c.toNat ∧ c.toNat ≤ 57 := by
  rw [Char.isDigit_iff_toNat]
  exact Iff.rfl

theorem toDigit_of_isDigit {c : Char} (digit : c.isDigit = true) :
    toDigit c = some ((c.toNat - '0'.toNat : Nat) : Int) := by
  obtain ⟨low,high⟩ := isDigit_iff.mp digit
  exact if_pos ⟨low,high⟩

theorem digits_inGroup (n : Nat) : ∀ c ∈ Nat.toDigits 10 n, inGroup c = true := by
  intro c member
  have digit := Nat.isDigit_of_mem_toDigits (by decide) (by decide) member
  simp [inGroup,toDigit_of_isDigit digit]

theorem groupValue_ofDigitChars (chars : List Char) (num : Nat)
    (digits : ∀ c ∈ chars, c.isDigit = true) :
    groupValue num chars = (Nat.ofDigitChars 10 chars num : Nat) := by
  induction chars generalizing num with
  | nil => rw [Nat.ofDigitChars_nil]; rfl
  | cons c rest ih =>
    rw [groupValue_cons,toDigit_of_isDigit (digits c List.mem_cons_self),Nat.ofDigitChars_cons]
    have next := ih (10 * num + (c.toNat - '0'.toNat)) (fun c member =>
      digits c (List.mem_cons_of_mem _ member))
    rw [← next]
    congr 1
    push_cast
    rw [Int.mul_comm]

theorem groupValue_toDigits (n : Nat) : groupValue 0 (Nat.toDigits 10 n) = n := by
  have value := groupValue_ofDigitChars (Nat.toDigits 10 n) 0 (fun c member =>
    Nat.isDigit_of_mem_toDigits (by decide) (by decide) member)
  rw [Nat.ofDigitChars_ten_toDigits] at value
  exact value

end Digits

/-- What a text made of parts reads as. -/
structure Reads (text : List Char) (total : Int) : Prop where
  complete : Complete (read text)
  trailing : (read text).trailing = 0
  total : (read text).total = total
  small : ∀ group ∈ (read text).groups, group.num < 2 ^ 63 ∧ group.nanos ≤ CDuration.maxNanos

section Parts

theorem reads_zero {group : List Char} (digits : ∀ c ∈ group, inGroup c = true)
    (zero : groupValue 0 group = 0) : Reads group 0 := by
  have parts : read group = ⟨[],0⟩ := (read_end digits).trans (congrArg (Reading.mk []) zero)
  constructor
  · rw [parts]
    exact fun _ member => by cases member
  · rw [parts]
  · rw [parts]
    rfl
  · rw [parts]
    exact fun _ member => by cases member

theorem reads_close {group rest : List Char} {c : Char} {unit : DurationUnit} {total : Int}
    (digits : ∀ c ∈ group, inGroup c = true) (ends : inGroup c = false)
    (found : DurationUnit.ofChars c rest.head? = some unit) (small : groupValue 0 group < 2 ^ 63)
    (fits : groupValue 0 group * unit.nanos ≤ CDuration.maxNanos) (later : Reads rest total) :
    Reads (group ++ c::rest) (groupValue 0 group * unit.nanos + total) := by
  have parts : read (group ++ c::rest) = _ := read_close digits ends
  rw [found] at parts
  constructor
  · rw [parts]
    exact (complete_cons _ _ _ (read rest).trailing).mpr ⟨Option.some_ne_none unit,later.complete⟩
  · rw [parts]
    exact later.trailing
  · rw [parts,total_cons,← later.total]
    rfl
  · rw [parts]
    exact List.forall_mem_cons.mpr ⟨⟨small,fits⟩,later.small⟩

/-- A unit of two letters leaves its `s` to be read as no seconds. -/
theorem reads_seconds {rest : List Char} {total : Int} (later : Reads rest total) :
    Reads ('s'::rest) total := by
  have zero : Reads ([] ++ 's'::rest) (groupValue 0 [] * DurationUnit.seconds.nanos + total) :=
    reads_close (by simp) (by decide) rfl (by decide) (by decide) later
  rwa [groupValue,List.foldl_nil,zero_mul,zero_add] at zero

theorem reads_unit {group rest : List Char} {unit : DurationUnit} {total : Int}
    (digits : ∀ c ∈ group, inGroup c = true) (next : rest.head? ≠ some 's')
    (small : groupValue 0 group < 2 ^ 63)
    (fits : groupValue 0 group * unit.nanos ≤ CDuration.maxNanos) (later : Reads rest total) :
    Reads (group ++ unit.text ++ rest) (groupValue 0 group * unit.nanos + total) := by
  rw [List.append_assoc]
  cases unit with
  | weeks | days | hours | seconds =>
    exact reads_close digits (by decide) rfl small fits later
  | minutes =>
    apply reads_close digits (by decide) _ small fits later
    unfold DurationUnit.ofChars
    split <;> simp_all
  | milliseconds | microseconds | nanoseconds =>
    exact reads_close digits (by decide) rfl small fits (reads_seconds later)

theorem reads_part {part : Part} {rest : List Char} {total : Int} (next : rest.head? ≠ some 's')
    (nonneg : 0 ≤ part.num) (small : part.num < 2 ^ 63) (fits : part.nanos ≤ CDuration.maxNanos)
    (later : Reads rest total) : Reads (part.text ++ rest) (part.nanos + total) := by
  rcases nonneg.lt_or_eq with positive | zero
  · have value : groupValue 0 (Nat.toDigits 10 part.num.toNat) = part.num := by
      rw [groupValue_toDigits,Int.toNat_of_nonneg nonneg]
    rw [Part.nanos] at fits ⊢
    rw [← value] at small fits ⊢
    rw [Part.text,if_pos positive]
    exact reads_unit (digits_inGroup part.num.toNat) next small fits later
  · rw [Part.nanos,← zero,Part.text,if_neg (by omega),zero_mul,zero_add]
    exact later

theorem group_head {group : List Char} (digits : ∀ c ∈ group, inGroup c = true)
    (nonempty : group ≠ []) (rest : List Char) : (group ++ rest).head? ≠ some 's' := by
  rw [List.head?_append_of_ne_nil _ nonempty]
  intro head
  exact absurd (digits _ (List.mem_of_head? head)) (by decide)

theorem text_head (parts : List Part) : (parts.flatMap Part.text).head? ≠ some 's' := by
  induction parts with
  | nil => simp
  | cons part parts ih =>
    rw [List.flatMap_cons,Part.text]
    split
    · rw [List.append_assoc]
      exact group_head (digits_inGroup part.num.toNat) (by simp) _
    · exact ih

/-- The invariant of the text: each part in it is read as itself. -/
theorem reads_parts (parts : List Part) (bounds : ∀ part ∈ parts,
      0 ≤ part.num ∧ part.num < 2 ^ 63 ∧ part.nanos ≤ CDuration.maxNanos) :
    Reads (parts.flatMap Part.text) (parts.map Part.nanos).sum := by
  induction parts with
  | nil => exact reads_zero (by simp) rfl
  | cons part parts ih =>
    obtain ⟨⟨nonneg,small,fits⟩,later⟩ := List.forall_mem_cons.mp bounds
    rw [List.flatMap_cons,List.map_cons,List.sum_cons]
    exact reads_part (text_head parts) nonneg small fits (ih later)

end Parts

section Printer

/-- The numbers that the printer writes for a length that is not negative. -/
def amounts (nanos : Int) : List Part :=
  [⟨nanos / DurationUnit.weeks.nanos,.weeks⟩,
    ⟨nanos / DurationUnit.days.nanos % 7,.days⟩,
    ⟨nanos / DurationUnit.hours.nanos % 24,.hours⟩,
    ⟨nanos / DurationUnit.minutes.nanos % 60,.minutes⟩,
    ⟨nanos / DurationUnit.seconds.nanos % 60,.seconds⟩,
    ⟨nanos / DurationUnit.milliseconds.nanos % 1000,.milliseconds⟩,
    ⟨nanos / DurationUnit.microseconds.nanos % 1000,.microseconds⟩,
    ⟨nanos / DurationUnit.nanoseconds.nanos % 1000,.nanoseconds⟩]

/-- The smallest unit that the printer has a count of, since the count has to be an `i64`. -/
def precision (nanos : Int) : DurationUnit :=
  if nanos < 2 ^ 63 then .nanoseconds
  else if nanos / 1000 < 2 ^ 63 then .microseconds
  else .milliseconds

/-- What of these numbers it does write. -/
def parts (nanos : Int) : List Part :=
  (amounts nanos).filter (fun part => (precision nanos).nanos ≤ part.unit.nanos)

theorem parts_nanoseconds {nanos : Int} (small : nanos < 2 ^ 63) : parts nanos = amounts nanos := by
  rw [parts,precision,if_pos small]
  rfl

theorem parts_microseconds {nanos : Int} (large : ¬ nanos < 2 ^ 63) (small : nanos / 1000 < 2 ^ 63) :
    parts nanos = (amounts nanos).take 7 := by
  rw [parts,precision,if_neg large,if_pos small]
  rfl

theorem parts_milliseconds {nanos : Int} (large : ¬ nanos < 2 ^ 63)
    (larger : ¬ nanos / 1000 < 2 ^ 63) : parts nanos = (amounts nanos).take 6 := by
  rw [parts,precision,if_neg large,if_neg larger]
  rfl

private theorem carry (nanos : Int) {large small : DurationUnit} {count : Int}
    (size : large.nanos = small.nanos * count) :
    nanos / large.nanos * large.nanos + nanos / small.nanos % count * small.nanos =
      nanos / small.nanos * small.nanos := by
  rw [size,← Int.ediv_ediv_of_nonneg small.nanos_pos.le,mul_comm small.nanos count,← mul_assoc,
    ← add_mul,Int.ediv_mul_add_emod]

theorem amounts_sum (nanos : Int) : ((amounts nanos).map Part.nanos).sum = nanos := by
  have days := carry nanos (by decide : DurationUnit.weeks.nanos = DurationUnit.days.nanos * 7)
  have hours := carry nanos (by decide : DurationUnit.days.nanos = DurationUnit.hours.nanos * 24)
  have minutes :=
    carry nanos (by decide : DurationUnit.hours.nanos = DurationUnit.minutes.nanos * 60)
  have seconds :=
    carry nanos (by decide : DurationUnit.minutes.nanos = DurationUnit.seconds.nanos * 60)
  have millis :=
    carry nanos (by decide : DurationUnit.seconds.nanos = DurationUnit.milliseconds.nanos * 1000)
  have micros := carry nanos
    (by decide : DurationUnit.milliseconds.nanos = DurationUnit.microseconds.nanos * 1000)
  have rest := carry nanos
    (by decide : DurationUnit.microseconds.nanos = DurationUnit.nanoseconds.nanos * 1000)
  simp only [amounts,List.map_cons,List.map_nil,List.sum_cons,List.sum_nil,Part.nanos,add_zero]
  rw [← add_assoc,days,← add_assoc,hours,← add_assoc,minutes,← add_assoc,seconds,← add_assoc,
    millis,← add_assoc,micros,rest]
  exact (mul_one _).trans (Int.ediv_one nanos)

theorem amounts_nonneg {nanos : Int} (nonneg : 0 ≤ nanos) :
    ∀ part ∈ amounts nanos, 0 ≤ part.num := by
  have least (unit : DurationUnit) (count : Int) (positive : 0 < count) :
      0 ≤ nanos / unit.nanos % count := Int.emod_nonneg _ positive.ne'
  simp only [amounts,List.forall_mem_cons]
  refine ⟨Int.ediv_nonneg nonneg DurationUnit.weeks.nanos_pos.le,?_⟩
  simp [least]

theorem amounts_le {nanos : Int} (nonneg : 0 ≤ nanos) : ∀ part ∈ amounts nanos,
    part.nanos ≤ nanos := by
  intro part member
  have all : ∀ x ∈ (amounts nanos).map Part.nanos, 0 ≤ x := by
    intro x inside
    obtain ⟨other,present,rfl⟩ := List.mem_map.mp inside
    exact Int.mul_nonneg (amounts_nonneg nonneg other present) other.unit.nanos_pos.le
  calc part.nanos ≤ ((amounts nanos).map Part.nanos).sum :=
        List.single_le_sum all _ (List.mem_map_of_mem member)
    _ = nanos := amounts_sum nanos

theorem amounts_bounds {nanos : Int} (nonneg : 0 ≤ nanos) (small : nanos < 2 ^ 63) :
    ∀ part ∈ amounts nanos,
      0 ≤ part.num ∧ part.num < 2 ^ 63 ∧ part.nanos ≤ CDuration.maxNanos := by
  intro part member
  have least := amounts_nonneg nonneg part member
  have most := amounts_le nonneg part member
  have unit : part.num ≤ part.nanos := le_mul_of_one_le_right least part.unit.nanos_pos
  have bound : (2 : Int) ^ 63 ≤ CDuration.maxNanos := by decide
  exact ⟨least,by omega,by omega⟩

private theorem unitText_toList (s : String) (n : Int) (unit : DurationUnit) (name : String)
    (named : name.toList = unit.text) :
    (pushUnit s n name).toList = s.toList ++ Part.text ⟨n,unit⟩ := by
  rw [pushUnit,Part.text]
  split
  · rename_i positive
    have digits : toString n = toString n.toNat := by
      obtain ⟨k,rfl⟩ := Int.eq_ofNat_of_zero_le positive.le
      rfl
    rw [digits,String.toList_append,String.toList_append,named,Nat.toString_eq_repr,
      Nat.toList_repr]
  · exact (List.append_nil _).symm

variable (chrono : CDuration)

theorem chronoDurationString_parts {dur : chrono.Carrier} (positive : 0 < chrono.nanos dur)
    (printable : chrono.nanos dur ≤ CDuration.maxNanos) :
    (chronoDurationString chrono dur).toList = (parts (chrono.nanos dur)).flatMap Part.text := by
  have countable : CDuration.Countable (chrono.nanos dur) := by
    have bound : -CDuration.maxNanos ≤ 0 := by decide
    exact ⟨by omega,printable⟩
  have other : chrono.isZero dur = false := by
    rw [← Bool.not_eq_true,chrono.isZero_iff]
    exact positive.ne'
  have sign : chrono.lt dur chrono.zero = false := by
    rw [← Bool.not_eq_true,chrono.lt_iff,chrono.nanos_zero]
    exact positive.le.not_gt
  have rate (unit : DurationUnit) {n : Int} (found : n = (chrono.nanos dur).tdiv unit.nanos)
      (count : Int) : n.tmod count = chrono.nanos dur / unit.nanos % count := by
    rw [found,Int.tdiv_eq_ediv_of_nonneg positive.le]
    exact Int.tmod_eq_emod_of_nonneg (Int.ediv_nonneg positive.le unit.nanos_pos.le)
  have weeks : chrono.numWeeks dur = chrono.nanos dur / DurationUnit.weeks.nanos :=
    (chrono.numWeeks_eq dur countable).trans (Int.tdiv_eq_ediv_of_nonneg positive.le)
  have micros : chrono.numMicroseconds dur = if chrono.nanos dur / 1000 < 2 ^ 63 then
      some ((chrono.nanos dur).tdiv DurationUnit.microseconds.nanos) else none := by
    have quotient := Int.tdiv_eq_ediv_of_nonneg (b := 1000) positive.le
    rw [chrono.numMicroseconds_eq dur countable,← quotient]
    exact if_congr (and_iff_right (by omega)) rfl rfl
  have nanos : chrono.numNanoseconds dur =
      if chrono.nanos dur < 2 ^ 63 then some (chrono.nanos dur) else none := by
    rw [chrono.numNanoseconds_eq dur countable]
    exact if_congr (and_iff_right (by omega)) rfl rfl
  have written (s : String) : (pushUnit (pushUnit (pushUnit (pushUnit (pushUnit (pushUnit s
      (chrono.numWeeks dur) "w") ((chrono.numDays dur).tmod 7) "d")
      ((chrono.numHours dur).tmod 24) "h") ((chrono.numMinutes dur).tmod 60) "m")
      ((chrono.numSeconds dur).tmod 60) "s") ((chrono.numMilliseconds dur).tmod 1000) "ms").toList =
      s.toList ++ ((amounts (chrono.nanos dur)).take 6).flatMap Part.text := by
    rw [weeks,rate .days (chrono.numDays_eq dur countable),
      rate .hours (chrono.numHours_eq dur countable),
      rate .minutes (chrono.numMinutes_eq dur countable),
      rate .seconds (chrono.numSeconds_eq dur countable),
      rate .milliseconds (chrono.numMilliseconds_eq dur countable),
      unitText_toList _ _ .milliseconds _ rfl,unitText_toList _ _ .seconds _ rfl,
      unitText_toList _ _ .minutes _ rfl,unitText_toList _ _ .hours _ rfl,
      unitText_toList _ _ .days _ rfl,unitText_toList _ _ .weeks _ rfl]
    simp [amounts]
  rw [chronoDurationString,other,if_neg Bool.false_ne_true,sign,if_neg Bool.false_ne_true]
  dsimp only
  rw [micros,nanos]
  by_cases large : chrono.nanos dur < 2 ^ 63
  · have fits : chrono.nanos dur / 1000 < 2 ^ 63 := by omega
    rw [if_pos large,if_pos fits]
    dsimp only
    rw [rate .microseconds rfl,rate .nanoseconds (Int.tdiv_one _).symm,
      unitText_toList _ _ .nanoseconds _ rfl,unitText_toList _ _ .microseconds _ rfl,written]
    rw [parts_nanoseconds large]
    simp [amounts]
  · rw [if_neg large]
    by_cases fits : chrono.nanos dur / 1000 < 2 ^ 63
    · rw [if_pos fits]
      dsimp only
      rw [rate .microseconds rfl,unitText_toList _ _ .microseconds _ rfl,written]
      rw [parts_microseconds large fits]
      simp [amounts]
    · rw [if_neg fits]
      dsimp only
      rw [written]
      rw [parts_milliseconds large fits]
      simp [amounts]

theorem chronoDurationString_toList {dur : chrono.Carrier} (positive : 0 < chrono.nanos dur)
    (small : chrono.nanos dur < 2 ^ 63) :
    (chronoDurationString chrono dur).toList = (amounts (chrono.nanos dur)).flatMap Part.text := by
  have bound : (2 : Int) ^ 63 ≤ CDuration.maxNanos := by decide
  rw [chronoDurationString_parts chrono positive (by omega),parts_nanoseconds small]

end Printer

section RoundTrip
variable (chrono : CDuration) (unicode : Lowercase)

theorem lower_eq {c : Char} (ascii : c.toNat < 128) (other : ¬(65 ≤ c.toNat ∧ c.toNat ≤ 90)) :
    unicode.lower c = [c] := by
  rw [unicode.lower_ascii c ascii,toLower_eq other]

theorem lower_part (part : Part) : ∀ c ∈ part.text, unicode.lower c = [c] := by
  obtain ⟨num,unit⟩ := part
  intro c member
  rw [Part.text] at member
  split at member
  · rcases List.mem_append.mp member with inside | inside
    · obtain ⟨low,high⟩ := isDigit_iff.mp
        (Nat.isDigit_of_mem_toDigits (by decide) (by decide) inside)
      exact lower_eq unicode (by omega) (by omega)
    · have letters : ∀ c ∈ unit.text, c.toNat < 128 ∧ ¬(65 ≤ c.toNat ∧ c.toNat ≤ 90) := by
        cases unit <;> simp [DurationUnit.text]
      exact lower_eq unicode (letters c inside).1 (letters c inside).2
  · cases member

theorem lower_all {chars : List Char} (same : ∀ c ∈ chars, unicode.lower c = [c]) :
    chars.flatMap unicode.lower = chars := by
  rw [List.flatMap_congr same,List.flatMap_singleton']

theorem lower_parts (parts : List Part) :
    (parts.flatMap Part.text).flatMap unicode.lower = parts.flatMap Part.text := by
  apply lower_all
  intro c member
  obtain ⟨part,_,inside⟩ := List.mem_flatMap.mp member
  exact lower_part unicode part c inside

theorem chronoDurationFromStr_reads {s : String} {total : Int}
    (reads : Reads (s.toList.flatMap unicode.lower) total) (bounded : total ≤ CDuration.maxNanos) :
    ∃ dur, chronoDurationFromStr chrono unicode s = some (.ok dur) ∧ chrono.nanos dur = total := by
  have fits := durationLoop_ne_none chrono _ chrono.zero
    (by rw [reads.trailing]; decide) reads.small
  obtain ⟨result,parsed,sum⟩ := (durationLoop_read chrono _ chrono.zero chrono.nanos_zero.ge
    (by rwa [chrono.nanos_zero,zero_add,used_complete reads.complete,← Reading.total,reads.total])
    fits).1 reads.complete
  rw [chrono.nanos_zero,zero_add,reads.total] at sum
  exact ⟨result,parsed,sum⟩

theorem chronoDurationString_reads {dur : chrono.Carrier} (nonneg : 0 ≤ chrono.nanos dur)
    (small : chrono.nanos dur < 2 ^ 63) :
    Reads ((chronoDurationString chrono dur).toList.flatMap unicode.lower) (chrono.nanos dur) := by
  rcases nonneg.lt_or_eq with positive | zero
  · have parts := reads_parts _ (amounts_bounds nonneg small)
    rw [amounts_sum] at parts
    rwa [chronoDurationString_toList chrono positive small,lower_parts]
  · have zeros : chrono.isZero dur = true := (chrono.isZero_iff dur).mpr zero.symm
    have lower : unicode.lower '0' = ['0'] := lower_eq unicode (by decide) (by decide)
    rw [chronoDurationString,if_pos zeros,← zero]
    change Reads (['0'].flatMap unicode.lower) 0
    rw [List.flatMap_singleton,lower]
    exact reads_zero (List.forall_mem_singleton.mpr (by decide)) (by decide)

theorem text_round_trips :
    (∀ dur, 0 ≤ chrono.nanos dur → chrono.nanos dur < 2 ^ 63 →
      chronoDurationFromStr chrono unicode (chronoDurationString chrono dur) = some (.ok dur)) ∧
    ∀ dur : Duration, dur.nanos < 2 ^ 63 →
      (durationString chrono dur).bind (durationFromStr chrono unicode) = some (.ok dur) := by
  have bound : (2 : Int) ^ 63 ≤ CDuration.maxNanos := by decide
  have round : ∀ dur, 0 ≤ chrono.nanos dur → chrono.nanos dur < 2 ^ 63 →
      chronoDurationFromStr chrono unicode (chronoDurationString chrono dur) = some (.ok dur) := by
    intro dur nonneg small
    obtain ⟨result,parsed,same⟩ := chronoDurationFromStr_reads chrono unicode
      (chronoDurationString_reads chrono unicode nonneg small) (by omega)
    rw [parsed,chrono.eq_of_nanos _ _ same]
  refine ⟨round,?_⟩
  intro dur small
  obtain ⟨made,from_std⟩ :=
    Option.isSome_iff_exists.mp ((chrono.fromStd_isSome dur).mpr (by omega))
  have length := chrono.nanos_fromStd dur made from_std
  obtain ⟨back,to_std⟩ :=
    Option.isSome_iff_exists.mp ((chrono.toStd_isSome made (by omega)).mpr (by omega))
  have same : back = dur := by
    have nanos := chrono.nanos_toStd made back to_std
    ext
    omega
  rw [durationString,from_std,Option.map_some,Option.bind_some,durationFromStr,
    round made (by omega) (by omega),Option.map_some,Except.bind,to_std,same]

theorem text_round_trips_in_every_unit :
    (durationString ChronoModel.duration ⟨694861001001001,by decide⟩).bind
      (durationFromStr ChronoModel.duration asciiLowercase) =
        some (.ok ⟨694861001001001,by decide⟩) :=
  (text_round_trips ChronoModel.duration asciiLowercase).2 ⟨694861001001001,by decide⟩ (by decide)

end RoundTrip

end Rinklers
