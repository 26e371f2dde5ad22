import Rinklers.DurationText

/-! What is read back from the text of any duration. The printer counts in `i64`: of a duration
that is too long for a count of nanoseconds, or of microseconds, it leaves the smallest units out;
and the parser knows no sign. -/
namespace Rinklers

/-- What the text of a length says of it. -/
def shown (nanos : Int) : Int := nanos / (precision nanos).nanos * (precision nanos).nanos

theorem precision_cases (nanos : Int) :
    (precision nanos = .nanoseconds ∧ nanos < 2 ^ 63) ∨
      (precision nanos = .microseconds ∧ ¬ nanos < 2 ^ 63 ∧ nanos / 1000 < 2 ^ 63) ∨
      (precision nanos = .milliseconds ∧ ¬ nanos < 2 ^ 63 ∧ ¬ nanos / 1000 < 2 ^ 63) := by
  unfold precision
  by_cases large : nanos < 2 ^ 63
  · exact .inl ⟨if_pos large,large⟩
  · by_cases larger : nanos / 1000 < 2 ^ 63
    · exact .inr (.inl ⟨by rw [if_neg large,if_pos larger],large,larger⟩)
    · exact .inr (.inr ⟨by rw [if_neg large,if_neg larger],large,larger⟩)

/-- Less than a millisecond is lost, and nothing of what fits a count of nanoseconds. -/
theorem shown_near (nanos : Int) :
    shown nanos ≤ nanos ∧ nanos - shown nanos < 1000000 ∧ (nanos < 2 ^ 63 → shown nanos = nanos) := by
  unfold shown
  rcases precision_cases nanos with ⟨unit,small⟩ | ⟨unit,large,small⟩ | ⟨unit,large,larger⟩ <;>
    rw [unit,DurationUnit.nanos] <;> omega

theorem parts_sum (nanos : Int) : ((parts nanos).map Part.nanos).sum = shown nanos := by
  have all (count : Nat) : (((amounts nanos).take count).map Part.nanos).sum +
      (((amounts nanos).drop count).map Part.nanos).sum = nanos := by
    rw [← List.sum_append,← List.map_append,List.take_append_drop,amounts_sum]
  unfold shown
  rcases precision_cases nanos with ⟨unit,small⟩ | ⟨unit,large,small⟩ | ⟨unit,large,larger⟩
  · rw [parts_nanoseconds small,amounts_sum,unit,DurationUnit.nanos]
    omega
  · have rest : (((amounts nanos).drop 7).map Part.nanos).sum = nanos / 1 % 1000 * 1 :=
      add_zero _
    have sum := all 7
    rw [parts_microseconds large small,unit,DurationUnit.nanos]
    omega
  · have rest : (((amounts nanos).drop 6).map Part.nanos).sum =
        nanos / 1000 % 1000 * 1000 + nanos / 1 % 1000 * 1 := congrArg _ (add_zero _)
    have sum := all 6
    rw [parts_milliseconds large larger,unit,DurationUnit.nanos]
    omega

theorem parts_bounds {nanos : Int} (nonneg : 0 ≤ nanos) (printable : nanos ≤ CDuration.maxNanos) :
    ∀ part ∈ parts nanos,
      0 ≤ part.num ∧ part.num < 2 ^ 63 ∧ part.nanos ≤ CDuration.maxNanos := by
  intro part member
  obtain ⟨listed,coarse⟩ := List.mem_filter.mp member
  have coarse : (precision nanos).nanos ≤ part.unit.nanos := of_decide_eq_true coarse
  have least := amounts_nonneg nonneg part listed
  have most := amounts_le nonneg part listed
  -- The count of the smallest unit written is an `i64`, and no other count exceeds it.
  have count : part.num * (precision nanos).nanos ≤ nanos :=
    (mul_le_mul_of_nonneg_left coarse least).trans most
  have bound : CDuration.maxNanos = (2 ^ 63 - 1) * 1000000 := rfl
  refine ⟨least,?_,most.trans printable⟩
  rcases precision_cases nanos with ⟨unit,small⟩ | ⟨unit,_,small⟩ | ⟨unit,_,_⟩ <;>
    rw [unit,DurationUnit.nanos] at count <;> omega

section ReadBack
variable (chrono : CDuration) (unicode : Lowercase)

theorem chronoDurationString_shown {dur : chrono.Carrier} (nonneg : 0 ≤ chrono.nanos dur)
    (printable : chrono.nanos dur ≤ CDuration.maxNanos) :
    Reads ((chronoDurationString chrono dur).toList.flatMap unicode.lower)
      (shown (chrono.nanos dur)) := by
  rcases nonneg.lt_or_eq with positive | zero
  · have reads := reads_parts _ (parts_bounds nonneg printable)
    rw [parts_sum] at reads
    rwa [chronoDurationString_parts chrono positive printable,lower_parts]
  · have reads := chronoDurationString_reads chrono unicode nonneg (by omega)
    rwa [(shown_near _).2.2 (by omega)]

/-- What is written after a sign leaves it in front. -/
def Signed (s : String) : Prop := ∃ rest, s.toList = '-'::rest

theorem signed_push {s : String} (signed : Signed s) (n : Int) (unit : String) :
    Signed (pushUnit s n unit) := by
  obtain ⟨rest,first⟩ := signed
  unfold pushUnit
  split
  · rw [Signed,String.toList_append,first]
    exact ⟨_,rfl⟩
  · exact ⟨rest,first⟩

theorem chronoDurationString_signed {dur : chrono.Carrier} (negative : chrono.nanos dur < 0) :
    Signed (chronoDurationString chrono dur) := by
  have other : chrono.isZero dur = false := by
    rw [← Bool.not_eq_true,chrono.isZero_iff]
    exact negative.ne
  have sign : chrono.lt dur chrono.zero = true := by
    rw [chrono.lt_iff,chrono.nanos_zero]
    exact negative
  rw [chronoDurationString,other,if_neg Bool.false_ne_true,sign,if_pos rfl]
  dsimp only
  have start : Signed "-" := ⟨[],rfl⟩
  cases chrono.numMicroseconds (chrono.neg dur) <;> cases chrono.numNanoseconds (chrono.neg dur) <;>
    apply_rules [signed_push]

/-- The parser stops at the sign. -/
theorem chronoDurationFromStr_signed {s : String} (signed : Signed s) :
    chronoDurationFromStr chrono unicode s = some (.error (.unexpectedChar '-')) := by
  obtain ⟨rest,first⟩ := signed
  have lower : unicode.lower '-' = ['-'] := lower_eq unicode (by decide) (by decide)
  rw [chronoDurationFromStr,first,List.flatMap_cons,lower]
  exact durationLoop_unexpected chrono (by decide) chrono.zero rfl

theorem durationFromStr_ok {s : String} {dur : chrono.Carrier} {back : Duration}
    (parsed : chronoDurationFromStr chrono unicode s = some (.ok dur))
    (converted : chrono.toStd dur = some back) :
    durationFromStr chrono unicode s = some (.ok back) := by
  rw [durationFromStr,parsed,Option.map_some,Except.bind,converted]

/-- The text of a duration that is not negative is read back as far as it goes, and that of a
negative one is rejected at its sign; all that `duration_string` returns can be read back. The
shortest duration is left out, as its opposite has no count of milliseconds. -/
theorem text_read_back :
    (∀ dur, 0 ≤ chrono.nanos dur → chrono.nanos dur ≤ CDuration.maxNanos →
      ∃ back, chronoDurationFromStr chrono unicode (chronoDurationString chrono dur) =
          some (.ok back) ∧ chrono.nanos back = shown (chrono.nanos dur)) ∧
    (∀ dur, CDuration.minNanos < chrono.nanos dur → chrono.nanos dur < 0 →
      chronoDurationFromStr chrono unicode (chronoDurationString chrono dur) =
        some (.error (.unexpectedChar '-'))) ∧
    ∀ (dur : Duration) text, durationString chrono dur = some text →
      ∃ back, durationFromStr chrono unicode text = some (.ok back) ∧
        (back.nanos : Int) = shown dur.nanos := by
  have round : ∀ dur, 0 ≤ chrono.nanos dur → chrono.nanos dur ≤ CDuration.maxNanos →
      ∃ back, chronoDurationFromStr chrono unicode (chronoDurationString chrono dur) =
          some (.ok back) ∧ chrono.nanos back = shown (chrono.nanos dur) := by
    intro dur nonneg printable
    have less := (shown_near (chrono.nanos dur)).1
    exact chronoDurationFromStr_reads chrono unicode
      (chronoDurationString_shown chrono unicode nonneg printable) (less.trans printable)
  refine ⟨round,?_,?_⟩
  · intro dur _ negative
    exact chronoDurationFromStr_signed chrono unicode (chronoDurationString_signed chrono negative)
  · intro dur text printed
    obtain ⟨made,from_std,rfl⟩ := Option.map_eq_some_iff.mp printed
    have length := chrono.nanos_fromStd dur made from_std
    have printable := (chrono.fromStd_isSome dur).mp (by rw [from_std]; rfl)
    obtain ⟨parsed,same,value⟩ := round made (by omega) (by omega)
    rw [length] at value
    have less := (shown_near (dur.nanos : Int)).1
    have nonneg : 0 ≤ shown dur.nanos :=
      Int.mul_nonneg (Int.ediv_nonneg (by omega) (DurationUnit.nanos_pos _).le)
        (DurationUnit.nanos_pos _).le
    obtain ⟨back,to_std⟩ :=
      Option.isSome_iff_exists.mp ((chrono.toStd_isSome parsed (by omega)).mpr (by omega))
    refine ⟨back,durationFromStr_ok chrono unicode same to_std,?_⟩
    rw [chrono.nanos_toStd parsed back to_std,value]

/-- A nanosecond more than an `i64` of them: it and 807 others are not in the text. -/
theorem text_read_back_too_long : ∃ text back,
    durationString ChronoModel.duration ⟨9223372036854775808,by decide⟩ = some text ∧
      durationFromStr ChronoModel.duration asciiLowercase text = some (.ok back) ∧
      (back.nanos : Int) = 9223372036854775000 := by
  obtain ⟨text,printed⟩ := Option.isSome_iff_exists.mp ((durationString_isSome ChronoModel.duration
    ⟨9223372036854775808,by decide⟩).mpr (by decide))
  obtain ⟨back,parsed,value⟩ :=
    (text_read_back ChronoModel.duration asciiLowercase).2.2 _ text printed
  exact ⟨text,back,printed,parsed,value.trans (by decide)⟩

end ReadBack
end Rinklers
