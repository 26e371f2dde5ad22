import Rinklers.Chrono

/-! `util.rs`: how long a runner waits, and the text of a duration in logs and responses. -/
namespace Rinklers

inductive WaitPeriod
  | wait
  | atMost (dur : Duration)
  | none
deriving DecidableEq, Repr

namespace WaitPeriod

def cmp : WaitPeriod → WaitPeriod → Ordering
  | .wait, .wait | .none, .none => .eq
  | .wait, _ | _, .none => .gt
  | _, .wait | .none, _ => .lt
  | .atMost dur1, .atMost dur2 => compare dur1.nanos dur2.nanos

def min (a b : WaitPeriod) : WaitPeriod := if a.cmp b = .gt then b else a

/-- Whether `wait_condvar` waits on the condition variable or only takes the lock. -/
def sleeps : WaitPeriod → Bool
  | .wait | .atMost _ => true
  | .none => false

end WaitPeriod

inductive LogLevelFilter
  | off | error | warn | info | debug | trace
deriving DecidableEq, Repr

namespace LogLevelFilter

def debugs : LogLevelFilter → Bool
  | .debug | .trace => true
  | _ => false

def traces : LogLevelFilter → Bool
  | .trace => true
  | _ => false

end LogLevelFilter

/-- The filter that `init_log` sets for the program where `RUST_LOG` does not override it. -/
def initLog : LogLevelFilter := .debug

section Text
variable (chrono : CDuration)

def pushUnit (s : String) (n : Int) (unit : String) : String :=
  if n > 0 then s ++ (toString n ++ unit) else s

def chronoDurationString (dur : chrono.Carrier) : String :=
  if chrono.isZero dur then "0" else
  let (dur, neg) :=
    if chrono.lt dur chrono.zero then (chrono.neg dur, true) else (dur, false)
  let weeks := chrono.numWeeks dur
  let days := (chrono.numDays dur).tmod 7
  let hours := (chrono.numHours dur).tmod 24
  let minutes := (chrono.numMinutes dur).tmod 60
  let secs := (chrono.numSeconds dur).tmod 60
  let millis := (chrono.numMilliseconds dur).tmod 1000
  let micros := chrono.numMicroseconds dur
  let nanos := chrono.numNanoseconds dur
  let s := if neg then "-" else ""
  let s := pushUnit s weeks "w"
  let s := pushUnit s days "d"
  let s := pushUnit s hours "h"
  let s := pushUnit s minutes "m"
  let s := pushUnit s secs "s"
  let s := pushUnit s millis "ms"
  let s := match micros with
    | some micros => pushUnit s (micros.tmod 1000) "us"
    | none => s
  match nanos with
  | some nanos => pushUnit s (nanos.tmod 1000) "ns"
  | none => s

/-- Gets a string representation of a `std::time::Duration`. The conversion to a
`chrono::Duration` is unwrapped: `none` is a panic. -/
def durationString (duration : Duration) : Option String :=
  (chrono.fromStd duration).map (chronoDurationString chrono)

def Printable (duration : Duration) : Prop := (duration.nanos : Int) ≤ CDuration.maxNanos

instance (duration : Duration) : Decidable (Printable duration) :=
  inferInstanceAs (Decidable ((duration.nanos : Int) ≤ CDuration.maxNanos))

theorem durationString_isSome (duration : Duration) :
    (durationString chrono duration).isSome = true ↔ Printable duration := by
  simp only [durationString,Option.isSome_map,chrono.fromStd_isSome,Printable]

theorem durationString_eq_none (duration : Duration) :
    durationString chrono duration = none ↔ ¬ Printable duration := by
  rw [← durationString_isSome chrono,Bool.not_eq_true,Option.isSome_eq_false_iff,
    Option.isNone_iff_eq_none]

end Text

inductive DurationFromStrError
  | durationToStd
  | unexpectedChar (c : Char)
deriving DecidableEq, Repr

def DurationFromStrError.display : DurationFromStrError → String
  | .durationToStd => "chrono::Duration out of range of std::time::Duration"
  | .unexpectedChar c => "expected number, whitespace or postfix. found " ++ toString c

def isWhitespace (c : Char) : Bool :=
  let code := c.toNat
  (9 ≤ code && code ≤ 13) || code == 32 || code == 0x85 || code == 0xA0 || code == 0x1680 ||
    (0x2000 ≤ code && code ≤ 0x200A) || code == 0x2028 || code == 0x2029 || code == 0x202F ||
    code == 0x205F || code == 0x3000

/-- `char::to_lowercase`, with what the Unicode tables say about the characters that matter. -/
structure Lowercase where
  lower : Char → List Char
  lower_ascii : ∀ c, c.toNat < 128 → lower c = [c.toLower]
  lower_foreign : ∀ c, 128 ≤ c.toNat → ∀ d ∈ lower c, d.toNat < 128 → d = 'i' ∨ d = 'k'
  lower_ne_nil : ∀ c, lower c ≠ []
  lower_whitespace : ∀ c, isWhitespace c = true → lower c = [c]
  whitespace_of_lower : ∀ c, ∀ d ∈ lower c, isWhitespace d = true → isWhitespace c = true

theorem toNat_toLower (c : Char) :
    c.toLower.toNat = if 65 ≤ c.toNat ∧ c.toNat ≤ 90 then c.toNat + 32 else c.toNat := by
  have upper : (c.val ≥ 'A'.val ∧ c.val ≤ 'Z'.val) ↔ 65 ≤ c.toNat ∧ c.toNat ≤ 90 := Iff.rfl
  unfold Char.toLower
  split
  · rename_i inside
    have range := upper.mp inside
    rw [if_pos range]
    change (c.val + ('a'.val - 'A'.val)).toNat = c.val.toNat + 32
    rw [UInt32.toNat_add]
    change 65 ≤ c.val.toNat ∧ c.val.toNat ≤ 90 at range
    have shift : ('a'.val - 'A'.val).toNat = 32 := by decide
    rw [shift]
    omega
  · rename_i outside
    rw [if_neg (mt upper.mpr outside)]

theorem toLower_eq {c : Char} (other : ¬(65 ≤ c.toNat ∧ c.toNat ≤ 90)) : c.toLower = c := by
  have value := toNat_toLower c
  rw [if_neg other] at value
  exact Char.toNat_inj.mp value

def asciiLowercase : Lowercase where
  lower c := [c.toLower]
  lower_ascii _ _ := rfl
  lower_foreign c foreign d member small := by
    rw [List.mem_singleton.mp member,toNat_toLower] at small
    split at small <;> omega
  lower_ne_nil _ := List.cons_ne_nil _ _
  lower_whitespace c space := by
    have other : ¬(65 ≤ c.toNat ∧ c.toNat ≤ 90) := by
      simp only [isWhitespace,Bool.or_eq_true,Bool.and_eq_true,decide_eq_true_eq,beq_iff_eq]
        at space
      omega
    rw [toLower_eq other]
  whitespace_of_lower c d member space := by
    rw [List.mem_singleton.mp member] at space
    by_cases upper : 65 ≤ c.toNat ∧ c.toNat ≤ 90
    · simp only [isWhitespace,Bool.or_eq_true,Bool.and_eq_true,decide_eq_true_eq,beq_iff_eq,
        toNat_toLower,if_pos upper] at space
      omega
    · rwa [toLower_eq upper] at space

def toDigit (c : Char) : Option Int :=
  if '0' ≤ c ∧ c ≤ '9' then some (c.toNat - '0'.toNat : Nat) else none

section Parse
variable (chrono : CDuration) (unicode : Lowercase)

/-- The duration that a unit adds; what it cannot be is `none`, and `some none` is a panic. -/
def unitDuration (num : Int) : Char → Option Char → Option (Option chrono.Carrier)
  | 'w', _ => some (chrono.weeks num)
  | 'd', _ => some (chrono.days num)
  | 'h', _ => some (chrono.hours num)
  | 's', _ => some (chrono.seconds num)
  | 'm', some 's' => some (some (chrono.milliseconds num))
  | 'm', _ => some (chrono.minutes num)
  | 'u', some 's' => some (some (chrono.microseconds num))
  | 'n', some 's' => some (some (chrono.nanoseconds num))
  | _, _ => none

/-- The loop over the lowercase characters. A panic, also of `i64` arithmetic, is `none`. -/
def durationLoop : List Char → chrono.Carrier → Int →
    Option (Except DurationFromStrError chrono.Carrier)
  | [], dur, _ => some (.ok dur)
  | c::rest, dur, num =>
    if isWhitespace c then durationLoop rest dur num else
    match toDigit c with
    | some digit =>
      if num * 10 + digit < 2 ^ 63 then durationLoop rest dur (num * 10 + digit) else none
    | none =>
      match unitDuration chrono num c rest.head? with
      | some (some part) => durationLoop rest (chrono.add dur part) 0
      | some none => none
      | none => some (.error (.unexpectedChar c))

def chronoDurationFromStr (s : String) : Option (Except DurationFromStrError chrono.Carrier) :=
  durationLoop chrono (s.toList.flatMap unicode.lower) chrono.zero 0

def durationFromStr (s : String) : Option (Except DurationFromStrError Duration) :=
  (chronoDurationFromStr chrono unicode s).map (fun result => result.bind (fun dur =>
    match chrono.toStd dur with
    | some dur => .ok dur
    | none => .error .durationToStd))

end Parse

end Rinklers
