import Rinklers.Schedule
import Rinklers.Util
import Rinklers.Foundation.Format

/-! `config.rs`: the configuration and how it is written to and read from a document. The formats
are those that serde derives, field by field. What serde and chrono do with dates, times and
weekdays is a parameter, as is the order in which a new hash set iterates. -/
namespace Rinklers
open Foundation

/-- An index on the 64-bit machines that the program is for. -/
abbrev Usize := Fin (2 ^ 64)

structure SectionConfig where
  name : String
deriving DecidableEq

structure ProgItemConfig where
  sectionIndex : Usize
  duration : Duration
deriving DecidableEq

structure ProgramConfig where
  name : String
  sequence : List ProgItemConfig
  schedule : Schedule
deriving DecidableEq

structure Config where
  sections : List SectionConfig
  programs : List ProgramConfig
deriving DecidableEq

/-- The formats of chrono's types, and the iteration order of a hash set made from a list. -/
structure Serde where
  time : Lossless NaiveTime
  weekday : Lossless Weekday
  dateTime : Lossless Int
  order : List Weekday → List Weekday
  order_perm : ∀ weekdays, (order weekdays).Perm weekdays

section Formats
variable (chrono : CDuration) (unicode : Lowercase) (serde : Serde)

def serializeDuration (duration : Duration) : Value :=
  .map [("secs",.number duration.asSecs),("nanos",.number duration.subsecNanos)]

def deserializeDuration (value : Value) : Except Failure Duration := do
  let s ← Format.string.read value
  match durationFromStr chrono unicode s with
  | some (.ok duration) => .ok duration
  | some (.error err) => .error (.custom err.display)
  | none => .error .panic

def usize : Lossless Usize := Format.number (2 ^ 64)

def timeSet : Format TimeSet where
  write times := serde.time.seq.write times.val
  read value := return TimeSet.fromIter (← serde.time.seq.read value)

def weekdaySet : Format WeekdaySet where
  write weekdays := serde.weekday.seq.write weekdays.val
  read value := do
    let weekdays ← serde.weekday.seq.read value
    return ⟨serde.order weekdays.dedup,(serde.order_perm _).nodup_iff.mpr weekdays.nodup_dedup⟩

def dateTimeBound : Format DateTimeBound where
  write
    | .none => .string "None"
    | .yearly dateTime => .map [("Yearly",serde.dateTime.write dateTime)]
    | .definite dateTime => .map [("Definite",serde.dateTime.write dateTime)]
  read
    | .string "None" => .ok .none
    | .map [("Yearly",value)] => return .yearly (← serde.dateTime.read value)
    | .map [("Definite",value)] => return .definite (← serde.dateTime.read value)
    | _ => .error .unknownVariant

def schedule : Format Schedule where
  write s := .map [("times",(timeSet serde).write s.times),
    ("weekdays",(weekdaySet serde).write s.weekdays),
    ("from",(dateTimeBound serde).write s.fromBound),
    ("to",(dateTimeBound serde).write s.toBound)]
  read value := do
    let entries ← value.fields ["times","weekdays","from","to"]
    let times ← readField entries "times" (timeSet serde).read none
    let weekdays ← readField entries "weekdays" (weekdaySet serde).read none
    let fromBound ← readField entries "from" (dateTimeBound serde).read (some .none)
    let toBound ← readField entries "to" (dateTimeBound serde).read (some .none)
    return ⟨times,weekdays,fromBound,toBound⟩

def sectionConfig : Format SectionConfig where
  write config := .map [("name",Format.string.write config.name)]
  read value := do
    let entries ← value.fields ["name"]
    return ⟨← readField entries "name" Format.string.read none⟩

/-- The duration is written in its default form and read with `deserialize_duration`. -/
def progItemConfig : Format ProgItemConfig where
  write config := .map [("section",usize.write config.sectionIndex),
    ("duration",serializeDuration config.duration)]
  read value := do
    let entries ← value.fields ["section","duration"]
    let sectionIndex ← readField entries "section" usize.read none
    let duration ← readField entries "duration" (deserializeDuration chrono unicode) none
    return ⟨sectionIndex,duration⟩

def programConfig : Format ProgramConfig where
  write config := .map [("name",Format.string.write config.name),
    ("sequence",(Format.seq (progItemConfig chrono unicode)).write config.sequence),
    ("schedule",(schedule serde).write config.schedule)]
  read value := do
    let entries ← value.fields ["name","sequence","schedule"]
    let name ← readField entries "name" Format.string.read none
    let sequence ←
      readField entries "sequence" (Format.seq (progItemConfig chrono unicode)).read none
    let schedule ← readField entries "schedule" (schedule serde).read none
    return ⟨name,sequence,schedule⟩

def config : Format Config where
  write config := .map [("sections",(Format.seq sectionConfig).write config.sections),
    ("programs",(Format.seq (programConfig chrono unicode serde)).write config.programs)]
  read value := do
    let entries ← value.fields ["sections","programs"]
    let sections ← readField entries "sections" (Format.seq sectionConfig).read none
    let programs ←
      readField entries "programs" (Format.seq (programConfig chrono unicode serde)).read none
    return ⟨sections,programs⟩

end Formats

/-- Equality of schedules: the order of the weekdays does not matter. -/
def Schedule.Same (s t : Schedule) : Prop :=
  s.times = t.times ∧ s.weekdays.val.Perm t.weekdays.val ∧
    s.fromBound = t.fromBound ∧ s.toBound = t.toBound

def ProgramConfig.Same (p q : ProgramConfig) : Prop :=
  p.name = q.name ∧ p.sequence = q.sequence ∧ p.schedule.Same q.schedule

def Config.Same (c d : Config) : Prop :=
  c.sections = d.sections ∧ List.Forall₂ ProgramConfig.Same c.programs d.programs

section RoundTrip
variable (chrono : CDuration) (unicode : Lowercase) (serde : Serde)

theorem timeSet_read_write (times : TimeSet) :
    (timeSet serde).read ((timeSet serde).write times) = .ok times := by
  have distinct : times.val.Nodup := times.property.imp ne_of_lt
  have sorted : TimeSet.fromIter times.val = times := by
    apply Subtype.ext
    apply (List.toFinset_sort (· ≤ ·) distinct).mpr
    exact times.property.imp le_of_lt
  simp only [timeSet,serde.time.seq.read_write]
  change Except.ok (TimeSet.fromIter times.val) = _
  rw [sorted]

theorem weekdaySet_read_write (weekdays : WeekdaySet) :
    ∃ result, (weekdaySet serde).read ((weekdaySet serde).write weekdays) = .ok result ∧
      weekdays.val.Perm result.val := by
  simp only [weekdaySet,serde.weekday.seq.read_write]
  refine ⟨_,rfl,?_⟩
  have shuffled : weekdays.val.Perm (serde.order weekdays.val.dedup) := by
    rw [weekdays.property.dedup]
    exact (serde.order_perm weekdays.val).symm
  exact shuffled

theorem dateTimeBound_read_write (bound : DateTimeBound) :
    (dateTimeBound serde).read ((dateTimeBound serde).write bound) = .ok bound := by
  cases bound with
  | none => rfl
  | yearly dateTime | definite dateTime =>
    simp only [dateTimeBound,serde.dateTime.read_write]
    rfl

theorem schedule_fields (s : Schedule) :
    (schedule serde).read ((schedule serde).write s) = (do
      let times ← (timeSet serde).read ((timeSet serde).write s.times)
      let weekdays ← (weekdaySet serde).read ((weekdaySet serde).write s.weekdays)
      let fromBound ← (dateTimeBound serde).read ((dateTimeBound serde).write s.fromBound)
      let toBound ← (dateTimeBound serde).read ((dateTimeBound serde).write s.toBound)
      return ⟨times,weekdays,fromBound,toBound⟩) := rfl

theorem schedule_roundTrips (s : Schedule) : (schedule serde).RoundTrips Schedule.Same s := by
  obtain ⟨weekdays,read,same⟩ := weekdaySet_read_write serde s.weekdays
  refine ⟨⟨s.times,weekdays,s.fromBound,s.toBound⟩,?_,rfl,same,rfl,rfl⟩
  rw [schedule_fields,timeSet_read_write,read,dateTimeBound_read_write,dateTimeBound_read_write]
  rfl

theorem sectionConfig_read_write (section_ : SectionConfig) :
    sectionConfig.read (sectionConfig.write section_) = .ok section_ := rfl

theorem progItemConfig_fields (item : ProgItemConfig) :
    (progItemConfig chrono unicode).read ((progItemConfig chrono unicode).write item) = (do
      let sectionIndex ← usize.read (usize.write item.sectionIndex)
      let duration ← deserializeDuration chrono unicode (serializeDuration item.duration)
      return ⟨sectionIndex,duration⟩) := rfl

theorem progItemConfig_unreadable (item : ProgItemConfig) :
    (progItemConfig chrono unicode).read ((progItemConfig chrono unicode).write item) =
      .error .invalidType := by
  rw [progItemConfig_fields,usize.read_write]
  rfl

theorem programConfig_fields (program : ProgramConfig) :
    (programConfig chrono unicode serde).read ((programConfig chrono unicode serde).write program) =
      (do
        let name ← Format.string.read (Format.string.write program.name)
        let sequence ← (Format.seq (progItemConfig chrono unicode)).read
          ((Format.seq (progItemConfig chrono unicode)).write program.sequence)
        let schedule ← (schedule serde).read ((schedule serde).write program.schedule)
        return ⟨name,sequence,schedule⟩) := rfl

theorem config_fields (c : Config) :
    (config chrono unicode serde).read ((config chrono unicode serde).write c) = (do
      let sections ← (Format.seq sectionConfig).read ((Format.seq sectionConfig).write c.sections)
      let programs ← (Format.seq (programConfig chrono unicode serde)).read
        ((Format.seq (programConfig chrono unicode serde)).write c.programs)
      return ⟨sections,programs⟩) := rfl

theorem programConfig_roundTrips (program : ProgramConfig) :
    (programConfig chrono unicode serde).RoundTrips ProgramConfig.Same program ↔
      program.sequence = [] := by
  unfold Format.RoundTrips
  rw [programConfig_fields]
  constructor
  · rintro ⟨result,read,_⟩
    simp only [except_bind_eq_ok] at read
    obtain ⟨_,_,sequence,items,_⟩ := read
    cases written : program.sequence with
    | nil => rfl
    | cons item rest =>
      rw [written,Format.seq_read_write] at items
      cases items with
      | cons head tail =>
        rw [progItemConfig_unreadable] at head
        cases head
  · intro empty
    obtain ⟨schedule,read,same⟩ := schedule_roundTrips serde program.schedule
    rw [empty,read]
    exact ⟨⟨program.name,[],schedule⟩,rfl,rfl,empty,same⟩

/-- A configuration survives being written and read exactly when no program has an item. -/
theorem config_roundTrips_exactly (c : Config) :
    (config chrono unicode serde).RoundTrips Config.Same c ↔
      ∀ program ∈ c.programs, program.sequence = [] := by
  have programs : (Format.seq (programConfig chrono unicode serde)).RoundTrips
      (List.Forall₂ ProgramConfig.Same) c.programs ↔
        ∀ program ∈ c.programs, program.sequence = [] := by
    simp only [Format.seq_roundTrips,programConfig_roundTrips]
  rw [← programs]
  obtain ⟨sections,read,same⟩ : (Format.seq sectionConfig).RoundTrips (List.Forall₂ (· = ·))
      c.sections := by
    rw [Format.seq_roundTrips]
    exact fun config _ => ⟨config,sectionConfig_read_write config,rfl⟩
  rw [List.forall₂_eq_eq_eq] at same
  unfold Format.RoundTrips
  rw [config_fields,read,← same]
  constructor
  · rintro ⟨result,made,_,alike⟩
    obtain ⟨_,first,rest⟩ := except_bind_eq_ok.mp made
    cases first
    obtain ⟨programs,found,last⟩ := except_bind_eq_ok.mp rest
    cases last
    exact ⟨programs,found,alike⟩
  · rintro ⟨programs,found,alike⟩
    refine ⟨⟨c.sections,programs⟩,?_,rfl,alike⟩
    exact except_bind_eq_ok.mpr ⟨_,rfl,except_bind_eq_ok.mpr ⟨programs,found,rfl⟩⟩

private def weekdayName : Weekday → String
  | .mon => "Mon"
  | .tue => "Tue"
  | .wed => "Wed"
  | .thu => "Thu"
  | .fri => "Fri"
  | .sat => "Sat"
  | .sun => "Sun"

private def namedWeekday (name : String) : Option Weekday :=
  [.mon,.tue,.wed,.thu,.fri,.sat,.sun].find? (fun weekday => weekdayName weekday == name)

def plainSerde : Serde where
  time := Format.number nanosPerDay
  weekday :=
    {write := fun weekday => .string (weekdayName weekday)
     read := fun value => do
      let name ← Format.string.read value
      match namedWeekday name with
      | some weekday => .ok weekday
      | none => .error .unknownVariant
     read_write := by intro weekday; cases weekday <;> rfl}
  dateTime :=
    {write := fun instant => .seq [.bool (0 ≤ instant),.number instant.natAbs]
     read := fun
      | .seq [.bool later,.number nanos] => .ok (if later then nanos else -nanos)
      | _ => .error .invalidType
     read_write := by
      intro instant
      apply congrArg Except.ok
      split <;> rename_i later <;> rw [decide_eq_true_eq] at later <;> omega}
  order := id
  order_perm := List.Perm.refl

private def twoSeconds : Duration := ⟨2 * nanosPerSec,by decide⟩

private def oneItem : Config :=
  ⟨[⟨"Garden"⟩],[⟨"Test Program 1",[⟨0,twoSeconds⟩],Schedule.new [] [] .none .none⟩]⟩

theorem one_item_unreadable :
    ¬(config ChronoModel.duration asciiLowercase plainSerde).RoundTrips Config.Same oneItem := by
  rintro ⟨result,read,_⟩
  have failed : (config ChronoModel.duration asciiLowercase plainSerde).read
      ((config ChronoModel.duration asciiLowercase plainSerde).write oneItem) =
        .error .invalidType := rfl
  rw [failed] at read
  cases read

end RoundTrip
end Rinklers
