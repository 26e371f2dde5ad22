import Rinklers.Config
import Rinklers.DurationItems
import Rinklers.DurationPrecision
import Rinklers.Foundation.Description

/-! The documents that people write by hand, as `config.json` is: durations are texts, the fields of
a struct stand in any order and among others (`pin`), bounds may be left out, and the times and the
weekdays of a schedule are listed in any order, some perhaps twice. -/
namespace Rinklers
open Foundation

section Documents
variable (serde : Serde)

def durationDocument : Description Duration := fun value duration =>
  ∃ (items : List Item) (after : List Char), (∀ c ∈ after, isWhitespace c = true) ∧
    (∀ item ∈ items, item.num < 2 ^ 63) ∧
    value = .string (String.ofList (items.flatMap Item.text ++ after)) ∧
    (items.map Item.nanos).sum = duration.nanos ∧ (duration.nanos : Int) ≤ CDuration.maxNanos

def timeSetDocument : Description TimeSet := fun value times =>
  ∃ listed, serde.time.accepts.list value listed ∧
    ∀ time, time ∈ times.val ↔ time ∈ listed

def weekdaySetDocument : Description WeekdaySet := fun value weekdays =>
  ∃ listed, serde.weekday.accepts.list value listed ∧
    ∀ weekday, weekday ∈ weekdays.val ↔ weekday ∈ listed

def dateTimeBoundDocument : Description DateTimeBound := fun value bound =>
  match bound with
  | .none => value = .string "None"
  | .yearly dateTime => ∃ content, value = .map [("Yearly",content)] ∧
      serde.dateTime.accepts content dateTime
  | .definite dateTime => ∃ content, value = .map [("Definite",content)] ∧
      serde.dateTime.accepts content dateTime

def scheduleDocument : Description Schedule := fun value s =>
  ∃ entries, Description.Struct ["times","weekdays","from","to"] value entries ∧
    (timeSetDocument serde).Field entries "times" s.times ∧
    (weekdaySetDocument serde).Field entries "weekdays" s.weekdays ∧
    (dateTimeBoundDocument serde).Optional .none entries "from" s.fromBound ∧
    (dateTimeBoundDocument serde).Optional .none entries "to" s.toBound

def sectionDocument : Description SectionConfig := fun value config =>
  ∃ entries, Description.Struct ["name"] value entries ∧
    Description.Field (fun value name => value = .string name) entries "name" config.name

def progItemDocument : Description ProgItemConfig := fun value item =>
  ∃ entries, Description.Struct ["section","duration"] value entries ∧
    Description.Field (fun value (index : Usize) => value = .number index) entries "section"
      item.sectionIndex ∧
    durationDocument.Field entries "duration" item.duration

def programDocument : Description ProgramConfig := fun value program =>
  ∃ entries, Description.Struct ["name","sequence","schedule"] value entries ∧
    Description.Field (fun value name => value = .string name) entries "name" program.name ∧
    (Description.list progItemDocument).Field entries "sequence" program.sequence ∧
    (scheduleDocument serde).Field entries "schedule" program.schedule

def configDocument : Description Config := fun value c =>
  ∃ entries, Description.Struct ["sections","programs"] value entries ∧
    (Description.list sectionDocument).Field entries "sections" c.sections ∧
    (Description.list (programDocument serde)).Field entries "programs" c.programs

end Documents

section Read
variable (chrono : CDuration) (unicode : Lowercase) (serde : Serde)

theorem duration_understood :
    Understands (deserializeDuration chrono unicode) (· = ·) durationDocument := by
  rintro _ duration ⟨items,after,spaces,numerals,rfl,sum,bounded⟩
  have reads := (reads_items unicode spaces numerals (sum.le.trans bounded)).1
  rw [sum,← String.toList_ofList (l := items.flatMap Item.text ++ after)] at reads
  obtain ⟨parsed,same,value⟩ := chronoDurationFromStr_reads chrono unicode reads bounded
  obtain ⟨back,to_std⟩ :=
    Option.isSome_iff_exists.mp ((chrono.toStd_isSome parsed (by omega)).mpr (by omega))
  have nanos := chrono.nanos_toStd parsed back to_std
  have equal : duration = back := by
    ext
    omega
  refine ⟨back,?_,equal⟩
  exact except_bind_eq_ok.mpr
    ⟨_,rfl,by rw [durationFromStr_ok chrono unicode same to_std]⟩

theorem timeSet_understood : Understands (timeSet serde).read (· = ·) (timeSetDocument serde) := by
  rintro value times ⟨listed,described,members⟩
  refine ⟨TimeSet.fromIter listed,?_,?_⟩
  · simp only [timeSet,serde.time.list_read described]
    rfl
  · have distinct : times.val.Nodup := times.property.imp ne_of_lt
    have finset : listed.toFinset = times.val.toFinset := by
      ext time
      rw [List.mem_toFinset,List.mem_toFinset,members]
    apply Subtype.ext
    symm
    change listed.toFinset.sort = times.val
    rw [finset]
    exact (List.toFinset_sort (· ≤ ·) distinct).mpr (times.property.imp le_of_lt)

theorem weekdaySet_understood : Understands (weekdaySet serde).read
    (fun weekdays back => weekdays.val.Perm back.val) (weekdaySetDocument serde) := by
  rintro value weekdays ⟨listed,described,members⟩
  have shuffled : weekdays.val.Perm (serde.order listed.dedup) := by
    apply List.Perm.trans _ (serde.order_perm _).symm
    rw [List.perm_ext_iff_of_nodup weekdays.property listed.nodup_dedup]
    intro weekday
    rw [List.mem_dedup,members]
  refine ⟨⟨serde.order listed.dedup,(serde.order_perm _).nodup_iff.mpr listed.nodup_dedup⟩,?_,
    shuffled⟩
  simp only [weekdaySet,serde.weekday.list_read described]
  rfl

theorem dateTimeBound_understood :
    Understands (dateTimeBound serde).read (· = ·) (dateTimeBoundDocument serde) := by
  intro value bound described
  refine ⟨bound,?_,rfl⟩
  cases bound with
  | none =>
    obtain rfl := described
    rfl
  | yearly dateTime | definite dateTime =>
    obtain ⟨content,rfl,read⟩ := described
    rw [Format.accepts] at read
    simp only [dateTimeBound,read]
    rfl

theorem schedule_understood :
    Understands (schedule serde).read Schedule.Same (scheduleDocument serde) := by
  rintro value s ⟨entries,struct,timesField,weekdaysField,fromField,toField⟩
  obtain ⟨times,read_times,same_times⟩ :=
    (timeSet_understood serde).field struct (by simp) timesField none
  obtain ⟨weekdays,read_weekdays,same_weekdays⟩ :=
    (weekdaySet_understood serde).field struct (by simp) weekdaysField none
  obtain ⟨fromBound,read_from,same_from⟩ :=
    (dateTimeBound_understood serde).optional struct (by simp) rfl fromField
  obtain ⟨toBound,read_to,same_to⟩ :=
    (dateTimeBound_understood serde).optional struct (by simp) rfl toField
  refine ⟨⟨times,weekdays,fromBound,toBound⟩,?_,same_times,same_weekdays,same_from,same_to⟩
  simp only [schedule,fields_struct struct,except_bind_eq_ok]
  exact ⟨entries,rfl,times,read_times,weekdays,read_weekdays,fromBound,read_from,
    toBound,read_to,rfl⟩

theorem string_understood : Understands Format.string.read (· = ·)
    (fun value (name : String) => value = .string name) := by
  rintro _ name rfl
  exact ⟨name,rfl,rfl⟩

theorem usize_understood : Understands usize.read (· = ·)
    (fun value (index : Usize) => value = .number index) := by
  rintro _ index rfl
  exact ⟨index,usize.read_write index,rfl⟩

theorem section_understood : Understands sectionConfig.read (· = ·) sectionDocument := by
  rintro value section_ ⟨entries,struct,nameField⟩
  obtain ⟨name,read_name,rfl⟩ := string_understood.field struct (by simp) nameField none
  refine ⟨section_,?_,rfl⟩
  simp only [sectionConfig,fields_struct struct,except_bind_eq_ok]
  exact ⟨entries,rfl,_,read_name,rfl⟩

theorem progItem_understood :
    Understands (progItemConfig chrono unicode).read (· = ·) progItemDocument := by
  rintro value item ⟨entries,struct,sectionField,durationField⟩
  obtain ⟨index,read_index,rfl⟩ := usize_understood.field struct (by simp) sectionField none
  obtain ⟨duration,read_duration,rfl⟩ :=
    (duration_understood chrono unicode).field struct (by simp) durationField none
  refine ⟨item,?_,rfl⟩
  simp only [progItemConfig,fields_struct struct,except_bind_eq_ok]
  exact ⟨entries,rfl,_,read_index,_,read_duration,rfl⟩

theorem program_understood : Understands (programConfig chrono unicode serde).read
    ProgramConfig.Same (programDocument serde) := by
  rintro value program ⟨entries,struct,nameField,sequenceField,scheduleField⟩
  obtain ⟨name,read_name,same_name⟩ := string_understood.field struct (by simp) nameField none
  obtain ⟨sequence,read_sequence,same_sequence⟩ :=
    (progItem_understood chrono unicode).list.field struct (by simp) sequenceField none
  obtain ⟨schedule,read_schedule,same_schedule⟩ :=
    (schedule_understood serde).field struct (by simp) scheduleField none
  rw [List.forall₂_eq_eq_eq] at same_sequence
  refine ⟨⟨name,sequence,schedule⟩,?_,same_name,same_sequence,same_schedule⟩
  simp only [programConfig,fields_struct struct,except_bind_eq_ok]
  exact ⟨entries,rfl,name,read_name,sequence,read_sequence,schedule,read_schedule,rfl⟩

theorem config_understood :
    Understands (config chrono unicode serde).read Config.Same (configDocument serde) := by
  rintro value c ⟨entries,struct,sectionsField,programsField⟩
  obtain ⟨sections,read_sections,same_sections⟩ :=
    section_understood.list.field struct (by simp) sectionsField none
  obtain ⟨programs,read_programs,same_programs⟩ :=
    (program_understood chrono unicode serde).list.field struct (by simp) programsField none
  rw [List.forall₂_eq_eq_eq] at same_sections
  refine ⟨⟨sections,programs⟩,?_,same_sections,same_programs⟩
  simp only [config,fields_struct struct,except_bind_eq_ok]
  exact ⟨entries,rfl,sections,read_sections,programs,read_programs,rfl⟩

end Read

section Written
variable (serde : Serde)

theorem DurationUnit.lower_text (unit : DurationUnit) :
    unit.text.map Char.toLower = unit.text := by
  cases unit <;> rfl

theorem toDigits_numeral (n : Nat) : ∀ c ∈ Nat.toDigits 10 n, c.isDigit = true := by
  intro c member
  exact Nat.isDigit_of_mem_toDigits (by decide) (by decide) member

/-- A number and its unit, as short as they can be written. -/
def Item.plain (n : Nat) (unit : DurationUnit) : Item where
  before := []
  digits := Nat.toDigits 10 n
  between := []
  letters := unit.text
  unit := unit
  spaces := List.forall_mem_nil _
  nonempty := Nat.toDigits_ne_nil
  numeral := toDigits_numeral n
  named := unit.lower_text

theorem Item.num_plain (n : Nat) (unit : DurationUnit) : (Item.plain n unit).num = n :=
  congrArg Int.ofNat Nat.ofDigitChars_ten_toDigits

/-- Milliseconds and what is left of them reach as far as chrono does. -/
theorem duration_written (duration : Duration)
    (printable : (duration.nanos : Int) ≤ CDuration.maxNanos) :
    ∃ value, durationDocument value duration := by
  have bound : CDuration.maxNanos = (2 ^ 63 - 1) * 1000000 := rfl
  refine ⟨_,[.plain (duration.nanos / 1000000) .milliseconds,
    .plain (duration.nanos % 1000000) .nanoseconds],[],by simp,?_,rfl,?_,printable⟩
  · simp only [List.forall_mem_cons,Item.num_plain]
    exact ⟨by omega,by omega,by simp⟩
  · simp only [List.map_cons,List.map_nil,List.sum_cons,List.sum_nil,Item.nanos,Item.num_plain]
    change _ * 1000000 + (_ * 1 + 0) = _
    omega

theorem dateTimeBound_written (bound : DateTimeBound) :
    ∃ value, dateTimeBoundDocument serde value bound := by
  cases bound with
  | none => exact ⟨_,rfl⟩
  | yearly dateTime | definite dateTime => exact ⟨_,_,rfl,serde.dateTime.read_write dateTime⟩

theorem schedule_written (s : Schedule) : ∃ value, scheduleDocument serde value s := by
  obtain ⟨times,listed_times⟩ := serde.time.list_written s.times.val
  obtain ⟨weekdays,listed_weekdays⟩ := serde.weekday.list_written s.weekdays.val
  obtain ⟨fromBound,from_written⟩ := dateTimeBound_written serde s.fromBound
  obtain ⟨toBound,to_written⟩ := dateTimeBound_written serde s.toBound
  refine ⟨_,[("times",times),("weekdays",weekdays),("from",fromBound),("to",toBound)],
    struct_distinct (by simp),⟨times,by simp,_,listed_times,fun _ => Iff.rfl⟩,
    ⟨weekdays,by simp,_,listed_weekdays,fun _ => Iff.rfl⟩,.inl ⟨fromBound,by simp,from_written⟩,
    .inl ⟨toBound,by simp,to_written⟩⟩

theorem progItem_written (item : ProgItemConfig)
    (printable : (item.duration.nanos : Int) ≤ CDuration.maxNanos) :
    ∃ value, progItemDocument value item := by
  obtain ⟨duration,written⟩ := duration_written item.duration printable
  exact ⟨_,[("section",.number item.sectionIndex),("duration",duration)],
    struct_distinct (by simp),⟨_,by simp,rfl⟩,duration,by simp,written⟩

theorem program_written (program : ProgramConfig)
    (printable : ∀ item ∈ program.sequence, (item.duration.nanos : Int) ≤ CDuration.maxNanos) :
    ∃ value, programDocument serde value program := by
  obtain ⟨sequence,items⟩ :=
    Description.list_exists (fun item member => progItem_written item (printable item member))
  obtain ⟨schedule,written⟩ := schedule_written serde program.schedule
  exact ⟨_,[("name",.string program.name),("sequence",sequence),("schedule",schedule)],
    struct_distinct (by simp),⟨_,by simp,rfl⟩,⟨sequence,by simp,items⟩,schedule,by simp,written⟩

theorem section_written (section_ : SectionConfig) : ∃ value, sectionDocument value section_ :=
  ⟨_,[("name",.string section_.name)],struct_distinct (by simp),_,by simp,rfl⟩

theorem config_written (c : Config) (printable : ∀ program ∈ c.programs,
      ∀ item ∈ program.sequence, (item.duration.nanos : Int) ≤ CDuration.maxNanos) :
    ∃ value, configDocument serde value c := by
  obtain ⟨sections,listed_sections⟩ :=
    Description.list_exists (fun section_ (_ : section_ ∈ c.sections) => section_written section_)
  obtain ⟨programs,listed_programs⟩ := Description.list_exists (fun program member =>
    program_written serde program (printable program member))
  exact ⟨_,[("sections",sections),("programs",programs)],struct_distinct (by simp),
    ⟨sections,by simp,listed_sections⟩,programs,by simp,listed_programs⟩

variable (chrono : CDuration) (unicode : Lowercase)

/-- A document written by hand is read as what it stands for, and every configuration whose
durations chrono can represent has such a document. -/
theorem hand_written_read :
    (∀ value c, configDocument serde value c →
      ∃ back, (config chrono unicode serde).read value = .ok back ∧ c.Same back) ∧
    ∀ c : Config, (∀ program ∈ c.programs, ∀ item ∈ program.sequence,
        (item.duration.nanos : Int) ≤ CDuration.maxNanos) →
      ∃ value, configDocument serde value c :=
  ⟨config_understood chrono unicode serde,config_written serde⟩

private theorem forenoon : 34860 * nanosPerSec < nanosPerDay := by decide

private def nineFortyOne : NaiveTime := ⟨34860 * nanosPerSec,forenoon⟩

private def sectionJson (name : String) (pin : Nat) : Value :=
  .map [("name",.string name),("pin",.number pin)]

private def scheduleJson : Value :=
  .map [("times",.seq [plainSerde.time.write nineFortyOne]),("weekdays",.seq [.string "Mon"])]

/-- Parts of the repository's `config.json`. -/
private def configJson : Value :=
  .map [("sections",.seq [sectionJson "Back Yard Sauna" 25,sectionJson "Garden" 24]),
    ("programs",.seq [.map [("name",.string "Test Program 1"),
      ("sequence",.seq [.map [("section",.number 0),("duration",.string "2s")]]),
      ("schedule",scheduleJson)]])]

private theorem sectionJson_document (name : String) (pin : Nat) :
    sectionDocument (sectionJson name pin) ⟨name⟩ :=
  ⟨_,struct_distinct (by simp),_,by simp,rfl⟩

private theorem scheduleJson_document :
    scheduleDocument plainSerde scheduleJson (mondays .none .none) := by
  have times : timeSetDocument plainSerde (.seq [plainSerde.time.write nineFortyOne])
      (TimeSet.fromIter [nineFortyOne]) := by
    refine ⟨[nineFortyOne],⟨_,rfl,.cons (plainSerde.time.read_write _) .nil⟩,?_⟩
    intro time
    exact (Finset.mem_sort _).trans List.mem_toFinset
  have weekdays : weekdaySetDocument plainSerde (.seq [.string "Mon"])
      (WeekdaySet.fromIter [.mon]) :=
    ⟨[.mon],⟨_,rfl,.cons rfl .nil⟩,fun _ => List.mem_dedup⟩
  exact ⟨_,struct_distinct (by simp),⟨_,List.mem_cons_self,times⟩,
    ⟨_,List.mem_cons_of_mem _ List.mem_cons_self,weekdays⟩,
    .inr ⟨by simp,rfl⟩,.inr ⟨by simp,rfl⟩⟩

theorem config_json_read : ∃ back,
    (config ChronoModel.duration asciiLowercase plainSerde).read configJson = .ok back ∧
      Config.Same ⟨[⟨"Back Yard Sauna"⟩,⟨"Garden"⟩],[⟨"Test Program 1",
        [⟨0,⟨2 * nanosPerSec,by decide⟩⟩],mondays .none .none⟩]⟩ back := by
  have item : progItemDocument (.map [("section",.number 0),("duration",.string "2s")])
      ⟨0,⟨2 * nanosPerSec,by decide⟩⟩ :=
    ⟨_,struct_distinct (by simp),⟨_,List.mem_cons_self,rfl⟩,
      _,List.mem_cons_of_mem _ List.mem_cons_self,[.plain 2 .seconds],[],by simp,
      List.forall_mem_singleton.mpr (by decide),rfl,by decide,by decide⟩
  apply (hand_written_read plainSerde ChronoModel.duration asciiLowercase).1
  refine ⟨_,struct_distinct (by simp),⟨_,List.mem_cons_self,_,rfl,
    .cons (sectionJson_document _ _) (.cons (sectionJson_document _ _) .nil)⟩,
    _,List.mem_cons_of_mem _ List.mem_cons_self,_,rfl,.cons ?_ .nil⟩
  exact ⟨_,struct_distinct (by simp),⟨_,List.mem_cons_self,rfl⟩,
    ⟨_,List.mem_cons_of_mem _ List.mem_cons_self,_,rfl,.cons item .nil⟩,
    _,by simp,scheduleJson_document⟩

end Written
end Rinklers
