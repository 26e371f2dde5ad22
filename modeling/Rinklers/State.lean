import Rinklers.Config
import Rinklers.Program
import Rinklers.Foundation.Traverse

/-! What a configuration becomes: the conversions of `config.rs` and `State::from_config` of
`main.rs`. A reference to a section is the number of the section in the order in which they are
made, with its name, which never changes; what is in it is in the state of the runner. -/
namespace Rinklers
open Foundation

/-- An `Arc` to a `LogSection` around a `NoopSection`. -/
structure SectionRef where
  id : Nat
  name : String
deriving DecidableEq, Repr

def SectionConfig.toSection (config : SectionConfig) (id : Nat) : SectionRef := ⟨id,config.name⟩

def SectionConfig.fromSection (section_ : SectionRef) : SectionConfig := ⟨section_.name⟩

/-- A `Program` with all that is in it but the callback, which nobody sets. -/
structure ProgramRef extends Program SectionRef where
  name : String
  schedule : Schedule
deriving DecidableEq

inductive ConfigError
  | sectionOutOfRange (secIdx : Nat)
deriving DecidableEq, Repr

def ConfigError.display : ConfigError → String
  | .sectionOutOfRange secIdx => s!"Section index {secIdx} is out of range"

def ProgItemConfig.toProgItem (sections : List SectionRef) (config : ProgItemConfig) :
    Except ConfigError (ProgItem SectionRef) :=
  match sections[config.sectionIndex.val]? with
  | none => .error (.sectionOutOfRange config.sectionIndex.val)
  | some sec => .ok ⟨sec,config.duration⟩

def ProgramConfig.toProgram (sections : List SectionRef) (config : ProgramConfig) :
    Except ConfigError ProgramRef := do
  let sequence ← config.sequence.mapM (ProgItemConfig.toProgItem sections)
  return {sequence := sequence, name := config.name, schedule := config.schedule}

def Config.toSections (config : Config) : List SectionRef :=
  config.sections.mapIdx (fun id section_ => section_.toSection id)

def Config.toPrograms (config : Config) (sections : List SectionRef) :
    Except ConfigError (List ProgramRef) :=
  config.programs.mapM (ProgramConfig.toProgram sections)

/-- The global state, without the two runners, which are started empty. -/
structure AppState where
  sections : List SectionRef
  programs : List ProgramRef
deriving DecidableEq

def AppState.fromConfig (config : Config) : Except ConfigError AppState := do
  let sections := config.toSections
  let programs ← config.toPrograms sections
  return ⟨sections,programs⟩

section Sections
variable (config : Config)

theorem toSections_names : config.toSections.map SectionConfig.fromSection = config.sections := by
  apply List.ext_getElem
  · simp [Config.toSections]
  · intro i _ _
    simp [Config.toSections,SectionConfig.toSection,SectionConfig.fromSection]

theorem toSections_ids : config.toSections.map SectionRef.id = List.range config.sections.length := by
  apply List.ext_getElem
  · simp [Config.toSections]
  · intro i _ _
    simp [Config.toSections,SectionConfig.toSection]

theorem toSections_nodup : config.toSections.Nodup := by
  have distinct : (config.toSections.map SectionRef.id).Nodup := by
    rw [toSections_ids]
    exact List.nodup_range
  exact distinct.of_map _

end Sections

section Programs
variable (sections : List SectionRef)

def ProgItemConfig.Makes (item : ProgItemConfig) (made : ProgItem SectionRef) : Prop :=
  sections[item.sectionIndex.val]? = some made.sec ∧ made.duration = item.duration

/-- The program says what its configuration says, with the sections in the place of indices. -/
structure ProgramConfig.Makes (config : ProgramConfig) (program : ProgramRef) : Prop where
  name : program.name = config.name
  schedule : program.schedule = config.schedule
  sequence : List.Forall₂ (ProgItemConfig.Makes sections) config.sequence program.sequence

def ProgItemConfig.InRange (item : ProgItemConfig) : Prop := item.sectionIndex.val < sections.length

theorem toProgItem_ok {item : ProgItemConfig} {made : ProgItem SectionRef} :
    item.toProgItem sections = .ok made ↔ item.Makes sections made := by
  unfold ProgItemConfig.toProgItem ProgItemConfig.Makes
  cases sections[item.sectionIndex.val]? with
  | none => simp
  | some sec =>
    obtain ⟨made,duration⟩ := made
    simp [eq_comm]

theorem toProgItem_error {item : ProgItemConfig} {err : ConfigError} :
    item.toProgItem sections = .error err ↔
      ¬ item.InRange sections ∧ err = .sectionOutOfRange item.sectionIndex.val := by
  unfold ProgItemConfig.toProgItem ProgItemConfig.InRange
  cases found : sections[item.sectionIndex.val]? with
  | none =>
    rw [List.getElem?_eq_none_iff] at found
    simp [found,eq_comm]
  | some sec =>
    have inside := (List.getElem?_eq_some_iff.mp found).1
    simp [inside]

theorem toProgItem_works (item : ProgItemConfig) :
    (∃ made, item.toProgItem sections = .ok made) ↔ item.InRange sections := by
  constructor
  · rintro ⟨made,works⟩
    exact (List.getElem?_eq_some_iff.mp ((toProgItem_ok sections).mp works).1).1
  · intro inside
    have found : sections[item.sectionIndex.val]? = some sections[item.sectionIndex.val] :=
      List.getElem?_eq_getElem inside
    exact ⟨⟨sections[item.sectionIndex.val],item.duration⟩,
      (toProgItem_ok sections).mpr ⟨found,rfl⟩⟩

theorem toProgram_eq (config : ProgramConfig) : config.toProgram sections =
    (config.sequence.mapM (ProgItemConfig.toProgItem sections)).map (fun sequence =>
      {sequence := sequence, name := config.name, schedule := config.schedule}) := by
  unfold ProgramConfig.toProgram
  cases config.sequence.mapM (ProgItemConfig.toProgItem sections) <;> rfl

theorem toProgram_ok {config : ProgramConfig} {program : ProgramRef} :
    config.toProgram sections = .ok program ↔ config.Makes sections program := by
  rw [toProgram_eq]
  constructor
  · intro made
    cases all : config.sequence.mapM (ProgItemConfig.toProgItem sections) with
    | error err =>
      rw [all] at made
      cases made
    | ok sequence =>
      rw [all] at made
      cases made
      exact ⟨rfl,rfl,(mapM_eq_ok.mp all).imp fun _ _ => (toProgItem_ok sections).mp⟩
  · rintro ⟨name,schedule,items⟩
    have all := mapM_eq_ok.mpr (items.imp fun _ _ => (toProgItem_ok sections).mpr)
    rw [all]
    obtain ⟨⟨sequence⟩,_,_⟩ := program
    cases name
    cases schedule
    rfl

/-- The first item, in the order in which the programs are written down, that asks for a section
that there is not. -/
def FirstOutOfRange (items : List ProgItemConfig) (err : ConfigError) : Prop :=
  ∃ front item back, items = front ++ item::back ∧ (∀ other ∈ front, other.InRange sections) ∧
    ¬ item.InRange sections ∧ err = .sectionOutOfRange item.sectionIndex.val

theorem failsFirst_toProgItem {items : List ProgItemConfig} {err : ConfigError} :
    FailsFirst (ProgItemConfig.toProgItem sections) items err ↔
      FirstOutOfRange sections items err := by
  unfold FailsFirst FirstOutOfRange
  simp only [toProgItem_works,toProgItem_error]

theorem toPrograms_ok {config : Config} {programs : List ProgramRef} :
    config.toPrograms sections = .ok programs ↔
      List.Forall₂ (ProgramConfig.Makes sections) config.programs programs := by
  unfold Config.toPrograms
  simp only [mapM_eq_ok,toProgram_ok]

theorem toPrograms_error {config : Config} {err : ConfigError} :
    config.toPrograms sections = .error err ↔
      FirstOutOfRange sections (config.programs.flatMap ProgramConfig.sequence) err := by
  unfold Config.toPrograms
  rw [← failsFirst_toProgItem,failsFirst_flatMap,mapM_eq_error,funext (toProgram_eq sections),
    failsFirst_map]

end Programs

theorem fromConfig_eq (config : Config) : AppState.fromConfig config =
    (config.toPrograms config.toSections).map (fun programs => ⟨config.toSections,programs⟩) := by
  unfold AppState.fromConfig
  dsimp only
  cases config.toPrograms config.toSections <;> rfl

theorem fromConfig_programs {config : Config} {state : AppState}
    (made : AppState.fromConfig config = .ok state) :
    List.Forall₂ (ProgramConfig.Makes config.toSections) config.programs state.programs := by
  rw [fromConfig_eq] at made
  rw [← toPrograms_ok]
  cases programs : config.toPrograms config.toSections with
  | error first =>
    rw [programs] at made
    cases made
  | ok all =>
    rw [programs] at made
    cases made
    rfl

/-- The application comes up with exactly what its configuration says: the sections in order, each
one a section of its own, and the programs in order with their sections in the place of indices.
Otherwise it names the first index out of range. -/
theorem fromConfig_exact (config : Config) :
    (∀ state : AppState, AppState.fromConfig config = .ok state ↔
      state.sections = config.toSections ∧
        List.Forall₂ (ProgramConfig.Makes config.toSections) config.programs state.programs) ∧
    (∀ err, AppState.fromConfig config = .error err ↔
      FirstOutOfRange config.toSections (config.programs.flatMap ProgramConfig.sequence) err) ∧
    config.toSections.map SectionConfig.fromSection = config.sections ∧
    config.toSections.Nodup := by
  refine ⟨?_,?_,toSections_names config,toSections_nodup config⟩
  · rintro ⟨sections,programs⟩
    rw [fromConfig_eq,← toPrograms_ok]
    cases config.toPrograms config.toSections with
    | error first => exact iff_of_false (fun same => by cases same) (fun same => by cases same.2)
    | ok made =>
      simp only [Except.map,Except.ok.injEq,AppState.mk.injEq]
      exact and_congr_left' eq_comm
  · intro err
    rw [fromConfig_eq,← toPrograms_error]
    cases config.toPrograms config.toSections with
    | error first => simp only [Except.map,Except.error.injEq]
    | ok made => exact iff_of_false (fun same => by cases same) (fun same => by cases same)

end Rinklers
