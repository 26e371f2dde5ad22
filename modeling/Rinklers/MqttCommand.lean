import Rinklers.MqttApi
import Rinklers.DurationText

/-! What a message asks for, and what is answered. A message means a command to one section or an
error, whatever the state it comes to; processing it is carrying out the command. -/
namespace Rinklers.MqttApi
open Foundation
open SectionRunner (World)

inductive ResponseCode
  | success
  | invalidPath
  | invalidPayloadUtf8
  | invalidPayloadJson
  | sectionNotFound
deriving DecidableEq, Repr

def ResponseCode.toNat : ResponseCode → Nat
  | .success => 1000
  | .invalidPath => 2000
  | .invalidPayloadUtf8 => 2001
  | .invalidPayloadJson => 2002
  | .sectionNotFound => 2003

def ApiError.asCode : ApiError → ResponseCode
  | .invalidPath _ => .invalidPath
  | .invalidPayloadUtf8 _ => .invalidPayloadUtf8
  | .invalidPayloadJson _ _ => .invalidPayloadJson
  | .sectionNotFound _ => .sectionNotFound

def ApiError.description : ApiError → String
  | .invalidPath _ => "message received on invalid path"
  | .invalidPayloadUtf8 _ => "invalid utf8 bytes in payload"
  | .invalidPayloadJson _ _ => "invalid json in payload"
  | .sectionNotFound _ => "section not found"

/-- An error without a `display` of its own is displayed as its description. -/
def ApiError.display : ApiError → String
  | .invalidPath path => s!"message received on invalid path: {path}"
  | .invalidPayloadUtf8 err => (ApiError.invalidPayloadUtf8 err).description
  | .invalidPayloadJson _ method => s!"invalid json in payload for request type {method}"
  | .sectionNotFound sectionIdx =>
    s!"{(ApiError.sectionNotFound sectionIdx).description}: {sectionIdx}"

def ApiError.cause : ApiError → Option String
  | .invalidPayloadUtf8 err | .invalidPayloadJson err _ => some err
  | .invalidPath _ | .sectionNotFound _ => none

structure ApiResponseData where
  message : String
  code : Nat
  data : JsonValue
deriving DecidableEq, Repr

def ApiResponseData.fromError (error : ApiError) : ApiResponseData :=
  let data := match error.cause with
    | some cause => .string cause
    | none => .null
  ⟨error.display,error.asCode.toNat,data⟩

def ApiResponseData.fromResponse (response : ApiResponse) : ApiResponseData :=
  ⟨response.message,1000,response.data⟩

/-- The `match result` of `run_on_client`. -/
def answer : Except ApiError ApiResponse → ApiResponseData
  | .ok response => .fromResponse response
  | .error error => .fromError error

theorem answer_code (result : Except ApiError ApiResponse) :
    (answer result).code = ResponseCode.success.toNat ↔ ∃ response, result = .ok response := by
  cases result with
  | ok response => exact iff_of_true rfl ⟨response,rfl⟩
  | error error =>
    refine iff_of_false ?_ (fun ⟨_,same⟩ => by cases same)
    cases error <;> simp [answer,ApiResponseData.fromError,ApiError.asCode,ResponseCode.toNat]

inductive Command (Sec : Type)
  | setState (sec : Sec) (state : Bool)
  | runFor (sec : Sec) (dur : Duration)
deriving DecidableEq

variable {Sec : Type}

section Meaning
variable (decoders : Decoders) (prefixPath : TopicPath) (sections : List Sec)

def Message.levels (msg : Message) : Option (List String) :=
  (msg.topic.topics.drop (prefixPath.len - 1)).mapM Topic.asStr

/-- What a request type asks of a section, by its payload. -/
def command (msg : Message) (sec : Sec) (request payload : String) :
    Except ApiError (Command Sec) :=
  match request with
  | "set_state" =>
    match decoders.bool payload with
    | .ok state => .ok (.setState sec state)
    | .error err => .error (.invalidPayloadJson err "set_state")
  | "run_for" =>
    match decoders.duration payload with
    | .ok dur => .ok (.runFor sec dur)
    | .error err => .error (.invalidPayloadJson err "run_for")
  | _ => .error (.invalidPath msg.topic.path)

/-- The levels after the prefix are `sections`, an index and the request; more may follow. -/
def Message.meaning (msg : Message) : Except ApiError (Command Sec) :=
  match msg.levels prefixPath, decoders.utf8 msg.payload with
  | none, _ => .error (.invalidPath msg.topic.path)
  | some _, .error err => .error (.invalidPayloadUtf8 err)
  | some ("sections"::index::request::_), .ok payload =>
    match usizeFromStr index with
    | none => .error (.invalidPath msg.topic.path)
    | some idx =>
      match sections[idx]? with
      | none => .error (.sectionNotFound idx)
      | some sec => command decoders msg sec request payload
  | some _, .ok _ => .error (.invalidPath msg.topic.path)

end Meaning

section Perform
variable [DecidableEq Sec] (chrono : CDuration) (name : Sec → String)

namespace Command

def perform (w : World Sec) : Command Sec → World Sec
  | .setState sec state => MqttApi.setState w sec state
  | .runFor sec dur => (w.runSection sec dur).hangUp w.channels

omit [DecidableEq Sec] in
/-- No response is the panic of a duration that cannot be printed. -/
def response : Command Sec → Option ApiResponse
  | .setState sec state => some ⟨s!"setting section \"{name sec}\" state to {state}",.null⟩
  | .runFor sec dur => (durationString chrono dur).map (fun text =>
      ⟨s!"running section \"{name sec}\" for {text}",.null⟩)

end Command

/-- Carrying out what a message means: an error is the answer and nothing happens. -/
def carryOut (w : World Sec) :
    Except ApiError (Command Sec) → Option (Except ApiError ApiResponse) × World Sec
  | .ok command => ((command.response chrono name).map .ok,command.perform w)
  | .error error => (some (.error error),w)

variable (decoders : Decoders) (prefixPath : TopicPath) (sections : List Sec)

theorem processMsg_meaning (msg : Message) (w : World Sec) :
    processMsg chrono decoders prefixPath sections name msg w =
      carryOut chrono name w (msg.meaning decoders prefixPath sections) := by
  unfold processMsg Message.meaning
  cases levels : msg.levels prefixPath with
  | none =>
    unfold Message.levels at levels
    simp only [levels,carryOut]
  | some topics =>
    unfold Message.levels at levels
    simp only [levels]
    cases decoders.utf8 msg.payload with
    | error err => simp only [carryOut]
    | ok payload =>
      rcases topics with _ | ⟨collection,_ | ⟨index,_ | ⟨request,rest⟩⟩⟩
      · simp [carryOut]
      · simp [carryOut]
      · simp [carryOut]
      · by_cases named : collection = "sections"
        · subst named
          simp only [List.getElem?_cons_zero,List.getElem?_cons_succ,Option.bind_some]
          cases usizeFromStr index with
          | none => simp only [carryOut]
          | some idx =>
            dsimp only
            cases found : sections[idx]? with
            | none => simp only [found,carryOut]
            | some sec =>
              simp only [found]
              unfold command
              by_cases setting : request = "set_state"
              · subst setting
                cases decoders.bool payload <;> rfl
              · by_cases running : request = "run_for"
                · subst running
                  cases decoders.duration payload with
                  | error err => rfl
                  | ok dur =>
                    simp only [carryOut,Command.response,Option.map_map]
                    rfl
                · simp [carryOut]
        · simp [carryOut,named]

/-- Processing a message is carrying out what it means, and the answer has the code of success
exactly if that is a command. -/
theorem processMsg_exact (msg : Message) (w : World Sec) :
    processMsg chrono decoders prefixPath sections name msg w =
      carryOut chrono name w (msg.meaning decoders prefixPath sections) ∧
    ∀ result, (processMsg chrono decoders prefixPath sections name msg w).1 = some result →
      ((answer result).code = ResponseCode.success.toNat ↔
        ∃ command, msg.meaning decoders prefixPath sections = .ok command) := by
  refine ⟨processMsg_meaning chrono name decoders prefixPath sections msg w,?_⟩
  intro result came
  rw [processMsg_meaning] at came
  rw [answer_code]
  cases meaning : msg.meaning decoders prefixPath sections with
  | error error =>
    rw [meaning] at came
    cases Option.some.inj came
    exact iff_of_false (fun ⟨_,same⟩ => by cases same) (fun ⟨_,same⟩ => by cases same)
  | ok command =>
    rw [meaning] at came
    obtain ⟨response,_,rfl⟩ := Option.map_eq_some_iff.mp came
    exact iff_of_true ⟨response,rfl⟩ ⟨command,rfl⟩

end Perform

section Index

private def digitStep (n : Nat) (c : Char) : Option Nat :=
  (toDigit c).bind (fun digit =>
    let n := n * 10 + digit.toNat
    if n < 2 ^ 64 then some n else none)

private theorem digitStep_eq_some {n next : Nat} {c : Char} :
    digitStep n c = some next ↔
      c.isDigit = true ∧ 10 * n + (c.toNat - '0'.toNat) = next ∧ next < 2 ^ 64 := by
  unfold digitStep
  cases digit : c.isDigit with
  | false =>
    have none : toDigit c = none := by
      refine if_neg fun inside => ?_
      rw [isDigit_iff.mpr inside] at digit
      cases digit
    simp [none]
  | true =>
    rw [toDigit_of_isDigit digit,Option.bind_some,Int.toNat_natCast,Nat.mul_comm]
    simp only [Option.ite_none_right_eq_some,Option.some.injEq,true_and]
    exact ⟨fun ⟨small,same⟩ => ⟨same,same ▸ small⟩,fun ⟨same,small⟩ => ⟨same ▸ small,same⟩⟩

private theorem le_ofDigitChars (chars : List Char) (n : Nat) : n ≤ Nat.ofDigitChars 10 chars n := by
  induction chars generalizing n with
  | nil => exact le_refl n
  | cons c rest ih =>
    rw [Nat.ofDigitChars_cons]
    exact le_trans (by omega) (ih _)

private theorem digits_eq_some {chars : List Char} {n value : Nat} (small : n < 2 ^ 64) :
    chars.foldlM digitStep n = some value ↔
      (∀ c ∈ chars, c.isDigit = true) ∧ Nat.ofDigitChars 10 chars n = value ∧ value < 2 ^ 64 := by
  induction chars generalizing n with
  | nil =>
    simp only [List.foldlM_nil,Nat.ofDigitChars_nil]
    constructor
    · rintro ⟨⟩
      exact ⟨by simp,rfl,small⟩
    · rintro ⟨_,rfl,_⟩
      rfl
  | cons c rest ih =>
    rw [List.foldlM_cons,Nat.ofDigitChars_cons,List.forall_mem_cons]
    constructor
    · intro read
      obtain ⟨next,first,later⟩ := Option.bind_eq_some_iff.mp read
      obtain ⟨digit,rfl,fits⟩ := digitStep_eq_some.mp first
      obtain ⟨digits,value,bound⟩ := (ih fits).mp later
      exact ⟨⟨digit,digits⟩,value,bound⟩
    · rintro ⟨⟨digit,digits⟩,value,bound⟩
      have fits : 10 * n + (c.toNat - '0'.toNat) < 2 ^ 64 :=
        lt_of_le_of_lt (value ▸ le_ofDigitChars rest _) bound
      refine Option.bind_eq_some_iff.mpr ⟨_,digitStep_eq_some.mpr ⟨digit,rfl,fits⟩,?_⟩
      exact (ih fits).mpr ⟨digits,value,bound⟩

private def signless : List Char → List Char
  | '+'::rest => rest
  | digits => digits

private theorem signless_cases (chars : List Char) :
    chars = signless chars ∨ chars = '+'::signless chars := by
  unfold signless
  split
  · exact .inr rfl
  · exact .inl rfl

private theorem signless_eq {chars digits : List Char} (all : ∀ c ∈ digits, c.isDigit = true)
    (spelled : chars = digits ∨ chars = '+'::digits) : signless chars = digits := by
  rcases spelled with rfl | rfl
  · unfold signless
    split
    · exact absurd (all '+' List.mem_cons_self) (by decide)
    · rfl
  · rfl

/-- A text is read as a number exactly if it is a numeral, perhaps with a plus sign, in range. -/
theorem usizeFromStr_eq_some {s : String} {n : Nat} : usizeFromStr s = some n ↔
    ∃ digits, (s.toList = digits ∨ s.toList = '+'::digits) ∧ digits ≠ [] ∧
      (∀ c ∈ digits, c.isDigit = true) ∧ Nat.ofDigitChars 10 digits 0 = n ∧ n < 2 ^ 64 := by
  have unsigned : usizeFromStr s = some n ↔ signless s.toList ≠ [] ∧
      (signless s.toList).foldlM digitStep 0 = some n := Option.ite_none_left_eq_some
  rw [unsigned,digits_eq_some (by decide)]
  constructor
  · rintro ⟨some,digits,value,small⟩
    exact ⟨_,signless_cases s.toList,some,digits,value,small⟩
  · rintro ⟨digits,spelled,some,all,value,small⟩
    have same : signless s.toList = digits := signless_eq all spelled
    rw [same]
    exact ⟨some,all,value,small⟩

theorem usizeFromStr_toString {n : Nat} (small : n < 2 ^ 64) :
    usizeFromStr (toString n) = some n := by
  refine usizeFromStr_eq_some.mpr ⟨Nat.toDigits 10 n,.inl ?_,?_,?_,Nat.ofDigitChars_ten_toDigits,
    small⟩
  · exact Nat.toList_repr
  · exact Nat.toDigits_ne_nil
  · intro c member
    exact Nat.isDigit_of_mem_toDigits (by decide) (by decide) member

end Index
end Rinklers.MqttApi
