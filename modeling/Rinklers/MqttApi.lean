import Rinklers.SectionRunner

/-! `mqtt_api.rs`: how one message is processed. Splitting a topic into levels and decoding
payloads are done by other libraries and are parameters. The request acts on the valves and on the
section runner, whose lock can be taken here. -/
namespace Rinklers.MqttApi
open Foundation
open SectionRunner (World)

inductive Topic
  | normal (name : String)
  | other
deriving DecidableEq, Repr

def Topic.asStr : Topic → Option String
  | .normal name => some name
  | .other => none

structure TopicPath where
  topics : List Topic
  path : String
  topics_ne_nil : topics ≠ []

def TopicPath.len (topic : TopicPath) : Nat := topic.topics.length

structure Message where
  topic : TopicPath
  payload : List UInt8

/-- `str::from_utf8` and `serde_json::from_str` at the two types that are asked for. That of a
duration can panic, before anything is touched, where its nanoseconds carry beyond the greatest
number of seconds; such payloads are left out. -/
structure Decoders where
  utf8 : List UInt8 → Except String String
  bool : String → Except String Bool
  duration : String → Except String Duration

inductive JsonValue
  | null
  | string (value : String)
deriving DecidableEq, Repr

structure ApiResponse where
  message : String
  data : JsonValue
deriving DecidableEq, Repr

inductive ApiError
  | invalidPath (path : String)
  | invalidPayloadUtf8 (err : String)
  | invalidPayloadJson (err : String) (method : String)
  | sectionNotFound (sectionIdx : Nat)
deriving DecidableEq, Repr

def usizeFromStr (s : String) : Option Nat :=
  let digits := match s.toList with
    | '+'::rest => rest
    | digits => digits
  if digits = [] then none else
  digits.foldlM (fun n c => (toDigit c).bind (fun digit =>
    let n := n * 10 + digit.toNat
    if n < 2 ^ 64 then some n else none)) 0

variable {Sec : Type} [DecidableEq Sec]

def setState (w : World Sec) (sec : Sec) (state : Bool) : World Sec :=
  {w with sections := Function.update w.sections sec state}

section Process
variable (chrono : CDuration) (decoders : Decoders) (prefixPath : TopicPath)
  (sections : List Sec) (name : Sec → String)

/-- The result is `none` for a panic. The receiver that `run_section` returns is dropped at once. -/
def processMsg (msg : Message) (w : World Sec) :
    Option (Except ApiError ApiResponse) × World Sec :=
  match (msg.topic.topics.drop (prefixPath.len - 1)).mapM Topic.asStr with
  | none => (some (.error (.invalidPath msg.topic.path)),w)
  | some topics =>
    match decoders.utf8 msg.payload with
    | .error err => (some (.error (.invalidPayloadUtf8 err)),w)
    | .ok payload =>
      match topics[0]?, topics[1]?.bind usizeFromStr, topics[2]? with
      | some "sections", some idx, some requestType =>
        match sections[idx]? with
        | none => (some (.error (.sectionNotFound idx)),w)
        | some sec =>
          match requestType with
          | "set_state" =>
            match decoders.bool payload with
            | .error err => (some (.error (.invalidPayloadJson err "set_state")),w)
            | .ok secState =>
              (some (.ok ⟨s!"setting section \"{name sec}\" state to {secState}",.null⟩),
                setState w sec secState)
          | "run_for" =>
            match decoders.duration payload with
            | .error err => (some (.error (.invalidPayloadJson err "run_for")),w)
            | .ok duration =>
              ((durationString chrono duration).map (fun text =>
                  .ok ⟨s!"running section \"{name sec}\" for {text}",.null⟩),
                (w.runSection sec duration).hangUp w.channels)
          | _ => (some (.error (.invalidPath msg.topic.path)),w)
      | _, _, _ => (some (.error (.invalidPath msg.topic.path)),w)

def Requests (msg : Message) (requestType : String) (idx : Nat) (payload : String) : Prop :=
  ∃ topics, (msg.topic.topics.drop (prefixPath.len - 1)).mapM Topic.asStr = some topics ∧
    topics[0]? = some "sections" ∧ topics[1]?.bind usizeFromStr = some idx ∧
    topics[2]? = some requestType ∧ decoders.utf8 msg.payload = .ok payload

/-- What processing a message can do, with the guards under which the source does it. -/
inductive Processed (msg : Message) (w : World Sec) :
    Option (Except ApiError ApiResponse) × World Sec → Prop
  | rejected (error : ApiError) : Processed msg w (some (.error error),w)
  | stateSet (idx : Nat) (payload : String) (sec : Sec) (state : Bool) (response : ApiResponse)
      (asked : Requests decoders prefixPath msg "set_state" idx payload)
      (found : sections[idx]? = some sec) (decoded : decoders.bool payload = .ok state) :
      Processed msg w (some (.ok response),setState w sec state)
  | queued (idx : Nat) (payload : String) (sec : Sec) (dur : Duration) (response : ApiResponse)
      (asked : Requests decoders prefixPath msg "run_for" idx payload)
      (found : sections[idx]? = some sec) (decoded : decoders.duration payload = .ok dur)
      (printable : Printable dur) :
      Processed msg w (some (.ok response),(w.runSection sec dur).hangUp w.channels)
  | crashed (idx : Nat) (payload : String) (sec : Sec) (dur : Duration)
      (asked : Requests decoders prefixPath msg "run_for" idx payload)
      (found : sections[idx]? = some sec) (decoded : decoders.duration payload = .ok dur)
      (unprintable : ¬ Printable dur) :
      Processed msg w (none,(w.runSection sec dur).hangUp w.channels)

theorem processMsg_processed (msg : Message) (w : World Sec) :
    Processed decoders prefixPath sections msg w
      (processMsg chrono decoders prefixPath sections name msg w) := by
  unfold processMsg
  split
  · exact .rejected _
  · rename_i topics levels
    split
    · exact .rejected _
    · rename_i payload text
      split
      · rename_i idx requestType collection index request
        split
        · exact .rejected _
        · rename_i sec found
          split
          · split
            · exact .rejected _
            · rename_i state decoded
              have asked : Requests decoders prefixPath msg "set_state" idx payload :=
                ⟨topics,levels,collection,index,request,text⟩
              exact .stateSet idx payload sec state _ asked found decoded
          · split
            · exact .rejected _
            · rename_i dur decoded
              have asked : Requests decoders prefixPath msg "run_for" idx payload :=
                ⟨topics,levels,collection,index,request,text⟩
              cases printed : durationString chrono dur with
              | none =>
                exact .crashed idx payload sec dur asked found decoded
                  ((durationString_eq_none chrono dur).mp printed)
              | some printable =>
                have isSome : (durationString chrono dur).isSome = true := by rw [printed]; rfl
                exact .queued idx payload sec dur _ asked found decoded
                  ((durationString_isSome chrono dur).mp isSome)
          · exact .rejected _
      · exact .rejected _

/-- The topic has this level at this place after the prefix. -/
def Level (msg : Message) (place : Nat) (name : String) : Prop :=
  (msg.topic.topics.drop (prefixPath.len - 1))[place]? = some (.normal name)

private theorem level_of_mapM {levels : List Topic} {names : List String}
    (normal : levels.mapM Topic.asStr = some names) {place : Nat} {name : String}
    (found : names[place]? = some name) : levels[place]? = some (.normal name) := by
  induction levels generalizing names place with
  | nil =>
    cases Option.some.inj normal
    cases found
  | cons level rest ih =>
    rw [List.mapM_cons] at normal
    obtain ⟨head,string,normal⟩ := Option.bind_eq_some_iff.mp normal
    obtain ⟨tail,others,same⟩ := Option.bind_eq_some_iff.mp normal
    cases Option.some.inj same
    cases level with
    | other => cases string
    | normal text =>
      cases string
      cases place with
      | zero =>
        cases found
        rfl
      | succ place => exact ih others found

omit [DecidableEq Sec] in
theorem Requests.levels {msg : Message} {requestType : String} {idx : Nat} {payload : String}
    (requests : Requests decoders prefixPath msg requestType idx payload) :
    Level prefixPath msg 0 "sections" ∧
      (∃ level, Level prefixPath msg 1 level ∧ usizeFromStr level = some idx) ∧
      Level prefixPath msg 2 requestType := by
  obtain ⟨topics,normal,collection,index,request,_⟩ := requests
  obtain ⟨level,found,read⟩ := Option.bind_eq_some_iff.mp index
  exact ⟨level_of_mapM normal collection,⟨level,level_of_mapM normal found,read⟩,
    level_of_mapM normal request⟩

/-- The one effect that a request has on the section at an index. -/
inductive Effect (msg : Message) (sec : Sec) (w next : World Sec) : Prop
  | stateSet (payload : String) (state : Bool) (asked : Level prefixPath msg 2 "set_state")
      (text : decoders.utf8 msg.payload = .ok payload) (decoded : decoders.bool payload = .ok state)
      (sections : next.sections = Function.update w.sections sec state)
      (data : next.data = w.data)
  | queued (payload : String) (dur : Duration) (asked : Level prefixPath msg 2 "run_for")
      (text : decoders.utf8 msg.payload = .ok payload)
      (decoded : decoders.duration payload = .ok dur) (sections : next.sections = w.sections)
      (data : next.data = {w.data with queue := w.data.queue ++ [⟨sec,dur,w.channels⟩]})

/-- A request that returns is all or nothing, and touches only its target. -/
structure Atomic (msg : Message) (w : World Sec)
    (result : Option (Except ApiError ApiResponse) × World Sec) : Prop where
  rejected : ∀ error, result.1 = some (.error error) →
    result.2.sections = w.sections ∧ result.2.data = w.data
  accepted : ∀ response, result.1 = some (.ok response) → ∃ level idx sec,
    Level prefixPath msg 0 "sections" ∧ Level prefixPath msg 1 level ∧
      usizeFromStr level = some idx ∧ sections[idx]? = some sec ∧
      Effect decoders prefixPath msg sec w result.2

theorem Requests.atomic {msg : Message} {requestType : String} {idx : Nat} {payload : String}
    (requests : Requests decoders prefixPath msg requestType idx payload) {sec : Sec}
    (found : sections[idx]? = some sec) {w next : World Sec} {response : ApiResponse}
    (effect : Level prefixPath msg 2 requestType → decoders.utf8 msg.payload = .ok payload →
      Effect decoders prefixPath msg sec w next) :
    Atomic decoders prefixPath sections msg w (some (.ok response),next) := by
  obtain ⟨collection,⟨level,index,read⟩,request⟩ := requests.levels
  obtain ⟨_,_,_,_,_,text⟩ := requests
  refine ⟨?_,fun _ _ => ⟨level,idx,sec,collection,index,read,found,effect request text⟩⟩
  intro error impossible
  cases impossible

theorem requests_atomic (msg : Message) (w : World Sec) :
    Atomic decoders prefixPath sections msg w
      (processMsg chrono decoders prefixPath sections name msg w) := by
  have processed := processMsg_processed chrono decoders prefixPath sections name msg w
  generalize processMsg chrono decoders prefixPath sections name msg w = result at processed
  cases processed with
  | rejected error =>
    refine ⟨fun _ _ => ⟨rfl,rfl⟩,?_⟩
    intro response impossible
    cases impossible
  | stateSet idx payload sec state response asked found decoded =>
    apply asked.atomic decoders prefixPath sections found
    intro request text
    exact .stateSet payload state request text decoded rfl rfl
  | queued idx payload sec dur response asked found decoded printable =>
    apply asked.atomic decoders prefixPath sections found
    intro request text
    exact .queued payload dur request text decoded rfl rfl
  | crashed =>
    constructor <;> intro _ impossible <;> cases impossible

end Process
end Rinklers.MqttApi
