import Rinklers.MqttCommand
import Rinklers.Config
import Rinklers.Foundation.Counted

/-! The thread of `MqttApi`: `run`, `run_on_client`, `initial_pubs` and `initial_subs`, and what it
says to its client. The client is another library: each call of it may come to any end. What the
thread shares with the others is a parameter. Payloads are kept as they are before they are made
into text. -/
namespace Rinklers.MqttApi
open Foundation

inductive Payload
  | connected
  | sections (indices : List Nat)
  | sectionConfig (config : SectionConfig)
  | state (state : Bool)
  | response (data : ApiResponseData)
deriving DecidableEq

inductive Announcement (Sec : Type)
  | connected
  | sections
  | sectionConfig (i : Nat) (sec : Sec)
  | state (i : Nat) (sec : Sec)
deriving DecidableEq

inductive Event
  | began
  | published (topic : String) (payload : Payload)
  | subscribed (topicPath : String)
  | awaited
  | processed (msg : Message) (result : Option (Except ApiError ApiResponse))
  | terminated

/-- Where the thread is. A client that fails during the greeting is left as it is, one that fails
later is terminated. Leaving, the thread drops what it was given, first `running`, then `state`. -/
inductive Stage (Sec : Type)
  | looping
  | connecting
  | publishing (left : List (Announcement Sec))
  | subscribing (left : List String)
  | serving
  | awaiting
  | processing (msg : Message)
  | answering (data : ApiResponseData)
  | terminating
  | leaving (panicking : Bool)
  | dropped (panicking : Bool)
  | gone (panicking : Bool)

structure Session (Sec : Type) where
  stage : Stage Sec
  client : Bool
  trace : List Event

/-- What the thread finds around it: the flag `running`, the state of a section, what processing a
message comes to, when that panics on a poisoned lock, and what the other threads may do meanwhile.
Nobody sets the flag again. -/
structure Surroundings (Sec W : Type) where
  running : W → Bool
  state : W → Sec → Bool
  process : Message → W → Option (Except ApiError ApiResponse) → W → Prop
  poisoned : Message → W → Prop
  others : W → W → Prop
  process_running : ∀ {msg w result next}, process msg w result next → running next = running w
  others_running : ∀ {w next}, others w next → running w = false → running next = false

variable {Sec W : Type}

section Thread
variable (topicPrefix : String) (sections : List Sec) (name : Sec → String)

def Announcement.topic : Announcement Sec → String
  | .connected => s!"{topicPrefix}connected"
  | .sections => s!"{topicPrefix}sections"
  | .sectionConfig i _ => s!"{topicPrefix}sections/{i}"
  | .state i _ => s!"{topicPrefix}sections/{i}/state"

def Announcement.payload (state : Sec → Bool) : Announcement Sec → Payload
  | .connected => .connected
  | .sections => .sections (List.range sections.length)
  | .sectionConfig _ sec => .sectionConfig ⟨name sec⟩
  | .state _ sec => .state (state sec)

def initialPubs : List (Announcement Sec) :=
  .connected::.sections::sections.zipIdx.flatMap
    (fun (sec, i) => [.sectionConfig i sec,.state i sec])

def initialSubs : List String :=
  ["sections/+/set_state","sections/+/run_for"].map (fun topic => s!"{topicPrefix}{topic}")

def responseTopic : String := s!"{topicPrefix}responses"

def startNew : Session Sec := ⟨.looping,false,[]⟩

namespace Session

def goTo (s : Session Sec) (stage : Stage Sec) : Session Sec := {s with stage := stage}

def after (s : Session Sec) (event : Event) (stage : Stage Sec) : Session Sec :=
  {s with stage := stage, trace := s.trace ++ [event]}

end Session

variable (surroundings : Surroundings Sec W)

/-- A step of the thread itself. A client that cannot be made is tried again later; one that cannot
reconnect is used all the same. -/
inductive Step (s : Session Sec) (w : W) : Session Sec → W → Prop
  | continues (here : s.stage = .looping) (running : surroundings.running w = true) :
      Step s w (s.goTo .connecting) w
  | ends (here : s.stage = .looping) (stopped : surroundings.running w = false) :
      Step s w (s.goTo (.leaving false)) w
  | refused (here : s.stage = .connecting) (new : s.client = false) : Step s w (s.goTo .looping) w
  | begins (here : s.stage = .connecting) :
      Step s w {s.after .began (.publishing (initialPubs sections)) with client := true} w
  | publishes (announcement : Announcement Sec) (left : List (Announcement Sec))
      (here : s.stage = .publishing (announcement::left)) :
      Step s w (s.after (.published (announcement.topic topicPrefix)
        (announcement.payload sections name (surroundings.state w))) (.publishing left)) w
  | publishFails (announcement : Announcement Sec) (left : List (Announcement Sec))
      (here : s.stage = .publishing (announcement::left)) : Step s w (s.goTo .looping) w
  | published (here : s.stage = .publishing []) :
      Step s w (s.goTo (.subscribing (initialSubs topicPrefix))) w
  | subscribes (topicPath : String) (left : List String)
      (here : s.stage = .subscribing (topicPath::left)) :
      Step s w (s.after (.subscribed topicPath) (.subscribing left)) w
  | subscribeFails (topicPath : String) (left : List String)
      (here : s.stage = .subscribing (topicPath::left)) : Step s w (s.goTo .looping) w
  | subscribed (here : s.stage = .subscribing []) : Step s w (s.goTo .serving) w
  | awaits (here : s.stage = .serving) (running : surroundings.running w = true) :
      Step s w (s.after .awaited .awaiting) w
  | stops (here : s.stage = .serving) (stopped : surroundings.running w = false) :
      Step s w (s.goTo .terminating) w
  | nothing (here : s.stage = .awaiting) : Step s w (s.goTo .serving) w
  | breaks (here : s.stage = .awaiting) : Step s w (s.goTo .terminating) w
  | receives (msg : Message) (here : s.stage = .awaiting) : Step s w (s.goTo (.processing msg)) w
  | processes (msg : Message) (result : Except ApiError ApiResponse) (next : W)
      (here : s.stage = .processing msg) (done : surroundings.process msg w (some result) next) :
      Step s w (s.after (.processed msg (some result)) (.answering (answer result))) next
  | panics (msg : Message) (next : W) (here : s.stage = .processing msg)
      (done : surroundings.process msg w none next) :
      Step s w (s.after (.processed msg none) (.leaving true)) next
  | poisoned (msg : Message) (here : s.stage = .processing msg)
      (poisoned : surroundings.poisoned msg w) : Step s w (s.goTo (.leaving true)) w
  | answers (data : ApiResponseData) (here : s.stage = .answering data) :
      Step s w (s.after (.published (responseTopic topicPrefix) (.response data)) .serving) w
  | answerFails (data : ApiResponseData) (here : s.stage = .answering data) :
      Step s w (s.goTo (.leaving true)) w
  | terminates (here : s.stage = .terminating) : Step s w (s.after .terminated .looping) w
  | dropsRunning (panicking : Bool) (here : s.stage = .leaving panicking) :
      Step s w (s.goTo (.dropped panicking)) w
  | dropsState (panicking : Bool) (here : s.stage = .dropped panicking) :
      Step s w (s.goTo (.gone panicking)) w

def OwnStep (before after : Session Sec × W) : Prop :=
  Step topicPrefix sections name surroundings before.1 before.2 after.1 after.2

def OtherStep (before after : Session Sec × W) : Prop :=
  after.1 = before.1 ∧ surroundings.others before.2 after.2

def Reachable (w₀ : W) : Session Sec × W → Prop :=
  Relation.ReflTransGen (fun before after =>
    OwnStep topicPrefix sections name surroundings before after ∨ OtherStep surroundings before after)
    (startNew,w₀)

end Thread

section Addressed

theorem sectionConfig_mem_initialPubs {sections : List Sec} {i : Nat} {sec : Sec} :
    .sectionConfig i sec ∈ initialPubs sections ↔ sections[i]? = some sec := by
  simp only [initialPubs,List.mem_cons,reduceCtorEq,List.mem_flatMap,List.not_mem_nil,or_false,
    false_or,Announcement.sectionConfig.injEq]
  constructor
  · rintro ⟨⟨other,place⟩,member,rfl,rfl⟩
    exact List.mem_zipIdx_iff_getElem?.mp member
  · intro found
    exact ⟨(sec,i),List.mem_zipIdx_iff_getElem?.mpr found,rfl,rfl⟩

/-- The name of a level that is neither blank nor a wildcard nor the system's. -/
def Plain (name : List Char) : Prop :=
  name ≠ [] ∧ ∀ c ∈ name, c ≠ '/' ∧ c ≠ '+' ∧ c ≠ '#' ∧ c ≠ '$'

instance (name : List Char) : Decidable (Plain name) :=
  @instDecidableAnd _ _ inferInstance (List.decidableBAll _ name)

/-- How `TopicPath::from_str` reads a level of a topic. -/
structure Levels where
  read : List Char → Topic
  read_plain : ∀ name, Plain name → read name = .normal (String.ofList name)
  read_normal : ∀ level name, read level = .normal name → name = String.ofList level

/-- A topic is cut at its slashes. -/
def Levels.split (levels : Levels) (topic : String) : List Topic :=
  (topic.toList.splitOn '/').map levels.read

/-- What is written after such a prefix begins a level. -/
def EndsLevel (topicPrefix : String) : Prop := topicPrefix = "" ∨ ∃ path, topicPrefix = path ++ "/"

theorem Plain.slashless {name : List Char} (plain : Plain name) : '/' ∉ name :=
  fun member => (plain.2 '/' member).1 rfl

theorem plain_sections : Plain "sections".toList := by decide

theorem plain_toString (n : Nat) : Plain (toString n).toList := by
  have digits : (toString n).toList = Nat.toDigits 10 n := Nat.toList_repr
  rw [digits]
  refine ⟨Nat.toDigits_ne_nil,?_⟩
  intro c member
  have digit : c.isDigit = true := Nat.isDigit_of_mem_toDigits (by decide) (by decide) member
  refine ⟨?_,?_,?_,?_⟩ <;> rintro rfl <;> exact absurd digit (by decide)

/-- A text up to its last slash, and what comes after that. -/
private theorem last_level (text : List Char) : ∃ last, '/' ∉ last ∧
    (text = last ∨ ∃ path, text = path ++ '/'::last) := by
  induction text with
  | nil => exact ⟨[],by simp,.inl rfl⟩
  | cons c rest ih =>
    obtain ⟨last,slashless,rfl | ⟨path,rfl⟩⟩ := ih
    · by_cases slash : c = '/'
      · exact ⟨rest,slashless,.inr ⟨[],by rw [slash]; rfl⟩⟩
      · refine ⟨c::rest,?_,.inl rfl⟩
        rw [List.mem_cons]
        rintro (same | later)
        · exact slash same.symm
        · exact slashless later
    · exact ⟨last,slashless,.inr ⟨c::path,rfl⟩⟩

/-- Whatever ends the prefix is a part of the level after it. -/
private theorem split_after (text : List Char) : ∃ before last,
    text.splitOn '/' = before ++ [last] ∧
      (∀ word, '/' ∉ word → (text ++ word).splitOn '/' = before ++ [last ++ word]) ∧
      (last = [] ↔ text = [] ∨ ∃ path, text = path ++ ['/']) := by
  obtain ⟨last,slashless,rfl | ⟨path,rfl⟩⟩ := last_level text
  · refine ⟨[],text,List.splitOn_eq_singleton slashless,?_,?_⟩
    · intro word plain
      exact List.splitOn_eq_singleton (by simp [slashless,plain])
    · refine ⟨.inl,?_⟩
      rintro (empty | ⟨path,rfl⟩)
      · exact empty
      · exact absurd (by simp) slashless
  · refine ⟨path.splitOn '/',last,?_,?_,?_⟩
    · rw [List.splitOn_append_cons_self,List.splitOn_eq_singleton slashless]
    · intro word plain
      have rest : (last ++ word).splitOn '/' = [last ++ word] :=
        List.splitOn_eq_singleton (by simp [slashless,plain])
      rw [List.append_assoc,List.cons_append,List.splitOn_append_cons_self,rest]
    · constructor
      · rintro rfl
        exact .inr ⟨path,rfl⟩
      · rintro (empty | ⟨other,same⟩)
        · simp at empty
        · rcases List.eq_nil_or_concat last with nothing | ⟨front,c,rfl⟩
          · exact nothing
          · rw [List.concat_eq_append,← List.cons_append,← List.append_assoc] at same
            obtain ⟨_,ends⟩ := List.append_inj' same rfl
            cases ends
            exact absurd (by simp) slashless

theorem endsLevel_iff (topicPrefix : String) : EndsLevel topicPrefix ↔
    topicPrefix.toList = [] ∨ ∃ path, topicPrefix.toList = path ++ ['/'] := by
  unfold EndsLevel
  rw [String.toList_eq_nil_iff]
  apply or_congr_right
  constructor
  · rintro ⟨path,rfl⟩
    exact ⟨path.toList,String.toList_append⟩
  · rintro ⟨path,same⟩
    refine ⟨String.ofList path,?_⟩
    rw [← String.toList_inj,same,String.toList_append,String.toList_ofList]
    rfl

theorem Levels.read_toList (levels : Levels) {name : String} (plain : Plain name.toList) :
    levels.read name.toList = .normal name := by
  rw [levels.read_plain _ plain,String.ofList_toList]

/-- The levels of a request on an announced topic: what is left of the prefix stands before the
first of them. -/
theorem announced_levels (levels : Levels) {i : Nat} {sec : Sec} {topicPrefix request : String}
    {prefixPath : TopicPath} {msg : Message}
    (prefixes : prefixPath.topics = levels.split topicPrefix) (plain : Plain request.toList)
    (topic : msg.topic.topics =
      levels.split s!"{(Announcement.sectionConfig i sec).topic topicPrefix}/{request}") :
    ∃ last, (last = [] ↔ EndsLevel topicPrefix) ∧ msg.levels prefixPath =
      ((levels.read (last ++ "sections".toList)).asStr).map
        (fun name => [name,toString i,request]) := by
  obtain ⟨before,last,whole,after,ends⟩ := split_after topicPrefix.toList
  rw [← endsLevel_iff] at ends
  have written : (s!"{(Announcement.sectionConfig i sec).topic topicPrefix}/{request}").toList =
      (topicPrefix.toList ++ "sections".toList) ++ '/'::((toString i).toList ++
        '/'::request.toList) := by
    change (topicPrefix ++ "sections/" ++ toString i ++ "/" ++ request).toList = _
    simp only [String.toList_append,List.append_assoc]
    rfl
  have parts : msg.topic.topics = before.map levels.read ++
      [levels.read (last ++ "sections".toList),.normal (toString i),.normal request] := by
    have number := (plain_toString i).slashless
    rw [topic,Levels.split,written,List.splitOn_append_cons_self,List.splitOn_append_cons_self,
      after _ plain_sections.slashless,List.splitOn_eq_singleton number,
      List.splitOn_eq_singleton plain.slashless]
    simp only [List.map_append,List.map_cons,List.map_nil,levels.read_toList (plain_toString i),
      levels.read_toList plain,List.append_assoc,List.cons_append,List.nil_append]
  have skipped : prefixPath.len - 1 = (before.map levels.read).length := by
    rw [TopicPath.len,prefixes,Levels.split,whole,List.map_append,List.length_append]
    rfl
  refine ⟨last,ends,?_⟩
  rw [Message.levels,parts,skipped,List.drop_left]
  cases levels.read (last ++ "sections".toList) <;> rfl

/-- Whoever has heard of a section can address it: the topic on which its configuration is
announced, with a request after it, asks that section and no other. That is so under a prefix that
is empty or ends in a slash; under any other such a message is answered with `InvalidPath`. -/
theorem announced_addressed (decoders : Decoders) (levels : Levels)
    {sections : List Sec} {i : Nat} {sec : Sec} {topicPrefix request payload : String}
    {prefixPath : TopicPath} {msg : Message}
    (announced : .sectionConfig i sec ∈ initialPubs sections) (few : sections.length ≤ 2 ^ 64)
    (prefixes : prefixPath.topics = levels.split topicPrefix) (plain : Plain request.toList)
    (topic : msg.topic.topics =
      levels.split s!"{(Announcement.sectionConfig i sec).topic topicPrefix}/{request}")
    (text : decoders.utf8 msg.payload = .ok payload) :
    (EndsLevel topicPrefix →
      msg.meaning decoders prefixPath sections = command decoders msg sec request payload) ∧
    (¬ EndsLevel topicPrefix →
      msg.meaning decoders prefixPath sections = .error (.invalidPath msg.topic.path)) := by
  have found := sectionConfig_mem_initialPubs.mp announced
  obtain ⟨inside,_⟩ := List.getElem?_eq_some_iff.mp found
  have index := usizeFromStr_toString (lt_of_lt_of_le inside few)
  obtain ⟨last,ends,names⟩ := announced_levels levels prefixes plain topic
  constructor
  · intro closed
    rw [ends.mpr closed,List.nil_append,levels.read_toList plain_sections,Topic.asStr,
      Option.map_some] at names
    simp only [Message.meaning,names,text,index,found]
  · intro opened
    cases level : levels.read (last ++ "sections".toList) with
    | other =>
      rw [level] at names
      simp only [Message.meaning,names,Topic.asStr,Option.map_none]
    | normal name =>
      rw [level] at names
      have longer : name ≠ "sections" := by
        rintro rfl
        have same : "sections".toList = last ++ "sections".toList :=
          (congrArg String.toList (levels.read_normal _ _ level)).trans String.toList_ofList
        exact opened (ends.mp (List.self_eq_append_left.mp same))
      simp only [Message.meaning,names,text,Topic.asStr,Option.map_some]
      split <;> simp_all

private def slashLevels : Levels where
  read level := if Plain level then .normal (String.ofList level) else .other
  read_plain _ plain := if_pos plain
  read_normal level name read := by
    split at read
    · exact (Topic.normal.inj read).symm
    · cases read

private def textDecoders : Decoders where
  utf8 _ := .ok "true"
  bool text := if text = "true" then .ok true else .error text
  duration text := .error text

private def topicPath (path : String) (levels : slashLevels.split path ≠ []) : TopicPath :=
  ⟨slashLevels.split path,path,levels⟩

private def prefixPath : TopicPath := topicPath "rinklers/" (by decide)

private def switchOn : Message := ⟨topicPath "rinklers/sections/0/set_state" (by decide),[]⟩

theorem announced_addressed_at_zero : switchOn.meaning textDecoders prefixPath [7] =
    command textDecoders switchOn 7 "set_state" "true" := by
  have announced : Announcement.sectionConfig 0 7 ∈ initialPubs [7] := by decide
  have few : [7].length ≤ 2 ^ 64 := by decide
  have prefixes : prefixPath.topics = slashLevels.split "rinklers/" := rfl
  have ends : EndsLevel "rinklers/" := .inr ⟨"rinklers",rfl⟩
  exact (announced_addressed textDecoders slashLevels announced few prefixes (by decide) rfl rfl).1
    ends

end Addressed

/-- What a step of the thread adds to its trace, and that nothing but processing a message touches
what is around it. -/
theorem step_effect {topicPrefix : String} {sections : List Sec} {name : Sec → String}
    {surroundings : Surroundings Sec W} {s next : Session Sec} {w after : W}
    (step : Step topicPrefix sections name surroundings s w next after) :
    (∃ msg result, surroundings.process msg w result after ∧
      next.trace = s.trace ++ [.processed msg result]) ∨
    (after = w ∧ ∃ more, next.trace = s.trace ++ more ∧
      ∀ msg result, Event.processed msg result ∉ more) := by
  cases step with
  | processes msg result _ here done => exact .inl ⟨msg,_,done,rfl⟩
  | panics msg _ here done => exact .inl ⟨msg,_,done,rfl⟩
  | begins | publishes | subscribes | awaits | answers | terminates =>
    exact .inr ⟨rfl,[_],rfl,by simp⟩
  | _ => exact .inr ⟨rfl,[],(List.append_nil _).symm,by simp⟩

section Protocol
variable (topicPrefix : String) (sections : List Sec) (name : Sec → String)

/-- What the thread has to say on a new connection, in order. -/
def greeting : List (Announcement Sec ⊕ String) :=
  (initialPubs sections).map .inl ++ (initialSubs topicPrefix).map .inr

def Says : Announcement Sec ⊕ String → Event → Prop
  | .inl announcement, event => ∃ state : Sec → Bool, event =
      .published (announcement.topic topicPrefix) (announcement.payload sections name state)
  | .inr topicPath, event => event = .subscribed topicPath

inductive Exchange
  | idle
  | answered (msg : Message) (result : Except ApiError ApiResponse)

def Exchange.events : Exchange → List Event
  | .idle => [.awaited]
  | .answered msg result => [.awaited,.processed msg (some result),
      .published (responseTopic topicPrefix) (.response (answer result))]

/-- A greeting said whole, exchanges, and what is `left` to say. -/
def Serves (events left : List Event) : Prop :=
  ∃ (said : List Event) (exchanges : List Exchange),
    List.Forall₂ (Says topicPrefix sections name) (greeting topicPrefix sections) said ∧
    events = said ++ exchanges.flatMap (Exchange.events topicPrefix) ++ left

/-- The events of a call of `run_on_client` that has returned. -/
inductive Over (events : List Event) : Prop
  | broken (done : List (Announcement Sec ⊕ String)) (early : done <+: greeting topicPrefix sections)
      (said : List.Forall₂ (Says topicPrefix sections name) done events)
  | served (serves : Serves topicPrefix sections name events [.terminated])

/-- What has not been answered when the thread panics. -/
inductive Unanswered : List Event → Prop
  | locked : Unanswered [.awaited]
  | failed (msg : Message) : Unanswered [.awaited,.processed msg none]
  | unpublished (msg : Message) (result : Except ApiError ApiResponse) :
      Unanswered [.awaited,.processed msg (some result)]

/-- The events since the thread last entered its outer loop, by where it is. -/
def Now (events : List Event) : Stage Sec → Prop
  | .looping | .connecting | .leaving false | .dropped false | .gone false => events = []
  | .publishing left => ∃ done said, events = .began::said ∧
      greeting topicPrefix sections = done ++ left.map .inl ++ (initialSubs topicPrefix).map .inr ∧
      List.Forall₂ (Says topicPrefix sections name) done said
  | .subscribing left => ∃ done said, events = .began::said ∧
      greeting topicPrefix sections = done ++ left.map .inr ∧
      List.Forall₂ (Says topicPrefix sections name) done said
  | .serving | .terminating => ∃ rest, events = .began::rest ∧
      Serves topicPrefix sections name rest []
  | .awaiting | .processing _ => ∃ rest, events = .began::rest ∧
      Serves topicPrefix sections name rest [.awaited]
  | .answering data => ∃ rest msg result, events = .began::rest ∧ answer result = data ∧
      Serves topicPrefix sections name rest [.awaited,.processed msg (some result)]
  | .leaving true | .dropped true | .gone true => ∃ rest left, events = .began::rest ∧
      Unanswered left ∧ Serves topicPrefix sections name rest left

/-- Each connection is greeted, served and left before the next one begins. -/
def Orderly (s : Session Sec) : Prop :=
  ∃ (past : List (List Event)) (now : List Event), s.trace = past.flatMap (Event.began::·) ++ now ∧
    (∀ events ∈ past, Over topicPrefix sections name events) ∧
    Now topicPrefix sections name now s.stage

variable {topicPrefix sections name} (surroundings : Surroundings Sec W)

theorem Serves.append {events left : List Event}
    (serves : Serves topicPrefix sections name events left) (more : List Event) :
    Serves topicPrefix sections name (events ++ more) (left ++ more) := by
  obtain ⟨said,exchanges,greets,rfl⟩ := serves
  exact ⟨said,exchanges,greets,by simp⟩

theorem Serves.exchanged {events : List Event} (exchange : Exchange)
    (serves : Serves topicPrefix sections name events (exchange.events topicPrefix)) :
    Serves topicPrefix sections name events [] := by
  obtain ⟨said,exchanges,greets,rfl⟩ := serves
  exact ⟨said,exchanges ++ [exchange],greets,by simp⟩

/-- The connection that was being served is one more that is over. -/
theorem Orderly.over {s : Session Sec} {past : List (List Event)} {events : List Event}
    (trace : s.trace = past.flatMap (Event.began::·) ++ .began::events)
    (earlier : ∀ events ∈ past, Over topicPrefix sections name events)
    (last : Over topicPrefix sections name events)
    (next : Now topicPrefix sections name [] s.stage) : Orderly topicPrefix sections name s := by
  refine ⟨past ++ [events],[],by simp [trace],?_,next⟩
  intro other member
  rcases List.mem_append.mp member with before | new
  · exact earlier other before
  · rw [List.mem_singleton.mp new]
    exact last

private theorem orderly_step {s next : Session Sec} {w after : W}
    (orderly : Orderly topicPrefix sections name s)
    (step : Step topicPrefix sections name surroundings s w next after) :
    Orderly topicPrefix sections name next := by
  obtain ⟨past,now,trace,earlier,here⟩ := orderly
  cases step with
  | continues stage | ends stage | refused stage =>
    rw [stage] at here
    exact ⟨past,now,trace,earlier,here⟩
  | begins stage =>
    rw [stage] at here
    cases here
    refine ⟨past,[.began],?_,earlier,[],[],rfl,rfl,.nil⟩
    simp [Session.after,trace]
  | publishes announcement left stage =>
    rw [stage] at here
    obtain ⟨done,said,rfl,parts,greets⟩ := here
    have fits : Says topicPrefix sections name (.inl announcement)
        (.published (announcement.topic topicPrefix)
          (announcement.payload sections name (surroundings.state w))) := ⟨_,rfl⟩
    refine ⟨past,_,?_,earlier,done ++ [.inl announcement],said ++ [_],rfl,?_,
      List.rel_append greets (.cons fits .nil)⟩
    · simp [Session.after,trace]
    · simpa using parts
  | publishFails announcement left stage =>
    rw [stage] at here
    obtain ⟨done,said,rfl,parts,greets⟩ := here
    refine Orderly.over trace earlier (.broken done ?_ greets) rfl
    rw [parts,List.append_assoc]
    exact List.prefix_append _ _
  | published stage =>
    rw [stage] at here
    obtain ⟨done,said,rfl,parts,greets⟩ := here
    exact ⟨past,_,trace,earlier,done,said,rfl,by simpa using parts,greets⟩
  | subscribes topicPath left stage =>
    rw [stage] at here
    obtain ⟨done,said,rfl,parts,greets⟩ := here
    have fits : Says topicPrefix sections name (.inr topicPath) (.subscribed topicPath) := rfl
    refine ⟨past,_,?_,earlier,done ++ [.inr topicPath],said ++ [_],rfl,?_,
      List.rel_append greets (.cons fits .nil)⟩
    · simp [Session.after,trace]
    · simpa using parts
  | subscribeFails topicPath left stage =>
    rw [stage] at here
    obtain ⟨done,said,rfl,parts,greets⟩ := here
    refine Orderly.over trace earlier (.broken done ?_ greets) rfl
    rw [parts]
    exact List.prefix_append _ _
  | subscribed stage =>
    rw [stage] at here
    obtain ⟨done,said,rfl,parts,greets⟩ := here
    rw [List.map_nil,List.append_nil] at parts
    exact ⟨past,_,trace,earlier,said,rfl,said,[],parts ▸ greets,by simp⟩
  | awaits stage =>
    rw [stage] at here
    obtain ⟨rest,rfl,serves⟩ := here
    exact ⟨past,_,by simp [Session.after,trace],earlier,rest ++ [.awaited],rfl,serves.append _⟩
  | stops stage =>
    rw [stage] at here
    exact ⟨past,now,trace,earlier,here⟩
  | nothing stage | breaks stage =>
    rw [stage] at here
    obtain ⟨rest,rfl,serves⟩ := here
    exact ⟨past,_,trace,earlier,rest,rfl,serves.exchanged .idle⟩
  | receives msg stage =>
    rw [stage] at here
    exact ⟨past,now,trace,earlier,here⟩
  | processes msg result next stage =>
    rw [stage] at here
    obtain ⟨rest,rfl,serves⟩ := here
    exact ⟨past,_,by simp [Session.after,trace],earlier,rest ++ [_],msg,result,rfl,rfl,
      serves.append _⟩
  | panics msg next stage =>
    rw [stage] at here
    obtain ⟨rest,rfl,serves⟩ := here
    exact ⟨past,_,by simp [Session.after,trace],earlier,rest ++ [_],_,rfl,.failed msg,
      serves.append _⟩
  | poisoned msg stage =>
    rw [stage] at here
    obtain ⟨rest,rfl,serves⟩ := here
    exact ⟨past,_,trace,earlier,rest,_,rfl,.locked,serves⟩
  | answers data stage =>
    rw [stage] at here
    obtain ⟨rest,msg,result,rfl,rfl,serves⟩ := here
    exact ⟨past,_,by simp [Session.after,trace],earlier,rest ++ [_],rfl,
      Serves.exchanged (.answered msg result) (serves.append _)⟩
  | answerFails data stage =>
    rw [stage] at here
    obtain ⟨rest,msg,result,rfl,_,serves⟩ := here
    exact ⟨past,_,trace,earlier,rest,_,rfl,.unpublished msg result,serves⟩
  | terminates stage =>
    rw [stage] at here
    obtain ⟨rest,rfl,serves⟩ := here
    have ended : s.trace ++ [.terminated] =
        past.flatMap (Event.began::·) ++ .began::(rest ++ [.terminated]) := by simp [trace]
    exact Orderly.over ended earlier (.served (serves.append _)) rfl
  | dropsRunning panicking stage | dropsState panicking stage =>
    rw [stage] at here
    cases panicking <;> exact ⟨past,now,trace,earlier,here⟩

theorem orderly_reachable {w₀ : W} {s : Session Sec} {w : W}
    (reached : Reachable topicPrefix sections name surroundings w₀ (s,w)) :
    Orderly topicPrefix sections name s := by
  generalize target : (s,w) = state at reached
  induction reached generalizing s w with
  | refl =>
    cases target
    exact ⟨[],[],rfl,by simp,rfl⟩
  | @tail middle _ _ step ih =>
    cases target
    have before := @ih middle.1 middle.2 rfl
    rcases step with own | ⟨same,_⟩
    · exact orderly_step surroundings before own
    · rw [show s = middle.1 from same]
      exact before

def Event.response? : Event → Option ApiResponseData
  | .published _ (.response data) => some data
  | _ => none

def Event.result? : Event → Option (Except ApiError ApiResponse)
  | .processed _ result => result
  | _ => none

/-- What the thread has found and what it has told, up to what is `left` to tell. -/
def Answers (events : List Event) (left : List ApiResponseData) : Prop :=
  (events.filterMap Event.result?).map answer = events.filterMap Event.response? ++ left

theorem Answers.append {events more : List Event} {left : List ApiResponseData}
    (before : Answers events []) (later : Answers more left) : Answers (events ++ more) left := by
  simp only [Answers,List.append_nil] at before later ⊢
  rw [List.filterMap_append,List.filterMap_append,List.map_append,before,later,List.append_assoc]

theorem Answers.flatMap {α : Type} {events : α → List Event} {items : List α}
    (each : ∀ item ∈ items, Answers (events item) []) : Answers (items.flatMap events) [] := by
  induction items with
  | nil => rfl
  | cons item items ih =>
    rw [List.flatMap_cons]
    rw [List.forall_mem_cons] at each
    exact each.1.append (ih each.2)

theorem Says.answers {items : List (Announcement Sec ⊕ String)} {events : List Event}
    (said : List.Forall₂ (Says topicPrefix sections name) items events) : Answers events [] := by
  induction said with
  | nil => rfl
  | @cons item event _ _ head _ ih =>
    have quiet : Answers [event] [] := by
      cases item with
      | inl announcement =>
        obtain ⟨state,rfl⟩ := head
        cases announcement <;> rfl
      | inr topicPath =>
        cases head
        rfl
    exact quiet.append ih

theorem Serves.answers {events left : List Event} {untold : List ApiResponseData}
    (serves : Serves topicPrefix sections name events left) (rest : Answers left untold) :
    Answers events untold := by
  obtain ⟨said,exchanges,greets,rfl⟩ := serves
  have exchanged : Answers (exchanges.flatMap (Exchange.events topicPrefix)) [] := by
    apply Answers.flatMap
    intro exchange _
    cases exchange <;> rfl
  exact ((Says.answers greets).append exchanged).append rest

theorem Answers.began {events : List Event} {left : List ApiResponseData}
    (answers : Answers events left) : Answers (.began::events) left := answers

theorem Over.answers {events : List Event} (ended : Over topicPrefix sections name events) :
    Answers (.began::events) [] := by
  apply Answers.began
  cases ended with
  | broken done early said => exact Says.answers said
  | served serves => exact serves.answers rfl

def Stage.panicked : Stage Sec → Bool
  | .leaving panicking | .dropped panicking | .gone panicking => panicking
  | _ => false

/-- The one answer that may be missing: it is to be given next, or the thread has panicked. -/
def Missing (stage : Stage Sec) (left : List ApiResponseData) : Prop :=
  left = [] ∨ ∃ data, left = [data] ∧ (stage = .answering data ∨ stage.panicked = true)

theorem Now.answers {events : List Event} {stage : Stage Sec}
    (now : Now topicPrefix sections name events stage) :
    ∃ left, Answers events left ∧ Missing stage left := by
  cases stage with
  | looping | connecting =>
    cases now
    exact ⟨[],rfl,.inl rfl⟩
  | publishing left | subscribing left =>
    obtain ⟨done,said,rfl,_,greets⟩ := now
    exact ⟨[],(Says.answers greets).began,.inl rfl⟩
  | serving | terminating | awaiting | processing msg =>
    obtain ⟨rest,rfl,serves⟩ := now
    exact ⟨[],(serves.answers rfl).began,.inl rfl⟩
  | answering data =>
    obtain ⟨rest,msg,result,rfl,rfl,serves⟩ := now
    exact ⟨[answer result],(serves.answers rfl).began,.inr ⟨_,rfl,.inl rfl⟩⟩
  | leaving panicking | dropped panicking | gone panicking =>
    cases panicking with
    | false =>
      cases now
      exact ⟨[],rfl,.inl rfl⟩
    | true =>
      obtain ⟨rest,left,rfl,unanswered,serves⟩ := now
      cases unanswered with
      | locked | failed msg => exact ⟨[],(serves.answers rfl).began,.inl rfl⟩
      | unpublished msg result =>
        exact ⟨[answer result],(serves.answers rfl).began,.inr ⟨_,rfl,.inr rfl⟩⟩

/-- Whatever the client and the other threads do: each connection is greeted in full, served and
left before the next, and everything that is processed to an end is answered, once and in order. -/
theorem protocol_kept {w₀ : W} {s : Session Sec} {w : W}
    (reached : Reachable topicPrefix sections name surroundings w₀ (s,w)) :
    Orderly topicPrefix sections name s ∧ ∃ left, Answers s.trace left ∧ Missing s.stage left := by
  have orderly := orderly_reachable surroundings reached
  refine ⟨orderly,?_⟩
  obtain ⟨past,now,trace,earlier,here⟩ := orderly
  obtain ⟨left,last,missing⟩ := here.answers
  rw [trace]
  exact ⟨left,(Answers.flatMap fun events member => (earlier events member).answers).append last,
    missing⟩

end Protocol

section Alone

private def otherPath : TopicPath := topicPath "rinklers/+" (by decide)

/-- A thread whose surroundings are the flag only, with no sections. -/
private def alone : Surroundings Nat Bool where
  running w := w
  state _ _ := false
  process msg w result next := next = w ∧ result = (processMsg ChronoModel.duration textDecoders
    prefixPath ([] : List Nat) (fun _ => "") msg
      (SectionRunner.World.new (SectionRunner.atSecond 0))).1
  poisoned _ _ := False
  others w next := w = next ∨ next = false
  process_running done := done.1
  others_running := by
    rintro w next (rfl | rfl) stopped
    · exact stopped
    · rfl

private def stranger : Message := ⟨otherPath,[]⟩

private abbrev strangerResult : Except ApiError ApiResponse := .error (.invalidPath "rinklers/+")

private abbrev oneExchange : List Event :=
  [.began,.published "rinklers/connected" .connected,.published "rinklers/sections" (.sections []),
    .subscribed "rinklers/sections/+/set_state",.subscribed "rinklers/sections/+/run_for",.awaited,
    .processed stranger (some strangerResult)]

private theorem own {s next : Session Nat} {w after : Bool}
    (reached : Reachable "rinklers/" [] (fun _ => "") alone true (s,w))
    (step : Step "rinklers/" [] (fun _ => "") alone s w next after) :
    Reachable "rinklers/" [] (fun _ => "") alone true (next,after) :=
  reached.tail (.inl step)

private theorem oneExchange_reached : Reachable "rinklers/" [] (fun _ => "") alone true
    (⟨.answering (answer strangerResult),true,oneExchange⟩,true) := by
  have greeted := own (own (own (own (own .refl (.continues rfl rfl)) (.begins rfl))
    (.publishes _ _ rfl)) (.publishes _ _ rfl)) (.published rfl)
  have serving := own (own (own greeted (.subscribes _ _ rfl)) (.subscribes _ _ rfl))
    (.subscribed rfl)
  exact own (own (own serving (.awaits rfl rfl)) (.receives stranger rfl))
    (.processes stranger strangerResult true rfl ⟨rfl,rfl⟩)

theorem protocol_kept_in_an_exchange :
    Orderly "rinklers/" [] (fun _ => "")
      (⟨.answering (answer strangerResult),true,oneExchange⟩ : Session Nat) ∧
      ∃ left, Answers oneExchange left ∧
        Missing (.answering (answer strangerResult) : Stage Nat) left :=
  protocol_kept alone oneExchange_reached

end Alone

section Stop
variable (topicPrefix : String) (sections : List Sec) (name : Sec → String)
  (surroundings : Surroundings Sec W)

/-- How many more steps the thread can take once `running` is false. -/
def Stage.rank : Stage Sec → Nat
  | .gone _ => 0
  | .dropped _ => 1
  | .leaving _ => 2
  | .looping => 3
  | .terminating => 4
  | .serving => 5
  | .answering _ => 6
  | .processing _ => 7
  | .awaiting => 8
  | .subscribing left => 6 + left.length
  | .publishing left => 9 + left.length
  | .connecting => 12 + 2 * sections.length

/-- Whether one more message may be processed once `running` is false: the thread has one, or is in
a call of `await` that may return one. -/
def Stage.pending : Stage Sec → Nat
  | .awaiting | .processing _ => 1
  | _ => 0

def Event.isProcessed : Event → Bool
  | .processed _ _ => true
  | _ => false

def Event.isAwaited : Event → Bool
  | .awaited => true
  | _ => false

def Session.processed (s : Session Sec) : Nat := s.trace.countP Event.isProcessed

def Session.awaited (s : Session Sec) : Nat := s.trace.countP Event.isAwaited

theorem initialPubs_length : (initialPubs sections).length = 2 + 2 * sections.length := by
  have pairs : ∀ items : List (Sec × Nat), (items.flatMap (fun (sec, i) =>
      [Announcement.sectionConfig i sec,.state i sec])).length = 2 * items.length := by
    intro items
    induction items with
    | nil => rfl
    | cons item items ih =>
      rw [List.flatMap_cons,List.length_append,ih]
      simp only [List.length_cons,List.length_nil]
      omega
  simp only [initialPubs,List.length_cons,pairs,List.length_zipIdx]
  omega

variable {topicPrefix sections name surroundings}

theorem greeting_length : (greeting topicPrefix sections).length = 4 + 2 * sections.length := by
  simp only [greeting,List.length_append,List.length_map,initialPubs_length,initialSubs,
    List.length_cons,List.length_nil]
  omega

theorem Orderly.rank_le {s : Session Sec} (orderly : Orderly topicPrefix sections name s) :
    s.stage.rank sections ≤ 12 + 2 * sections.length := by
  obtain ⟨_,now,_,_,here⟩ := orderly
  cases stage : s.stage with
  | publishing left =>
    rw [stage] at here
    obtain ⟨done,_,_,parts,_⟩ := here
    have lengths := congrArg List.length parts
    simp only [greeting_length,List.length_append,List.length_map,initialSubs,List.length_cons,
      List.length_nil] at lengths
    simp only [Stage.rank]
    omega
  | subscribing left =>
    rw [stage] at here
    obtain ⟨done,_,_,parts,_⟩ := here
    have lengths := congrArg List.length parts
    simp only [greeting_length,List.length_append,List.length_map] at lengths
    simp only [Stage.rank]
    omega
  | _ =>
    simp only [Stage.rank]
    omega

private theorem stopping_step {s next : Session Sec} {w after : W}
    (stopped : surroundings.running w = false)
    (step : Step topicPrefix sections name surroundings s w next after) :
    surroundings.running after = false ∧ next.stage.rank sections < s.stage.rank sections ∧
      next.processed + next.stage.pending ≤ s.processed + s.stage.pending ∧
      next.awaited = s.awaited := by
  cases step with
  | continues here running | awaits here running =>
    rw [stopped] at running
    cases running
  | processes msg result _ here done | panics msg _ here done =>
    refine ⟨(surroundings.process_running done).trans stopped,?_,?_,?_⟩
    · simp [Session.after,Stage.rank,here]
    · simp [Session.after,Session.processed,Stage.pending,here,Event.isProcessed]
    · simp [Session.after,Session.awaited,Event.isAwaited]
  | _ =>
    refine ⟨stopped,?_,?_,?_⟩
    · simp [Session.goTo,Session.after,Stage.rank,initialPubs_length,initialSubs, *] <;> omega
    · simp [Session.goTo,Session.after,Session.processed,Stage.pending,Event.isProcessed, *]
    · simp [Session.goTo,Session.after,Session.awaited,Event.isAwaited]

theorem step_gone {s next : Session Sec} {w after : W} {panicking : Bool}
    (gone : s.stage = .gone panicking) :
    ¬ Step topicPrefix sections name surroundings s w next after := by
  intro step
  cases step <;> simp_all

theorem step_panicked {s next : Session Sec} {w after : W}
    (step : Step topicPrefix sections name surroundings s w next after)
    (panicked : s.stage.panicked = true) : next.stage.panicked = true := by
  cases step with
  | dropsRunning panicking here | dropsState panicking here =>
    rw [here] at panicked
    exact panicked
  | _ => simp_all [Stage.panicked]

/-- Without a message in hand, the thread waits for nothing but the end of a call of its client. -/
theorem step_exists (s : Session Sec) (w : W) (staying : ∀ panicking, s.stage ≠ .gone panicking)
    (free : ∀ msg, s.stage ≠ .processing msg) :
    ∃ next, Step topicPrefix sections name surroundings s w next w := by
  cases here : s.stage with
  | looping =>
    cases running : surroundings.running w with
    | true => exact ⟨_,.continues here running⟩
    | false => exact ⟨_,.ends here running⟩
  | connecting => exact ⟨_,.begins here⟩
  | publishing left =>
    cases left with
    | nil => exact ⟨_,.published here⟩
    | cons announcement left => exact ⟨_,.publishes announcement left here⟩
  | subscribing left =>
    cases left with
    | nil => exact ⟨_,.subscribed here⟩
    | cons topicPath left => exact ⟨_,.subscribes topicPath left here⟩
  | serving =>
    cases running : surroundings.running w with
    | true => exact ⟨_,.awaits here running⟩
    | false => exact ⟨_,.stops here running⟩
  | awaiting => exact ⟨_,.nothing here⟩
  | processing msg => exact absurd here (free msg)
  | answering data => exact ⟨_,.answers data here⟩
  | terminating => exact ⟨_,.terminates here⟩
  | leaving panicking => exact ⟨_,.dropsRunning panicking here⟩
  | dropped panicking => exact ⟨_,.dropsState panicking here⟩
  | gone panicking => exact absurd here (staying panicking)

private theorem stopping_kept {before after : Session Sec × W}
    (stopped : surroundings.running before.2 = false)
    (step : OwnStep topicPrefix sections name surroundings before after ∨
      OtherStep surroundings before after) :
    surroundings.running after.2 = false ∧
      after.1.processed + after.1.stage.pending ≤ before.1.processed + before.1.stage.pending ∧
      after.1.awaited = before.1.awaited := by
  rcases step with own | ⟨same,others⟩
  · obtain ⟨still,_,counts⟩ := stopping_step stopped own
    exact ⟨still,counts⟩
  · rw [same]
    exact ⟨surroundings.others_running others stopped,le_refl _,rfl⟩

/-- Once `running` is false, the thread leaves: it calls `await` no more, processes the message that
it has or that the call of `await` it is in still brings it, and no other, and only so many steps of
its own are left to it. -/
theorem stops_soon {w₀ : W} {s final : Session Sec} {w last : W} {n : Nat}
    (reached : Reachable topicPrefix sections name surroundings w₀ (s,w))
    (stopped : surroundings.running w = false)
    (run : Counted (OwnStep topicPrefix sections name surroundings) (OtherStep surroundings) n
      (s,w) (final,last)) :
    n + final.stage.rank sections ≤ 12 + 2 * sections.length ∧
      final.awaited = s.awaited ∧ final.processed ≤ s.processed + s.stage.pending ∧
      ((∀ panicking, final.stage ≠ .gone panicking) → (∀ msg, final.stage ≠ .processing msg) →
        ∃ next, Step topicPrefix sections name surroundings final last next last) := by
  have orderly := orderly_reachable surroundings reached
  have few : n + final.stage.rank sections ≤ s.stage.rank sections := by
    apply @Counted.bounded _ _ _ (fun state => surroundings.running state.2 = false)
      (fun state => state.1.stage.rank sections) _ _ _ _ _ _ run stopped
    · exact fun _ _ still step => (stopping_kept still step).1
    · exact fun _ _ still own => (stopping_step still own).2.1
    · rintro before after _ ⟨same,_⟩
      rw [same]
  have counts : surroundings.running last = false ∧
      final.processed + final.stage.pending ≤ s.processed + s.stage.pending ∧
      final.awaited = s.awaited := by
    apply @Counted.invariant _ _ _ (fun state => surroundings.running state.2 = false ∧
      state.1.processed + state.1.stage.pending ≤ s.processed + s.stage.pending ∧
      state.1.awaited = s.awaited) _ _ _ _ run ⟨stopped,le_refl _,rfl⟩
    rintro before after ⟨still,pending,awaited⟩ step
    obtain ⟨next,fewer,same⟩ := stopping_kept still step
    exact ⟨next,le_trans fewer pending,same.trans awaited⟩
  have processed := le_trans (Nat.le_add_right _ _) counts.2.1
  exact ⟨le_trans few orderly.rank_le,counts.2.2,processed,step_exists final last⟩

private theorem counted {n : Nat} {start : Session Nat × Bool} {s next : Session Nat}
    {w after : Bool}
    (run : Counted (OwnStep "rinklers/" [] (fun _ => "") alone) (OtherStep alone) n start (s,w))
    (step : Step "rinklers/" [] (fun _ => "") alone s w next after) :
    Counted (OwnStep "rinklers/" [] (fun _ => "") alone) (OtherStep alone) (n + 1) start
      (next,after) :=
  run.own step

theorem stops_soon_at_once :
    3 + (Stage.gone false : Stage Nat).rank ([] : List Nat) ≤ 12 + 2 * ([] : List Nat).length ∧
      (⟨.gone false,false,[]⟩ : Session Nat).awaited = (startNew : Session Nat).awaited ∧
      (⟨.gone false,false,[]⟩ : Session Nat).processed ≤ (startNew : Session Nat).processed +
        (startNew : Session Nat).stage.pending ∧
      ((∀ panicking, (Stage.gone false : Stage Nat) ≠ .gone panicking) →
        (∀ msg, (Stage.gone false : Stage Nat) ≠ .processing msg) →
        ∃ next, Step "rinklers/" [] (fun _ => "") alone ⟨.gone false,false,[]⟩ false next false) := by
  have start : Reachable "rinklers/" [] (fun _ => "") alone false (startNew,false) := .refl
  have run : Counted (OwnStep "rinklers/" [] (fun _ => "") alone) (OtherStep alone) 3
      (startNew,false) (⟨.gone false,false,[]⟩,false) :=
    counted (counted (counted (.refl _) (.ends rfl rfl)) (.dropsRunning false rfl))
      (.dropsState false rfl)
  exact stops_soon start rfl run

end Stop
end Rinklers.MqttApi
