import GameTimeline.Json.Token
import GameTimeline.Json.Printer

namespace GameTimeline.Json

namespace Parser

inductive Place where
  | items (done : List Spelled)
  | members (done : List (List Char × Spelled)) (key : List Char)

inductive Expect where
  | value
  | itemOrClose
  | keyOrClose (done : List (List Char × Spelled))
  | key (done : List (List Char × Spelled))
  | colon (done : List (List Char × Spelled)) (key : List Char)
  | commaOrClose
  | finished (s : Spelled)

structure State where
  places : List Place
  expect : Expect

def start : State := ⟨[], .value⟩

def close : List Place → Spelled → State
  | [], s => ⟨[], .finished s⟩
  | .items done :: r, s => ⟨.items (s :: done) :: r, .commaOrClose⟩
  | .members done k :: r, s => ⟨.members ((k, s) :: done) k :: r, .commaOrClose⟩

def startValue (places : List Place) : Token → Option State
  | .text t => some (close places (.str t))
  | .scalar s => some (close places s)
  | .openArray => some ⟨.items [] :: places, .itemOrClose⟩
  | .openObject => some ⟨places, .keyOrClose []⟩
  | _ => none

def step (s : State) (t : Token) : Option State :=
  match s.expect, t, s.places with
  | .value, t, r => startValue r t
  | .itemOrClose, .closeArray, .items _ :: r => some (close r (.arr []))
  | .itemOrClose, t, r => startValue r t
  | .keyOrClose _, .closeObject, r => some (close r (.obj []))
  | .keyOrClose done, .text k, r => some ⟨r, .colon done k⟩
  | .key done, .text k, r => some ⟨r, .colon done k⟩
  | .colon done k, .colon, r => some ⟨.members done k :: r, .value⟩
  | .commaOrClose, .comma, .items done :: r => some ⟨.items done :: r, .value⟩
  | .commaOrClose, .comma, .members done _ :: r => some ⟨r, .key done⟩
  | .commaOrClose, .closeArray, .items done :: r => some (close r (.arr done.reverse))
  | .commaOrClose, .closeObject, .members done _ :: r => some (close r (.obj done.reverse))
  | _, _, _ => none

def State.result? (s : State) : Option Spelled :=
  match s.expect with
  | .finished s => some s
  | _ => none

end Parser

def Spelled.ofText? (text : String) : Option Spelled := do
  let tokens ← Token.scan text.toList
  let s ← tokens.foldlM Parser.step Parser.start
  s.result?

def parse? (text : String) : Option Json :=
  (Spelled.ofText? text).bind (·.value? Spelled.depthLimit)

end GameTimeline.Json
