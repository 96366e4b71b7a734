import GameTimeline.Timeline.State

namespace GameTimeline

structure Timeline where
  states : Array CorrectedState
  deriving Inhabited

namespace Timeline

def empty : Timeline := ⟨#[]⟩

def toList (t : Timeline) : List CorrectedState := t.states.toList

def size (t : Timeline) : Nat := t.states.size

def isEmpty (t : Timeline) : Bool := t.states.isEmpty

def lastFrame? (t : Timeline) : Option Nat := t.states.back?.map (·.frame)

def advances (t : Timeline) (frame : Nat) : Bool :=
  match t.lastFrame? with
  | none => true
  | some last => last < frame

def append (t : Timeline) (s : CorrectedState) : Timeline :=
  if t.advances s.frame then ⟨t.states.push s⟩ else t

theorem toList_append (t : Timeline) (s : CorrectedState) :
    (t.append s).toList = if t.advances s.frame then t.toList ++ [s] else t.toList := by
  simp only [append, toList]
  split <;> simp

def appendAll (t : Timeline) (ss : List CorrectedState) : Timeline := ss.foldl append t

def search (states : Array CorrectedState) (frame lo hi : Nat) : Option CorrectedState :=
  if lo < hi then
    let mid := (lo + hi) / 2
    match states[mid]? with
    | none => none
    | some s =>
        if s.frame = frame then some s
        else if s.frame < frame then search states frame (mid + 1) hi
        else search states frame lo mid
  else none
termination_by hi - lo

def get? (t : Timeline) (frame : Nat) : Option CorrectedState :=
  search t.states frame 0 t.states.size

def series (t : Timeline) (field : String) : List Reading := t.toList.map (·.value field)

def fieldNames (t : Timeline) : List String :=
  match t.toList with
  | [] => []
  | s :: _ => s.fields.keys

def toRawFrames (t : Timeline) : List RawFrame := t.toList.map (·.toRaw)

def ofJson? (j : Json) : Option Timeline :=
  (Json.listOf? CorrectedState.ofJson? j).map fun states => ⟨states.toArray⟩

def toJson (t : Timeline) : Json := .arr (t.toList.map (·.toJson))

end Timeline

end GameTimeline
