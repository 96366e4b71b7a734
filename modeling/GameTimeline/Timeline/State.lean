import GameTimeline.Timeline.RawFrame

namespace GameTimeline

inductive Provenance where
  | observed
  | held
  | revised
  | frozen
  | unresolved
  deriving DecidableEq, Repr, Inhabited

namespace Provenance

def name : Provenance → String
  | .observed => "observed"
  | .held => "held"
  | .revised => "revised"
  | .frozen => "frozen"
  | .unresolved => "unresolved"

def ofName? : String → Option Provenance
  | "observed" => some .observed
  | "held" => some .held
  | "revised" => some .revised
  | "frozen" => some .frozen
  | "unresolved" => some .unresolved
  | _ => none

theorem ofName?_name (p : Provenance) : ofName? p.name = some p := by
  cases p <;> rfl

end Provenance

structure CorrectedState where
  frame : Nat
  timestamp : Float
  fields : Table Reading
  provenance : Table Provenance
  deriving Inhabited

namespace CorrectedState

def value (s : CorrectedState) (field : String) : Reading := (s.fields.get? field).join

def toRaw (s : CorrectedState) : RawFrame := ⟨s.frame, s.timestamp, s.fields, .empty⟩

def parts : List String := ["frame", "timestamp", "fields", "provenance"]

def ofJson? (j : Json) : Option CorrectedState := do
  let ps ← j.parts? parts
  let frame ← (Json.part ps 0).bind Json.word?
  let timestamp ← (Json.part ps 1).bind Json.float?
  let fields ← (Json.part ps 2).bind (Json.tableOf? (some ∘ Reading.ofJson))
  let provenance ← Json.defaulted? (Json.tableOf? (Json.choice? Provenance.ofName?)) .empty
    (Json.part ps 3)
  pure ⟨frame, timestamp, fields, provenance⟩

def toJson (s : CorrectedState) : Json :=
  .obj [("frame", .nat s.frame), ("timestamp", .float s.timestamp),
    ("fields", .table Reading.toJson s.fields),
    ("provenance", .table (fun p => .str p.name) s.provenance)]

end CorrectedState

end GameTimeline
