import GameTimeline.Json.Printer
import GameTimeline.Json.Record

namespace GameTimeline

/-- What a reading shows. A document that is neither a flag, a word-sized whole number nor a text is
kept as its spelling. -/
inductive FieldValue where
  | flag (b : Bool)
  | int (n : Int64)
  | text (s : String)
  | unsupported (spelling : String)
  deriving DecidableEq, Repr, Inhabited

namespace FieldValue

def ofJson (j : Json) : FieldValue :=
  match j with
  | .bool b => .flag b
  | .str s => .text s
  | _ =>
      match j.int64? with
      | some n => .int n
      | none => .unsupported j.sorted.compact

def toJson : FieldValue → Json
  | .flag b => .bool b
  | .int n => .int n.toInt
  | .text s => .str s
  | .unsupported s => .str s

def display : FieldValue → String
  | .flag b => String.ofList (Json.literal b)
  | .int n => Text.showInt n.toInt
  | .text s => s
  | .unsupported s => s

end FieldValue

abbrev Reading := Option FieldValue

namespace Reading

def ofJson : Json → Reading
  | .null => none
  | j => some (.ofJson j)

def toJson (r : Reading) : Json := Json.option FieldValue.toJson r

end Reading

end GameTimeline
