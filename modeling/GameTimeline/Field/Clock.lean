import GameTimeline.Text.Blank
import GameTimeline.Text.Digits

namespace GameTimeline.Clock

def groups : List Char → List (List Char)
  | [] => [[]]
  | c :: r =>
      if c = ':' then [] :: groups r
      else match groups r with
        | [] => [[c]]
        | g :: rest => (c :: g) :: rest

def group? (ds : List Char) : Option Int64 := (Text.nat? ds).bind fun n => Text.toInt64? n

def times? (a b : Int64) : Option Int64 := Text.toInt64? (a.toInt * b.toInt)

def plus? (a b : Int64) : Option Int64 := Text.toInt64? (a.toInt + b.toInt)

def seconds? : List Int64 → Option Int64
  | [m, s] => if s < 60 then (times? m 60).bind (plus? · s) else none
  | [h, m, s] => if m < 60 ∧ s < 60 then (times? h 3600).bind (plus? · (m * 60 + s)) else none
  | _ => none

def parse? (text : String) : Option Int64 := do
  let parts ← (groups (Text.trimChars text.toList)).mapM group?
  seconds? parts

end GameTimeline.Clock
