import GameTimeline.Csv.Record
import GameTimeline.Decimal.Parser
import GameTimeline.Text.Blank
import GameTimeline.Timeline.RawFrame

namespace GameTimeline

inductive SeriesError where
  | header
  | columns
  | row (n : Nat)
  | frame (n : Nat)
  | timestamp (n : Nat)
  deriving DecidableEq, Repr

def SeriesError.message : SeriesError → String
  | .header => "read series csv header"
  | .columns => "series csv must start with frame,timestamp columns"
  | .row n => "read series csv row " ++ Text.showNat n
  | .frame n => "parse frame on row " ++ Text.showNat n
  | .timestamp n => "parse timestamp on row " ++ Text.showNat n

namespace SeriesCsv

def cell (text : String) : Reading :=
  let t := Text.trimChars text.toList
  if t.isEmpty then none
  else if t = Json.literal true then some (.flag true)
  else if t = Json.literal false then some (.flag false)
  else match Text.int64? t with
    | some n => some (.int n)
    | none => some (.text (String.ofList t))

def fieldNames : List String → Except SeriesError (List String)
  | "frame" :: "timestamp" :: fields => .ok fields
  | _ => .error .columns

def cells? (row : List (List UInt8)) : Option (List String) := row.mapM Text.ofUtf8?

def rawFrame (fields : List String) (n : Nat) (row : List (List UInt8)) :
    Except SeriesError RawFrame :=
  match cells? row with
  | some (frame :: timestamp :: values) =>
      if values.length = fields.length then
        match Text.word? (Text.trimChars frame.toList) with
        | none => .error (.frame n)
        | some f =>
            match Decimal.parse? (Text.trimChars timestamp.toList) with
            | none => .error (.timestamp n)
            | some t => .ok ⟨f, t, .ofList (fields.zip (values.map cell)), .empty⟩
      else .error (.row n)
  | _ => .error (.row n)

def rawFrames (fields : List String) : Nat → List (List (List UInt8)) →
    Except SeriesError (List RawFrame)
  | _, [] => .ok []
  | n, row :: r => do
      let f ← rawFrame fields n row
      let fs ← rawFrames fields (n + 1) r
      pure (f :: fs)

def load (bytes : List UInt8) : Except SeriesError (List RawFrame) := do
  let (head, rows) := match Csv.parse bytes with
    | [] => ([], [])
    | h :: r => (h, r)
  let names ← (cells? head).elim (.error .header) .ok
  let fields ← fieldNames names
  rawFrames fields 1 rows

end SeriesCsv

end GameTimeline
