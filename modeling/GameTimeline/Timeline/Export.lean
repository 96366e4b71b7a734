import GameTimeline.Csv.Record
import GameTimeline.Timeline.Store

namespace GameTimeline.Timeline

def header (fields : List String) : List String := "frame" :: "timestamp" :: fields

def row (fields : List String) (s : CorrectedState) : List String :=
  Text.showNat s.frame :: Decimal.showFloat s.timestamp ::
    fields.map fun n => (s.value n).elim "" FieldValue.display

def rows (t : Timeline) : List (List String) :=
  header t.fieldNames :: t.toList.map (row t.fieldNames)

def csvBytes (t : Timeline) : List UInt8 := Csv.render (t.rows.map (·.map Text.utf8))

def jsonText (t : Timeline) (pretty : Bool) : String :=
  if pretty then t.toJson.pretty else t.toJson.compact

end GameTimeline.Timeline
