import GameTimeline.Field.Value
import GameTimeline.Json.Bytes

namespace GameTimeline

structure RawFrame where
  frame : Nat
  timestamp : Float
  readings : Table Reading
  confidence : Table Float32
  deriving DecidableEq, Inhabited

namespace RawFrame

def new (frame : Nat) (timestamp : Float) : RawFrame := ⟨frame, timestamp, .empty, .empty⟩

def reading (f : RawFrame) (field : String) : Reading := (f.readings.get? field).join

def confidenceOf (f : RawFrame) (field : String) : Option Float32 := f.confidence.get? field

def withReading (f : RawFrame) (field : String) (r : Reading) : RawFrame :=
  { f with readings := f.readings.insert field r }

def withConfidence (f : RawFrame) (field : String) (c : Float32) : RawFrame :=
  { f with confidence := f.confidence.insert field c }

def unknownConfidence : Float32 := Float32.ofBits 0x7fc00000

def readConfidence (j : Json) : Float32 := (j.float?.map Decimal.narrow).getD unknownConfidence

def parts : List String := ["frame", "timestamp", "readings", "confidence"]

def ofJson? (j : Json) : Option RawFrame := do
  let ps ← j.parts? parts
  let frame ← (Json.part ps 0).bind Json.word?
  let timestamp ← (Json.part ps 1).bind Json.float?
  let readings ← Json.defaulted? (Json.tableOf? (some ∘ Reading.ofJson)) .empty (Json.part ps 2)
  let confidence ← Json.defaulted? (Json.tableOf? (some ∘ readConfidence)) .empty (Json.part ps 3)
  pure ⟨frame, timestamp, readings, confidence⟩

def toJson (f : RawFrame) : Json :=
  .obj ([("frame", .nat f.frame), ("timestamp", .float f.timestamp),
      ("readings", .table Reading.toJson f.readings)] ++
    (if f.confidence.isEmpty then [] else [("confidence", .table Json.single f.confidence)]))

def writeAll (fs : List RawFrame) : String := (Json.arr (fs.map toJson)).pretty ++ "\n"

def readAll? (text : String) : Option (List RawFrame) := do
  let s ← Json.Spelled.ofText? text
  let records ← s.records? parts
  records.mapM ofJson?

def ofBytes? (bytes : List UInt8) : Option (List RawFrame) := do
  let s ← Json.Spelled.ofBytes? (Text.dropByteOrderMark bytes)
  let records ← s.byteRecords? parts
  records.mapM ofJson?

end RawFrame

end GameTimeline
