import GameTimeline.Capture.Stream

namespace GameTimeline

namespace PixelCode

def encode : Option UInt16 → Color
  | some v => ⟨(v >>> 8).toUInt8, v.toUInt8, 255⟩
  | none => .black

def value (c : Color) : UInt16 := UInt16.ofNat (256 * c.red.toNat + c.green.toNat)

def clarity (marker : UInt8) : Float32 := Float32.ofNat marker.toNat / 255

def decode (c : Color) : Option (UInt16 × Float32) :=
  if c.blue = 0 then none else some (value c, clarity c.blue)

def recognizer : Recognizer where
  name := "pixel-code"
  recognize _ crop :=
    match decode crop.mean with
    | some (v, c) => ⟨some (.int (Int64.ofNat v.toNat)), some c⟩
    | none => ⟨none, none⟩

end PixelCode

structure RowLayout where
  version : String
  participant : Option Nat
  layout : Layout

namespace RowLayout

def cell : Nat := 8

def sortNames (names : List String) : List String := names.mergeSort fun a b => decide (a ≤ b)

def cellAt (i : Nat) : Region := ⟨i * cell, 0, cell, cell⟩

def row (version : String) (participant : Option Nat) (fields : List String) : RowLayout :=
  ⟨version, participant, .ofList ((sortNames fields).zipIdx.map fun e => (e.1, cellAt e.2))⟩

/-- Not reduced modulo `2 ^ 32`: a row of `2 ^ 29` names or more is wider here than 32 bits can say. -/
def width (l : RowLayout) : Nat := max l.layout.size 1 * cell

def height : Nat := cell

def resolve (l : RowLayout) : LayoutResolver := fun session width height =>
  if session.gameVersion ≠ l.version then
    .error (.unknownLayout session.gameVersion width height)
  else if l.participant.isSome ∧ session.participant ≠ l.participant then
    .error (.unknownParticipant session.gameVersion session.participant)
  else .ok l.layout

end RowLayout

structure DimMark where
  field : String
  frame : Nat
  marker : UInt8
  deriving DecidableEq, Repr, Inhabited

structure SyntheticVideo where
  layout : RowLayout
  fps : Float
  frameCount : Nat
  script : Table (List (Option UInt16))
  dim : List DimMark

namespace SyntheticVideo

def shown (v : SyntheticVideo) (field : String) (index : Nat) : Option UInt16 :=
  ((v.script.get? field).bind (·[index]?)).join

def marker (v : SyntheticVideo) (field : String) (index : Nat) : Option UInt8 :=
  (v.dim.reverse.find? fun d => d.field = field && d.frame = index).map fun d => max d.marker 1

def color (v : SyntheticVideo) (field : String) (index : Nat) : Color :=
  match v.shown field index with
  | none => .black
  | some n => { PixelCode.encode (some n) with blue := (v.marker field index).getD 255 }

def paint (v : SyntheticVideo) (index : Nat) : Image :=
  v.layout.layout.entries.foldl (fun i e => i.fillRegion e.2 (v.color e.1 index))
    (.filled v.layout.width RowLayout.height .black)

def read (v : SyntheticVideo) (index : Nat) : Except CaptureError Image :=
  if index < v.frameCount then .ok (v.paint index)
  else .error (.frameOutOfRange index v.frameCount)

def source (v : SyntheticVideo) : FrameSource :=
  ⟨⟨v.frameCount, v.layout.width, RowLayout.height, v.fps⟩, v.read⟩

end SyntheticVideo

end GameTimeline
