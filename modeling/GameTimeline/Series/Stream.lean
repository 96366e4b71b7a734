import GameTimeline.Timeline.RawFrame

namespace GameTimeline

structure SeriesStream where
  firstFrame : Nat
  stride : Nat
  fps : Float
  series : Table (List Reading)
  deriving Inhabited

namespace SeriesStream

def new : SeriesStream := ⟨0, 1, 10, .empty⟩

def withFirstFrame (s : SeriesStream) (frame : Nat) : SeriesStream := { s with firstFrame := frame }

def withStride (s : SeriesStream) (stride : Nat) : SeriesStream := { s with stride := max stride 1 }

def withFps (s : SeriesStream) (fps : Float) : SeriesStream := { s with fps }

def withSeries (s : SeriesStream) (field : String) (values : List Reading) : SeriesStream :=
  { s with series := s.series.insert field values }

def length (s : SeriesStream) : Nat := s.series.values.foldl (fun n v => max n v.length) 0

def frameAt (s : SeriesStream) (i : Nat) : RawFrame :=
  let frame := s.firstFrame + i * s.stride
  ⟨frame, Decimal.toFloat false frame 0 / s.fps, s.series.map fun _ v => v[i]?.join, .empty⟩

def build (s : SeriesStream) : List RawFrame := (List.range s.length).map s.frameAt

end SeriesStream

end GameTimeline
