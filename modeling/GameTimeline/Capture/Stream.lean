import GameTimeline.Capture.Source
import GameTimeline.Timeline.RawFrame

namespace GameTimeline

structure SampledStream where
  source : FrameSource
  recognizer : Recognizer
  layout : Layout
  indices : FrameIndices
  parallel : Bool

namespace SampledStream

def openOn (source : FrameSource) (resolver : LayoutResolver) (session : Session)
    (recognizer : Recognizer) (plan : SamplingPlan) : Except CaptureError SampledStream := do
  let v := source.props
  let indices ← plan.frameIndices v
  let layout ← resolver session v.width v.height
  layout.validate v.width v.height
  pure ⟨source, recognizer, layout, indices, plan.parallelRegions⟩

def recognizeSequential (l : Layout) (r : Recognizer) (image : Image) :
    Except CaptureError (List (String × Recognition)) :=
  l.entries.mapM fun e => do
    let crop ← image.crop e.2
    pure (e.1, r.recognize e.1 crop)

def recognizeParallel (l : Layout) (r : Recognizer) (image : Image) :
    Except CaptureError (List (String × Recognition)) := do
  let crops ← l.entries.mapM fun e => (image.crop e.2).map fun c => (e.1, c)
  pure (crops.map fun c => (c.1, r.recognize c.1 c.2))

def addRecognition (f : RawFrame) (e : String × Recognition) : RawFrame :=
  let f := e.2.confidence.elim f (f.withConfidence e.1)
  f.withReading e.1 e.2.value

def sample (s : SampledStream) (index : Nat) : Except CaptureError RawFrame := do
  let image ← s.source.read index
  let found ← if s.parallel then recognizeParallel s.layout s.recognizer image
    else recognizeSequential s.layout s.recognizer image
  let timestamp := Decimal.toFloat false index 0 / s.source.props.fps
  pure (found.foldl addRecognition (RawFrame.new index timestamp))

def runFrom (s : SampledStream) : Nat → Nat → List (Except CaptureError RawFrame)
  | 0, _ => []
  | left + 1, index =>
      match s.sample index with
      | .ok f => .ok f :: runFrom s left (index + s.indices.stride)
      | .error e => [.error e]

def run (s : SampledStream) : List (Except CaptureError RawFrame) :=
  s.runFrom s.indices.count s.indices.first

def reads (s : SampledStream) : Nat :=
  (s.indices.take s.run.length).countP fun i => (s.source.read i).isOk

end SampledStream

structure Sampling where
  stream : SampledStream
  index : Nat
  left : Nat
  failed : Bool

def SampledStream.start (s : SampledStream) : Sampling :=
  ⟨s, s.indices.first, s.indices.count, false⟩

namespace Sampling

def next (a : Sampling) : Option (Except CaptureError RawFrame) × Sampling :=
  if a.failed then (none, a)
  else
    match a.left with
    | 0 => (none, a)
    | left + 1 =>
        let result := a.stream.sample a.index
        let index := a.index + a.stream.indices.stride
        (some result, { a with index, left, failed := !result.isOk })

def after (a : Sampling) : Nat → Sampling
  | 0 => a
  | n + 1 => a.next.2.after n

end Sampling

end GameTimeline
