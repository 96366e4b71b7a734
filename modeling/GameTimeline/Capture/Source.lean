import GameTimeline.Capture.Image
import GameTimeline.Capture.Layout
import GameTimeline.Capture.Plan
import GameTimeline.Capture.Session
import GameTimeline.Field.Value

namespace GameTimeline

structure FrameSource where
  props : VideoProps
  read : Nat → Except CaptureError Image

abbrev LayoutResolver := Session → Nat → Nat → Except CaptureError Layout

structure Recognition where
  value : Reading
  confidence : Option Float32
  deriving Inhabited

structure Recognizer where
  name : String
  recognize : String → Image → Recognition

end GameTimeline
