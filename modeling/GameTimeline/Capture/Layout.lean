import GameTimeline.Capture.Error

namespace GameTimeline

abbrev Layout := Table Region

namespace Layout

def validate (l : Layout) (width height : Nat) : Except CaptureError Unit :=
  match l.entries.find? fun e => !e.2.fits width height with
  | some e => .error (.regionOutOfBounds (some e.1) e.2 width height)
  | none => .ok ()

end Layout

end GameTimeline
