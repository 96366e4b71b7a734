import GameTimeline.Capture.Region
import GameTimeline.Json.Printer

namespace GameTimeline

inductive SessionFault where
  | gameVersion (found : Json)
  | participant (found : Json)

inductive PlanFault where
  | firstFrame (found : Json)
  | lastFrame (found : Json)
  | rate (found : Json)
  | rateNotPositive (rate : Float)
  | videoRateNotPositive (fps : Float)
  | emptyWindow (first last : Nat)

inductive CaptureError where
  | frameOutOfRange (index frameCount : Nat)
  | regionOutOfBounds (field : Option String) (region : Region) (width height : Nat)
  | unknownLayout (version : String) (width height : Nat)
  | unknownParticipant (version : String) (participant : Option Nat)
  | invalidSession (fault : SessionFault)
  | invalidPlan (fault : PlanFault)
  | bufferSize (found width height : Nat)

namespace CaptureError

def size (width height : Nat) : String := Text.showNat width ++ "x" ++ Text.showNat height

def sessionMessage : SessionFault → String
  | .gameVersion v => "game_version must be a non-empty string, got " ++ v.compact
  | .participant v => "participant must be a non-negative integer, got " ++ v.compact

def planMessage : PlanFault → String
  | .firstFrame v => "first_frame must be >= 0, got " ++ v.compact
  | .lastFrame v => "last_frame must be an integer, got " ++ v.compact
  | .rate v => "frames_per_sec must be a number, got " ++ v.compact
  | .rateNotPositive x => "frames_per_sec must be positive, got " ++ Decimal.showFloat x
  | .videoRateNotPositive x => "video fps must be positive, got " ++ Decimal.showFloat x
  | .emptyWindow a b =>
      "end frame must be after start frame (start " ++ Text.showNat a ++ ", end " ++
        Text.showNat b ++ ")"

def message : CaptureError → String
  | .frameOutOfRange i n =>
      "frame " ++ Text.showNat i ++ " out of range (video has " ++ Text.showNat n ++ " frames)"
  | .regionOutOfBounds (some f) r w h =>
      "region for '" ++ f ++ "' " ++ r.text ++ " falls outside " ++ size w h ++ " frame"
  | .regionOutOfBounds none r w h =>
      "region " ++ r.text ++ " falls outside " ++ size w h ++ " frame"
  | .unknownLayout v w h => "no layout for version " ++ v ++ " at " ++ size w h
  | .unknownParticipant v (some p) =>
      "no player regions for participant " ++ Text.showNat p ++ " in version " ++ v
  | .unknownParticipant v none => "version " ++ v ++ " layout needs a participant id"
  | .invalidSession f => "invalid session: " ++ sessionMessage f
  | .invalidPlan f => "invalid sampling plan: " ++ planMessage f
  | .bufferSize n w h =>
      "frame source error: frame buffer is " ++ Text.showNat n ++ " bytes, expected " ++
        Text.showNat (w * h * 3) ++ " for " ++ size w h ++ " RGB"

end CaptureError

end GameTimeline
