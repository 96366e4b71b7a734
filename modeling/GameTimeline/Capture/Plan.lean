import GameTimeline.Capture.Error
import GameTimeline.Json.Pointer

namespace GameTimeline

structure VideoProps where
  frameCount : Nat
  width : Nat
  height : Nat
  fps : Float
  deriving Inhabited

structure FrameIndices where
  first : Nat
  last : Nat
  stride : Nat
  deriving DecidableEq, Repr, Inhabited

namespace FrameIndices

def count (i : FrameIndices) : Nat := (i.last - i.first + i.stride - 1) / i.stride

def get (i : FrameIndices) (k : Nat) : Nat := i.first + k * i.stride

def take (i : FrameIndices) (n : Nat) : List Nat := (List.range (min n i.count)).map i.get

def toList (i : FrameIndices) : List Nat := i.take i.count

end FrameIndices

structure SamplingPlan where
  firstFrame : Nat
  lastFrame : Option Nat
  framesPerSec : Float
  parallelRegions : Bool
  deriving Inhabited

namespace SamplingPlan

def standard : SamplingPlan := ⟨0, none, 10, false⟩

def readFirst (j : Json) : Except CaptureError Nat :=
  j.nat?.elim (.error (.invalidPlan (.firstFrame j))) .ok

def readLast (j : Json) : Except CaptureError (Option Nat) :=
  match j.int64? with
  | some n => .ok (if n < 0 then none else some n.toInt.toNat)
  | none => .error (.invalidPlan (.lastFrame j))

def readRate (j : Json) : Except CaptureError Float :=
  j.float?.elim (.error (.invalidPlan (.rate j))) .ok

def ofSection (j : Json) : Except CaptureError SamplingPlan := do
  let first ← (j.member? "first_frame").elim (.ok standard.firstFrame) readFirst
  let last ← (j.member? "last_frame").elim (.ok standard.lastFrame) readLast
  let rate ← (j.member? "frames_per_sec").elim (.ok standard.framesPerSec) readRate
  pure ⟨first, last, rate, ((j.member? "parallel_regions").bind Json.bool?).getD false⟩

def ofJson (config : Json) : Except CaptureError SamplingPlan :=
  match (config.child? "sampling").filter fun j => !j.isNull with
  | none => .ok standard
  | some j => ofSection j

def isPositive (x : Float) : Bool := x.isFinite && 0 < x

def validate (p : SamplingPlan) : Except CaptureError Unit :=
  if ¬ isPositive p.framesPerSec then .error (.invalidPlan (.rateNotPositive p.framesPerSec))
  else match p.lastFrame with
    | some last =>
        if last ≤ p.firstFrame then .error (.invalidPlan (.emptyWindow p.firstFrame last))
        else .ok ()
    | none => .ok ()

def stride (p : SamplingPlan) (fps : Float) : Except CaptureError Nat := do
  p.validate
  if ¬ isPositive fps then .error (.invalidPlan (.videoRateNotPositive fps))
  else .ok (max (Decimal.toWord (fps / p.framesPerSec)) 1)

def frameIndices (p : SamplingPlan) (v : VideoProps) : Except CaptureError FrameIndices := do
  let stride ← p.stride v.fps
  let last := min (p.lastFrame.getD v.frameCount) v.frameCount
  if last ≤ p.firstFrame then .error (.invalidPlan (.emptyWindow p.firstFrame last))
  else .ok ⟨p.firstFrame, last, stride⟩

def contains (p : SamplingPlan) (frame : Nat) : Bool :=
  p.firstFrame ≤ frame && p.lastFrame.all (frame < ·)

end SamplingPlan

end GameTimeline
