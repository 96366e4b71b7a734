import GameTimeline.Capture.Plan
import GameTimeline.Capture.Session
import GameTimeline.Command.Failure
import GameTimeline.Digest.Sha256
import GameTimeline.Text.Bytes

namespace GameTimeline.Command

abbrev Files := String → Option (List UInt8)

structure Selection where
  input : String
  configs : List String
  firstFrame : Option Nat
  lastFrame : Option Int64
  strict : Bool

structure InputStream where
  frames : List RawFrame
  hash : String

structure Reconciled where
  configHash : String
  inputHash : String
  timeline : Timeline
  quality : QualityReport

def readConfig (files : Files) (path : String) : Except Failure String :=
  ((files path).bind Text.ofUtf8?).elim (.error (.configPath path)) .ok

def loadConfig (files : Files) (paths : List String) : Except Failure Config.Loaded := do
  let docs ← paths.mapM (readConfig files)
  (Config.Loaded.ofTexts docs).mapError .configText

def policy (strict : Bool) : Config.UnusedPolicy := if strict then .fail else .warn

def parseStream (path : String) (bytes : List UInt8) : Except Failure (List RawFrame) :=
  (RawFrame.ofBytes? bytes).elim (.error (.inputText path)) .ok

def readStream (files : Files) (path : String) : Except Failure InputStream := do
  let bytes ← (files path).elim (.error (.inputPath path)) .ok
  let frames ← parseStream path bytes
  pure ⟨frames, Digest.Sha256.hex bytes⟩

namespace Selection

def loadConfig (s : Selection) (files : Files) (mode : Config.Mode) :
    Except Failure Config.Loaded := do
  let loaded ← Command.loadConfig files s.configs
  let _ ← (Config.reportUnused mode (policy s.strict) loaded.config).mapError Failure.unusedKeys
  pure loaded

def limit (n : Int64) : Option Nat := if n < 0 then none else some n.toInt.toNat

def window (s : Selection) (config : Json) : Except Failure SamplingPlan := do
  let plan ← (SamplingPlan.ofJson config).mapError Failure.configCapture
  let plan := { plan with
    firstFrame := s.firstFrame.getD plan.firstFrame
    lastFrame := s.lastFrame.elim plan.lastFrame limit }
  plan.validate.mapError Failure.plan
  pure plan

def inWindow (plan : SamplingPlan) (frames : List RawFrame) : List RawFrame :=
  frames.filter fun f => plan.contains f.frame

def reconcile (s : Selection) (files : Files) (mode : Config.Mode) :
    Except Failure Reconciled := do
  let loaded ← s.loadConfig files mode
  let _ ← (Session.ofJson loaded.config).mapError Failure.configCapture
  let models ← (ModelSet.ofJson loaded.config).mapError Failure.configRule
  let plan ← s.window loaded.config
  let stream ← readStream files s.input
  let (timeline, quality) ←
    (assemble models (inWindow plan stream.frames)).mapError (Failure.reconcile s.input)
  pure ⟨loaded.hash, stream.hash, timeline, quality⟩

end Selection

end GameTimeline.Command
