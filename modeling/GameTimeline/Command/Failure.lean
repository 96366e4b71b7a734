import GameTimeline.Capture.Error
import GameTimeline.Config.Layers
import GameTimeline.Config.Usage
import GameTimeline.Timeline.Builder

namespace GameTimeline

def BuildError.causes : BuildError → List String
  | .input (.rule r) => [InputError.message (.rule r), InputError.message (.rule r), r.message]
  | .input e => [e.message, e.message]
  | .poisoned => [BuildError.poisoned.message]

namespace Command

inductive Failure where
  | configPath (path : String)
  | configText (e : Yaml.Error)
  | unusedKeys (e : Config.UnusedKeys)
  | configRule (e : RuleError)
  | configCapture (e : CaptureError)
  | plan (e : CaptureError)
  | inputPath (path : String)
  | inputText (path : String)
  | reconcile (path : String) (e : BuildError)
  | write (path : String)
  | writeTable (path : String)
  | makeDirectories (path : String)

namespace Failure

def message : Failure → String
  | .configPath p => "failed to read yaml path: " ++ p
  | .configText e => e.message
  | .unusedKeys e => e.message
  | .configRule e => "CONFIG_INVALID: " ++ e.message
  | .configCapture e => "CONFIG_INVALID: " ++ e.message
  | .plan e => e.message
  | .inputPath p => "read input failed: " ++ p
  | .inputText p => "input must be a JSON array of raw frame records: " ++ p
  | .reconcile p _ => "reconcile failed: " ++ p
  | .write p => "write failed: " ++ p
  | .writeTable p => "create csv failed: " ++ p
  | .makeDirectories p => "create exports dir failed: " ++ p

def causes : Failure → List String
  | .reconcile _ e => e.causes
  | _ => []

def numbered (i : Nat) : List String → List String
  | [] => []
  | c :: r => (Text.showNat i ++ ": " ++ c) :: numbered (i + 1) r

def causeLines (f : Failure) : List String :=
  let shown := match f.causes with
    | [c] => [c]
    | cs => numbered 0 cs
  (shown.flatMap fun c => c.splitOn "\n").map Text.trim

def report (f : Failure) : String :=
  "Error: " ++ f.message ++ "\n" ++
    if f.causeLines.isEmpty then ""
    else "\nCaused by:\n" ++ String.join (f.causeLines.map fun l => "    " ++ l ++ "\n")

end Failure

end Command

end GameTimeline
