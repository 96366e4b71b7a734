import GameTimeline.Command.FileTree
import GameTimeline.Command.Selection
import GameTimeline.Run.Manifest

namespace GameTimeline.Command

structure Outputs where
  timeline : String
  pretty : Bool
  table : Option String
  exports : Option String

end Command

inductive Command where
  | correct (s : Command.Selection) (out : Command.Outputs)
  | quality (s : Command.Selection) (json : Bool)
  | configHash (paths : List String)
  | samplePlan (plan : SamplingPlan) (frameCount : Nat) (fps : Float)

namespace Command

def line (name value : String) : String := name ++ "=" ++ value ++ "\n"

namespace Reconciled

def manifest (r : Reconciled) (stamp : String) : Run.Manifest :=
  ⟨r.configHash, r.inputHash, r.timeline.size, r.quality.frozenAt, stamp⟩

def summary (r : Reconciled) : String :=
  line "config_hash" r.configHash ++ line "input_sha256" r.inputHash ++
    line "frames_in" (Text.showNat r.quality.framesIn) ++
    line "frames_out" (Text.showNat r.timeline.size) ++
    line "frozen_at" (QualityReport.frozenText r.quality.frozenAt) ++
    line "discarded" (Text.showNat r.quality.totalDiscarded)

def qualityText (r : Reconciled) : String := r.quality.toJson.pretty

def runDirectory (r : Reconciled) (root : String) : String :=
  inDirectory root (Run.id r.configHash r.inputHash)

def exportActions (r : Reconciled) (stamp root : String) : List Action :=
  let directory := r.runDirectory root
  let path := fun (a : Run.Artifact) => inDirectory directory a.fileName
  [.makeDirectories directory,
   .writeText (path .timeline) (r.timeline.jsonText true),
   .writeTable (path .table) r.timeline.csvBytes,
   .writeText (path .quality) r.qualityText,
   .writeText (path .manifest) (r.manifest stamp).toJson.pretty,
   .print (line "run_id" (Run.id r.configHash r.inputHash) ++ line "run_dir" directory ++
     line "manifest" (path .manifest))]

def correctActions (r : Reconciled) (stamp : String) (out : Outputs) : List Action :=
  let table := out.table.toList
  [.writeText out.timeline (r.timeline.jsonText out.pretty)] ++
    table.map (fun p => .writeTable p r.timeline.csvBytes) ++
    [.print (r.summary ++ line "out" out.timeline ++ String.join (table.map (line "csv")))] ++
    out.exports.toList.flatMap (r.exportActions stamp)

def qualityActions (r : Reconciled) (json : Bool) : List Action :=
  [.print (if json then r.qualityText ++ "\n" else r.quality.display)]

end Reconciled

def configActions (files : Files) (paths : List String) : Except Failure (List Action) := do
  let loaded ← loadConfig files paths
  pure [.print (line "config_hash" loaded.hash ++ loaded.canonical ++ "\n")]

def endText (i : FrameIndices) : String :=
  if i.count = 0 then ""
  else line "first" (Text.showNat (i.get 0)) ++ line "last" (Text.showNat (i.get (i.count - 1)))

def planActions (plan : SamplingPlan) (frameCount : Nat) (fps : Float) :
    Except Failure (List Action) := do
  let stride ← (plan.stride fps).mapError Failure.plan
  let indices ← (plan.frameIndices ⟨frameCount, 0, 0, fps⟩).mapError Failure.plan
  pure [.print (line "stride" (Text.showNat stride) ++
    line "samples" (Text.showNat indices.count) ++ endText indices)]

def reads : Command → List String
  | .correct s _ => s.input :: s.configs
  | .quality s _ => s.input :: s.configs
  | .configHash paths => paths
  | .samplePlan _ _ _ => []

def actions (files : Files) (stamp : String) : Command → Except Failure (List Action)
  | .correct s out => do
      let r ← s.reconcile files .correct
      pure (r.correctActions stamp out)
  | .quality s json => do
      let r ← s.reconcile files .quality
      pure (r.qualityActions json)
  | .configHash paths => configActions files paths
  | .samplePlan plan frameCount fps => planActions plan frameCount fps

def perform (t : FileTree) (stamp : String) (c : Command) : Performed :=
  match c.actions t.read? stamp with
  | .ok as => t.perform as
  | .error e => ⟨t, "", some e⟩

end Command

end GameTimeline
