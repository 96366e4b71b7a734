import GameTimeline.Run.Identity
import GameTimeline.Timeline.Export
import GameTimeline.Timeline.Quality

namespace GameTimeline.Run

inductive Artifact where
  | manifest
  | timeline
  | table
  | quality
  deriving DecidableEq, Repr

namespace Artifact

def all : List Artifact := [.manifest, .timeline, .table, .quality]

def label : Artifact → String
  | .manifest => "manifest_json"
  | .timeline => "timeline_json"
  | .table => "timeline_csv"
  | .quality => "quality_json"

def fileName : Artifact → String
  | .manifest => "manifest.json"
  | .timeline => "timeline.json"
  | .table => "timeline.csv"
  | .quality => "quality.json"

end Artifact

def schemaVersion : Nat := 1

structure Manifest where
  configHash : String
  inputHash : String
  frames : Nat
  frozenAt : Option Nat
  createdAt : String

namespace Manifest

def runId (m : Manifest) : String := Run.id m.configHash m.inputHash

def toJson (m : Manifest) : Json :=
  .obj [("schema_version", .nat schemaVersion), ("run_id", .str m.runId),
    ("config_hash", .str m.configHash), ("input_sha256", .str m.inputHash),
    ("frames", .nat m.frames), ("frozen_at", .option Json.nat m.frozenAt),
    ("created_at_utc", .str m.createdAt),
    ("artifacts", .obj (Artifact.all.map fun a => (a.label, .str a.fileName)))]

end Manifest

end GameTimeline.Run
