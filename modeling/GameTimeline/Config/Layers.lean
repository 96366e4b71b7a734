import GameTimeline.Digest.Sha256
import GameTimeline.Json.Pointer
import GameTimeline.Json.Printer
import GameTimeline.Yaml.Document

namespace GameTimeline.Config

mutual

def merge : Json → Json → Json
  | .obj as, .obj bs => .obj (mergeMembers as bs)
  | _, .obj bs => .obj bs
  | _, .null => .null
  | _, .bool b => .bool b
  | _, .num n => .num n
  | _, .str s => .str s
  | _, .arr xs => .arr xs

def mergeMembers : List (String × Json) → List (String × Json) → List (String × Json)
  | as, [] => as
  | as, (k, b) :: r =>
      let a := (Table.findEntry k as).getD .null
      mergeMembers (Table.insertEntry k (merge a b) (as.filter (·.1 ≠ k))) r

end

def mergeAll (layers : List Json) : Json := layers.foldl merge (.obj [])

def canonicalText (j : Json) : String := j.sorted.compact

structure Loaded where
  hash : String
  canonical : String
  config : Json

def Loaded.ofLayers (layers : List Json) : Loaded :=
  let config := mergeAll layers
  ⟨Digest.Sha256.hexOfText (canonicalText config), canonicalText config, config⟩

namespace Loaded

def ofTexts (docs : List String) : Except Yaml.Error Loaded := (docs.mapM Yaml.parse).map ofLayers

def int64? (l : Loaded) (pointer : String) : Option Int64 :=
  (l.config.pointer? pointer).bind Json.int64?

def string? (l : Loaded) (pointer : String) : Option String :=
  (l.config.pointer? pointer).bind Json.string?

end Loaded

end GameTimeline.Config
