import GameTimeline.Yaml.Node.Document
import GameTimeline.Yaml.Token.Stream
import GameTimeline.Yaml.Value

namespace GameTimeline.Yaml

inductive Error where
  | invalid
  | conversion
  deriving Repr, DecidableEq

def Error.message : Error → String
  | .invalid => "invalid yaml"
  | .conversion => "yaml->json conversion failed"

def value? (text : String) : Option Value := do
  let tokens ← Token.ofText? text
  let node ← Node.ofTokens? tokens
  Value.ofNode? node

def parse (text : String) : Except Error Json :=
  match value? text with
  | none => .error .invalid
  | some v =>
      match v.toJson? with
      | none => .error .conversion
      | some j => .ok j

end GameTimeline.Yaml
