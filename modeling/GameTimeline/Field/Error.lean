import GameTimeline.Field.Value

namespace GameTimeline

inductive RuleError where
  | noFields
  | duplicateField (field : String)
  | missingDeltaBound (field : String)
  | negativeDeltaBound (field : String) (delta : Int64)
  | deltaWithoutMonotonicity (field : String)
  | unorderedDomain (field : String)
  | invalidWindow (field : String) (window majority : Nat)
  | emptyRange (field : String) (min max : Int64)
  | noLabels (field : String)
  | repeatedLabel (field label : String)
  | terminalOutsideDomain (field : String) (value : FieldValue)
  | invalidConfidence (field : String) (confidence : Float32)
  | unknownField (field : String) (frame : Nat)
  | malformed (part : String)

namespace RuleError

def about (field text : String) : String := "field '" ++ field ++ "': " ++ text

def message : RuleError → String
  | .noFields => "no fields configured"
  | .duplicateField f => "field '" ++ f ++ "' is configured more than once"
  | .missingDeltaBound f => about f "bounded_delta requires max_delta_per_frame"
  | .negativeDeltaBound f d =>
      about f ("max_delta_per_frame must be >= 0, got " ++ Text.showInt d.toInt)
  | .deltaWithoutMonotonicity f => about f "max_delta_per_frame set but monotonicity is none"
  | .unorderedDomain f => about f "monotonicity rules need an ordered domain"
  | .invalidWindow f w m =>
      about f ("invalid suspect window " ++ Text.showNat w ++ " / majority " ++ Text.showNat m)
  | .emptyRange f a b =>
      about f ("invalid domain: min " ++ Text.showInt a.toInt ++ " > max " ++ Text.showInt b.toInt)
  | .noLabels f => about f "invalid domain: enumeration has no values"
  | .repeatedLabel f v => about f ("invalid domain: enumeration value '" ++ v ++ "' repeated")
  | .terminalOutsideDomain f v =>
      about f ("terminal value " ++ v.display ++ " is outside the field's domain")
  | .invalidConfidence f c =>
      about f ("min_confidence must be within [0, 1], got " ++ Decimal.showFloat32 c)
  | .unknownField f n =>
      "no field model for observed field '" ++ f ++ "' (frame " ++ Text.showNat n ++ ")"
  | .malformed s => "malformed config: " ++ s

end RuleError

end GameTimeline
