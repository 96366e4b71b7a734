namespace GameTimeline.Yaml

abbrev Tag := List UInt8

inductive Token where
  | version (major minor : Nat)
  | handle (name : String) (stands : Tag)
  | documentStart
  | documentEnd
  | blockSequence
  | blockMapping
  | blockEnd
  | openSequence
  | closeSequence
  | openMapping
  | closeMapping
  | comma
  | dash
  | key
  | value
  | alias (name : String)
  | anchor (name : String)
  | tag (handle : String) (suffix : Tag)
  | scalar (plain : Bool) (text : String)
  | textEnd
  deriving Repr, DecidableEq

end GameTimeline.Yaml
