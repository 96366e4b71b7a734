import GameTimeline.Field.Clock
import GameTimeline.Field.Numeral

namespace GameTimeline

inductive Domain where
  | nonNegative
  | bounded (min max : Int64)
  | labels (values : List String)
  | timer
  | flag
  | text
  deriving DecidableEq, Repr, Inhabited

namespace Domain

def isNumeric : Domain → Bool
  | .nonNegative => true
  | .bounded _ _ => true
  | .timer => true
  | _ => false

def isOrdered : Domain → Bool
  | .labels _ => true
  | .flag => true
  | d => d.isNumeric

def normalizeFlag : FieldValue → Option FieldValue
  | .flag b => some (.flag b)
  | .int n => if n = 0 then some (.flag false) else if n = 1 then some (.flag true) else none
  | .text s =>
      let t := Text.lowerAscii (Text.trim s)
      if t = "true" then some (.flag true)
      else if t = "false" then some (.flag false)
      else none
  | .unsupported _ => none

def normalizeText : FieldValue → Option FieldValue
  | .text s => some (.text s)
  | .int n => some (.text (Text.showInt n.toInt))
  | .flag _ => none
  | .unsupported _ => none

def normalizeLabel (values : List String) : FieldValue → Option FieldValue
  | .text s =>
      let t := Text.trim s
      if values.contains t then some (.text t) else none
  | _ => none

def normalizeTimer : FieldValue → Option FieldValue
  | .text s =>
      if s.toList.contains ':' then (Clock.parse? s).map .int
      else ((FieldValue.text s).whole?.filter (0 ≤ ·)).map .int
  | v => (v.whole?.filter (0 ≤ ·)).map .int

def normalize (d : Domain) (v : FieldValue) : Option FieldValue :=
  match d with
  | .nonNegative => (v.whole?.filter (0 ≤ ·)).map .int
  | .bounded min max => (v.whole?.filter fun n => min ≤ n ∧ n ≤ max).map .int
  | .labels values => normalizeLabel values v
  | .timer => normalizeTimer v
  | .flag => normalizeFlag v
  | .text => normalizeText v

def rank? (d : Domain) (v : FieldValue) : Option Int :=
  match d, v with
  | .labels values, .text s => (values.findIdx? (· == s)).map Int.ofNat
  | .flag, .flag b => some (if b then 1 else 0)
  | .text, _ => none
  | _, .int n => some n.toInt
  | _, _ => none

end Domain

end GameTimeline
