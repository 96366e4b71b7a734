import GameTimeline.Field.Model
import GameTimeline.Json.Pointer
import GameTimeline.Json.Record

namespace GameTimeline

namespace Domain

def ofParts? (kind : String) (parts : List String → Option (List (Option Json))) :
    Option Domain :=
  match kind with
  | "non_negative_int" => (parts []).map fun _ => .nonNegative
  | "bounded_int" => do
      let ps ← parts ["min", "max"]
      let min ← (Json.part ps 0).bind Json.int64?
      let max ← (Json.part ps 1).bind Json.int64?
      pure (.bounded min max)
  | "enumerated" => do
      let ps ← parts ["values"]
      let values ← (Json.part ps 0).bind (Json.listOf? Json.string?)
      pure (.labels values)
  | "timer" => (parts []).map fun _ => .timer
  | "flag" => (parts []).map fun _ => .flag
  | "text" => (parts []).map fun _ => .text
  | _ => none

def ofJson? (j : Json) : Option Domain :=
  match j with
  | .obj _ => do
      let kind ← (j.member? "kind").bind Json.string?
      ofParts? kind fun names => j.parts? names
  | .arr (k :: r) => do
      let kind ← k.string?
      ofParts? kind fun names => (Json.arr r).parts? names
  | _ => none

end Domain

inductive MonotonicityKind where
  | free
  | nonDecreasing
  | boundedDelta
  deriving DecidableEq, Repr, Inhabited

def MonotonicityKind.ofName? : String → Option MonotonicityKind
  | "none" => some .free
  | "non_decreasing" => some .nonDecreasing
  | "bounded_delta" => some .boundedDelta
  | _ => none

structure FieldEntry where
  name : String
  domain : Domain
  kind : MonotonicityKind
  bound : Option Int64
  window : Option Nat
  majority : Option Nat
  maxGap : Option Nat
  minConfidence : Option Float32
  terminal : Option FieldValue

def FieldEntry.parts : List String :=
  ["name", "domain", "monotonicity", "max_delta_per_frame", "suspect_window", "majority",
   "max_sampling_gap", "min_confidence", "terminal_value"]

def FieldEntry.ofJson? (j : Json) : Option FieldEntry := do
  let ps ← j.exactParts? FieldEntry.parts
  let name ← (Json.part ps 0).bind Json.string?
  let domain ← (Json.part ps 1).bind Domain.ofJson?
  let kind ← Json.defaulted? (Json.choice? MonotonicityKind.ofName?) .free (Json.part ps 2)
  let bound ← Json.optional? Json.int64? (Json.part ps 3)
  let window ← Json.optional? Json.word? (Json.part ps 4)
  let majority ← Json.optional? Json.word? (Json.part ps 5)
  let maxGap ← Json.optional? Json.word? (Json.part ps 6)
  let minConfidence ← Json.optional? Json.float32? (Json.part ps 7)
  let terminal ← Json.optional? (fun j => some (FieldValue.ofJson j)) (Json.part ps 8)
  pure ⟨name, domain, kind, bound, window, majority, maxGap, minConfidence, terminal⟩

structure Defaults where
  window : Nat
  majority : Option Nat
  maxGap : Nat
  deriving DecidableEq, Repr, Inhabited

namespace Defaults

def standard : Defaults := ⟨FieldModel.defaultWindow, none, FieldModel.defaultMaxGap⟩

def parts : List String := ["suspect_window", "majority", "max_sampling_gap"]

def ofJson? (j : Json) : Option Defaults := do
  let ps ← j.exactParts? parts
  let window ← Json.defaulted? Json.word? standard.window (Json.part ps 0)
  let majority ← Json.optional? Json.word? (Json.part ps 1)
  let maxGap ← Json.defaulted? Json.word? standard.maxGap (Json.part ps 2)
  pure ⟨window, majority, maxGap⟩

end Defaults

structure RuleConfig where
  defaults : Defaults
  fields : List FieldEntry

namespace RuleConfig

def section? (config : Json) (name : String) : Option Json :=
  (config.child? name).filter fun j => !j.isNull

def readDefaults (config : Json) : Except RuleError Defaults :=
  match section? config "reconcile" with
  | none => .ok .standard
  | some j => (Defaults.ofJson? j).elim (.error (.malformed "/reconcile")) .ok

def readFields (config : Json) : Except RuleError (List FieldEntry) :=
  match section? config "fields" with
  | none => .ok []
  | some j =>
      (Json.listOf? FieldEntry.ofJson? j).elim (.error (.malformed "/fields")) .ok

def ofJson (config : Json) : Except RuleError RuleConfig := do
  let defaults ← readDefaults config
  let fields ← readFields config
  pure ⟨defaults, fields⟩

end RuleConfig

namespace FieldModel

def monotonicityOf (e : FieldEntry) : Except RuleError Monotonicity :=
  match e.kind, e.bound with
  | .free, some _ => .error (.deltaWithoutMonotonicity e.name)
  | .free, none => .ok .free
  | .nonDecreasing, d => .ok (.nonDecreasing d)
  | .boundedDelta, some d => .ok (.boundedDelta d)
  | .boundedDelta, none => .error (.missingDeltaBound e.name)

def effective (e : FieldEntry) (d : Defaults) (monotonicity : Monotonicity) : FieldModel :=
  let window := e.window.getD d.window
  ⟨e.name, e.domain, monotonicity, window, (e.majority <|> d.majority).getD (simpleMajority window),
    e.maxGap.getD d.maxGap, e.minConfidence, e.terminal⟩

def ofEntry (d : Defaults) (e : FieldEntry) : Except RuleError FieldModel := do
  let monotonicity ← monotonicityOf e
  let model := effective e d monotonicity
  model.validate
  pure model

end FieldModel

end GameTimeline
