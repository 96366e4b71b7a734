import GameTimeline.Decimal.Parser
import GameTimeline.Text.Digits

namespace GameTimeline.Command

inductive ValueKind where
  | flag
  | text
  | natural
  | integer
  | decimal
  deriving DecidableEq, Repr

def ValueKind.accepts (s : String) : ValueKind → Bool
  | .flag => false
  | .text => true
  | .natural => (Text.word? s.toList).isSome
  | .integer => (Text.int64? s.toList).isSome
  | .decimal => (Decimal.parse? s.toList).isSome

structure OptionRule where
  name : String
  kind : ValueKind
  required : Bool
  repeats : Bool
  dashes : Bool
  help : String

namespace OptionRule

def flag (name help : String) : OptionRule := ⟨name, .flag, false, false, false, help⟩

def allowed (name : String) (kind : ValueKind) (help : String) : OptionRule :=
  ⟨name, kind, false, false, false, help⟩

def needed (name : String) (kind : ValueKind) (help : String) : OptionRule :=
  ⟨name, kind, true, false, false, help⟩

end OptionRule

inductive Stop where
  | help
  | misuse
  deriving DecidableEq, Repr

structure Arguments where
  options : List (String × String)
  operands : List String

namespace Arguments

def empty : Arguments := ⟨[], []⟩

def has (a : Arguments) (name : String) : Bool := a.options.any (·.1 = name)

def values (a : Arguments) (name : String) : List String :=
  ((a.options.filter (·.1 = name)).map (·.2)).reverse

def text? (a : Arguments) (name : String) : Option String := (a.values name).head?

def natural? (a : Arguments) (name : String) : Option Nat :=
  (a.text? name).bind fun s => Text.word? s.toList

def integer? (a : Arguments) (name : String) : Option Int64 :=
  (a.text? name).bind fun s => Text.int64? s.toList

def decimal? (a : Arguments) (name : String) : Option Float :=
  (a.text? name).bind fun s => Decimal.parse? s.toList

def add? (a : Arguments) (r : OptionRule) (value : String) : Except Stop Arguments :=
  if ¬ r.repeats ∧ a.has r.name then .error .misuse
  else if r.kind = .flag ∨ r.kind.accepts value then
    .ok { a with options := (r.name, value) :: a.options }
  else .error .misuse

def addOperands (a : Arguments) (allowed : Bool) (words : List String) : Except Stop Arguments :=
  if allowed ∨ words.isEmpty then .ok { a with operands := a.operands ++ words }
  else .error .misuse

end Arguments

inductive Word where
  | operandsOnly
  | option (name : String) (value : Option String)
  | help
  | unknown
  | operand

namespace Word

def ofName (s : List Char) : Word :=
  let name := String.ofList (s.takeWhile (· ≠ '='))
  match s.dropWhile (· ≠ '=') with
  | [] => if name = "help" then .help else .option name none
  | _ :: value => .option name (some (String.ofList value))

def ofString (s : String) : Word :=
  match s.toList with
  | ['-', '-'] => .operandsOnly
  | '-' :: '-' :: r => ofName r
  | ['-'] => .operand
  | '-' :: c :: _ => if c = 'h' then .help else .unknown
  | _ => .operand

def startsWithDash (s : String) : Bool := s.startsWith "-" && s ≠ "-"

end Word

def readArguments (rules : List OptionRule) (operands : Bool) :
    Arguments → List String → Except Stop Arguments
  | a, [] => .ok a
  | a, w :: rest =>
      match Word.ofString w with
      | .operandsOnly => a.addOperands operands rest
      | .operand =>
          match a.addOperands operands [w] with
          | .ok a => readArguments rules operands a rest
          | .error e => .error e
      | .help => .error .help
      | .unknown => .error .misuse
      | .option name value =>
          match rules.find? (·.name = name), value, rest with
          | none, _, _ => .error .misuse
          | some r, some v, rest =>
              if r.kind = .flag then .error .misuse
              else match a.add? r v with
                | .ok a => readArguments rules operands a rest
                | .error e => .error e
          | some r, none, rest =>
              if r.kind = .flag then
                match a.add? r "" with
                | .ok a => readArguments rules operands a rest
                | .error e => .error e
              else match rest with
                | [] => .error .misuse
                | v :: rest =>
                    if Word.startsWithDash v ∧ ¬ r.dashes then .error .misuse
                    else match a.add? r v with
                      | .ok a => readArguments rules operands a rest
                      | .error e => .error e
termination_by _ words => words.length

end GameTimeline.Command
