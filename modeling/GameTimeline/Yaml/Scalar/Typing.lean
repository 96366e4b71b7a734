import GameTimeline.Decimal.Parser
import GameTimeline.Text.Hex

namespace GameTimeline.Yaml.Scalar

def isNull (s : String) : Bool := s = "~" || s = "null" || s = "Null" || s = "NULL"

def bool? (s : String) : Option Bool :=
  if s = "true" ∨ s = "True" ∨ s = "TRUE" then some true
  else if s = "false" ∨ s = "False" ∨ s = "FALSE" then some false
  else none

def dropSign : List Char → List Char
  | '+' :: r => r
  | '-' :: r => r
  | r => r

def hasSpareZero (s : List Char) : Bool :=
  match dropSign s with
  | '0' :: r => !r.isEmpty && r.all Char.isDigit
  | _ => false

def digitOf? (base : Nat) (c : Char) : Option Nat :=
  (Text.hexValue? c).bind fun d => if d < base then some d else none

def digits? (base : Nat) (s : List Char) : Option Nat :=
  if s.isEmpty then none
  else s.foldlM (fun n c => (digitOf? base c).map (base * n + ·)) 0

def coded? : List Char → Option Nat
  | '0' :: 'x' :: r => digits? 16 r
  | '0' :: 'o' :: r => digits? 8 r
  | '0' :: 'b' :: r => digits? 2 r
  | _ => none

def wholeNumber? (s : List Char) : Option Nat :=
  match coded? s with
  | some n => some n
  | none => if hasSpareZero s then none else digits? 10 s

def integer? : List Char → Option Int
  | '+' :: r => (wholeNumber? r).map Int.ofNat
  | '-' :: r => (wholeNumber? r).map fun n => -(n : Int)
  | r => (wholeNumber? r).map Int.ofNat

/-- Numbers of more than 64 bits are refused, and those of more than 128 are no integers. -/
inductive Width where
  | word
  | wide
  | none

def width (n : Int) : Width :=
  if -0x8000000000000000 ≤ n ∧ n < 0x10000000000000000 then .word
  else if -0x80000000000000000000000000000000 ≤ n ∧ n < 0x100000000000000000000000000000000 then .wide
  else .none

def float? (s : List Char) : Option Float :=
  let word := String.ofList s
  let unsigned := match s with
    | '+' :: r => String.ofList r
    | _ => word
  if unsigned = ".inf" ∨ unsigned = ".Inf" ∨ unsigned = ".INF" then some Decimal.infinity
  else if word = "-.inf" ∨ word = "-.Inf" ∨ word = "-.INF" then some (-Decimal.infinity)
  else if word = ".nan" ∨ word = ".NaN" ∨ word = ".NAN" then some Decimal.notANumber
  else (Decimal.parse? s).bind fun x => if x.isFinite then some x else none

end GameTimeline.Yaml.Scalar
