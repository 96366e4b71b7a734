import GameTimeline.Json.Basic
import GameTimeline.Text.Digits
import GameTimeline.Decimal.Spelling

namespace GameTimeline

structure Numeral where
  negative : Bool
  whole : List Char
  fraction : Option (List Char)
  exponent : Option (Bool × List Char)

namespace Numeral

def absorb : Nat → List Char → Nat × Nat
  | m, [] => (m, 0)
  | m, c :: r =>
      let n := 10 * m + (c.toNat - 0x30)
      if n ≤ Text.maxWord then absorb n r else (m, r.length + 1)

def scale (x : Float) (e : Int) : Option Float :=
  if e.natAbs ≤ 308 then
    let p := Decimal.toFloat false 1 e.natAbs
    if 0 ≤ e then
      let y := x * p
      if y.isInf then none else some y
    else some (x / p)
  else if x == 0 then some x
  else if 0 ≤ e then none
  else scale (x / Decimal.toFloat false 1 308) (e + 308)
termination_by e.natAbs

def exponentLimit : Nat := 0x7fffffff

def signed (negative : Bool) (x : Float) : Float := if negative then -x else x

/-- The significand is rounded to a double before it is scaled, so the last bit need not be that of
the nearest double. -/
def toFloat? (t : Numeral) : Option Float :=
  let (m₀, dropped) := absorb 0 t.whole
  let (m, skipped) := match t.fraction with
    | none => (m₀, 0)
    | some ds => absorb m₀ ds
  let used := match t.fraction with
    | none => 0
    | some ds => ds.length - skipped
  let shift : Int := (dropped : Int) - used
  let exponent := match t.exponent with
    | none => (false, 0)
    | some (neg, ds) => (neg, Text.natOf ds)
  if exponentLimit < exponent.2 then
    if m ≠ 0 ∧ exponent.1 = false then none else some (signed t.negative 0)
  else
    let e : Int := if exponent.1 then shift - exponent.2 else shift + exponent.2
    (scale (Decimal.toFloat false m 0) e).map (signed t.negative)

def toNumber? (t : Numeral) : Option Number :=
  match t.fraction, t.exponent with
  | none, none =>
      let n := Text.natOf t.whole
      if t.negative then
        if n ≠ 0 ∧ n ≤ 0x8000000000000000 then some (.int (-(n : Int)))
        else t.toFloat?.map .float
      else if n ≤ Text.maxWord then some (.int n)
      else t.toFloat?.map .float
  | _, _ => t.toFloat?.map .float

end Numeral

namespace Number

def toFloat : Number → Float
  | .int n => Decimal.toFloat (n < 0) n.natAbs 0
  | .float x => x

def chars : Number → List Char
  | .int n => Text.decimal n
  | .float x =>
      match Decimal.Reading.ofFloat .even x with
      | .finite f => f.json
      | _ => ['n', 'u', 'l', 'l']

end Number

namespace Json

def float? : Json → Option Float
  | .num n => some n.toFloat
  | _ => none

def single (x : Float32) : Json := .float (Decimal.widen x)

end Json

end GameTimeline
