import GameTimeline.Decimal.Nearest

namespace GameTimeline.Decimal

/-- The positive number `mantissa * 2 ^ exponent`, with the reals that round to it. Below a power
of two the next number is half as far. -/
structure Binary where
  mantissa : Nat
  exponent : Int
  halfGapBelow : Bool

def Binary.ofMagnitude (f : Format) (bits : Nat) : Binary :=
  let e := bits / f.hidden
  let m := bits % f.hidden
  if e = 0 then ⟨m, f.least, false⟩
  else ⟨m + f.hidden, f.least + e - 1, m = 0 && 1 < e⟩

def Binary.round (b : Binary) : Nat :=
  let scale := scaleUp 1 (-b.exponent)
  (2 * scaleUp b.mantissa b.exponent + scale) / (2 * scale)

inductive Tie where
  | even
  | up
  deriving DecidableEq, Repr

structure Span where
  low : Nat
  value : Nat
  high : Nat
  den : Nat
  closed : Bool

def Binary.span (b : Binary) : Span :=
  let q := b.exponent - 2
  let low := if b.halfGapBelow then 4 * b.mantissa - 1 else 4 * b.mantissa - 2
  ⟨scaleUp low q, scaleUp (4 * b.mantissa) q, scaleUp (4 * b.mantissa + 2) q, scaleUp 1 (-q),
    b.mantissa % 2 = 0⟩

def digitCount (n : Nat) : Nat := (Nat.toDigits 10 n).length

def leadingExponent (num den : Nat) : Int :=
  if den ≤ num then (digitCount (num / den) : Int) - 1
  else
    let t := digitCount (den / num)
    if num * Nat.pow 10 (t - 1) = den then -((t : Int) - 1) else -(t : Int)

namespace Span

def inUnits (s : Span) (g : Int) : Span :=
  let up := Nat.pow 10 (-g).toNat
  ⟨s.low * up, s.value * up, s.high * up, s.den * Nat.pow 10 g.toNat, s.closed⟩

def holds (s : Span) (c : Nat) : Bool :=
  let x := c * s.den
  if s.closed then s.low ≤ x && x ≤ s.high else s.low < x && x < s.high

def whole? (s : Span) (tie : Tie) : Option Nat :=
  let d := s.value / s.den
  let r := s.value % s.den
  match s.holds d, s.holds (d + 1) with
  | true, true =>
      if 2 * r < s.den then some d
      else if s.den < 2 * r then some (d + 1)
      else if tie = .even && d % 2 = 0 then some d else some (d + 1)
  | true, false => some d
  | false, true => some (d + 1)
  | false, false => none

def shortestFrom (s : Span) (tie : Tie) (lead : Int) : Nat → Nat → Nat × Int
  | 0, n => (s.value / s.den, n)
  | left + 1, n =>
      let g := lead - n + 1
      match (s.inUnits g).whole? tie with
      | some d => (d, g)
      | none => shortestFrom s tie lead left (n + 1)

end Span

def maxDigits (f : Format) : Nat := f.precision * 3 / 10 + 2

def Binary.shortest (b : Binary) (f : Format) (tie : Tie) : Nat × Int :=
  let s := b.span
  s.shortestFrom tie (leadingExponent s.value s.den) (maxDigits f) 1

end GameTimeline.Decimal
