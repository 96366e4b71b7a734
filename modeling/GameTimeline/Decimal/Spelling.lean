import GameTimeline.Decimal.Shortest
import GameTimeline.Text.Digits

namespace GameTimeline.Decimal

structure Figures where
  negative : Bool
  digits : List Char
  point : Int

inductive Reading where
  | finite (f : Figures)
  | infinite (negative : Bool)
  | notANumber

def stripZeros (ds : List Char) : List Char := (ds.reverse.dropWhile (· == '0')).reverse

def Reading.ofBits (f : Format) (tie : Tie) (bits : Nat) : Reading :=
  let magnitude := bits % (f.infinityBits + f.hidden)
  let negative := bits != magnitude
  if magnitude = 0 then .finite ⟨negative, ['0'], 1⟩
  else if magnitude < f.infinityBits then
    let (d, g) := (Binary.ofMagnitude f magnitude).shortest f tie
    let ds := Nat.toDigits 10 d
    .finite ⟨negative, stripZeros ds, ds.length + g⟩
  else if magnitude = f.infinityBits then .infinite negative
  else .notANumber

def Reading.ofFloat (tie : Tie) (x : Float) : Reading := .ofBits double tie x.toBits.toNat

def Reading.ofFloat32 (tie : Tie) (x : Float32) : Reading := .ofBits single tie x.toBits.toNat

def zeros (n : Int) : List Char := List.replicate n.toNat '0'

namespace Figures

def sign (f : Figures) : List Char := if f.negative then ['-'] else []

def isWhole (f : Figures) : Bool := f.digits.length ≤ f.point

def positional (f : Figures) : List Char :=
  let n : Int := f.digits.length
  if f.point ≤ 0 then '0' :: '.' :: zeros (-f.point) ++ f.digits
  else if n ≤ f.point then f.digits ++ zeros (f.point - n)
  else f.digits.take f.point.toNat ++ '.' :: f.digits.drop f.point.toNat

def exponential (f : Figures) : List Char :=
  let e := f.point - 1
  let mantissa := match f.digits with
    | [] => []
    | [d] => [d]
    | d :: r => d :: '.' :: r
  mantissa ++ 'e' :: (if e < 0 then '-' else '+') :: Nat.toDigits 10 e.natAbs

def json (f : Figures) : List Char :=
  if -5 < f.point ∧ f.point ≤ 16 then
    f.sign ++ f.positional ++ (if f.isWhole then ['.', '0'] else [])
  else f.sign ++ f.exponential

def plain (f : Figures) : List Char := f.sign ++ f.positional

end Figures

def Reading.plain : Reading → List Char
  | .finite f => f.plain
  | .infinite negative => (if negative then ['-'] else []) ++ ['i', 'n', 'f']
  | .notANumber => ['N', 'a', 'N']

def showFloat (x : Float) : String := String.ofList (Reading.ofFloat .up x).plain

def showFloat32 (x : Float32) : String := String.ofList (Reading.ofFloat32 .up x).plain

def widen (x : Float32) : Float :=
  match Reading.ofFloat32 .even x with
  | .finite f =>
      toFloat f.negative (Nat.ofDigitChars 10 f.digits 0) (f.point - f.digits.length)
  | .infinite negative => if negative then -infinity else infinity
  | .notANumber => notANumber

def narrow (x : Float) : Float32 :=
  let bits := x.toBits.toNat
  let magnitude := bits % (double.infinityBits + double.hidden)
  let b := Binary.ofMagnitude double magnitude
  let nearest :=
    if magnitude < double.infinityBits then
      nearestQuotient single (scaleUp b.mantissa b.exponent) (scaleUp 1 (-b.exponent))
    else if magnitude = double.infinityBits then single.infinityBits
    else single.infinityBits + single.hidden / 2
  Float32.ofBits (UInt32.ofNat (if bits = magnitude then nearest else nearest + 0x80000000))

def toWord (x : Float) : Nat := min (Binary.ofMagnitude double x.toBits.toNat).round Text.maxWord

end GameTimeline.Decimal
