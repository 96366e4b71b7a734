import GameTimeline.Decimal.Nearest
import GameTimeline.Text.Digits

namespace GameTimeline.Decimal

def named? (word : List Char) : Option Float :=
  let w := String.ofList (word.map Char.toLower)
  if w = "inf" ∨ w = "infinity" then some infinity
  else if w = "nan" then some notANumber
  else none

def exponent? : List Char → Option Int
  | [] => some 0
  | c :: r => if c = 'e' ∨ c = 'E' then Text.int? r else none

def magnitude? (negative : Bool) (s : List Char) : Option Float := do
  let whole := s.takeWhile Char.isDigit
  let rest := s.dropWhile Char.isDigit
  let (fraction, rest) := match rest with
    | '.' :: r => (r.takeWhile Char.isDigit, r.dropWhile Char.isDigit)
    | r => ([], r)
  if whole.isEmpty ∧ fraction.isEmpty then none
  else do
    let e ← exponent? rest
    pure (toFloat negative (Text.natOf (whole ++ fraction)) (e - fraction.length))

def signed? (negative : Bool) (s : List Char) : Option Float :=
  match named? s with
  | some x => some (if negative then -x else x)
  | none => magnitude? negative s

def parse? : List Char → Option Float
  | '+' :: s => signed? false s
  | '-' :: s => signed? true s
  | s => signed? false s

end GameTimeline.Decimal
