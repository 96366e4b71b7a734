namespace GameTimeline.Text

def hexDigit (n : Nat) : Char := Nat.digitChar (n % 16)

def hexByte (b : UInt8) : List Char := [hexDigit (b.toNat / 16), hexDigit b.toNat]

def hexBytes (bs : List UInt8) : String := String.ofList (bs.flatMap hexByte)

def hexPadded : Nat → Nat → List Char
  | 0, _ => []
  | width + 1, n => hexPadded width (n / 16) ++ [hexDigit n]

def hexValue? (c : Char) : Option Nat :=
  if c.isDigit then some (c.toNat - 0x30)
  else if 'a' ≤ c ∧ c ≤ 'f' then some (c.toNat - 0x61 + 10)
  else if 'A' ≤ c ∧ c ≤ 'F' then some (c.toNat - 0x41 + 10)
  else none

def unhexFrom (n : Nat) : List Char → Option Nat
  | [] => some n
  | c :: r => (hexValue? c).bind fun d => unhexFrom (16 * n + d) r

def unhex? (s : List Char) : Option Nat := unhexFrom 0 s

def bytesOfHex? : List Char → Option (List UInt8)
  | [] => some []
  | [_] => none
  | a :: b :: r => do
      let h ← hexValue? a
      let l ← hexValue? b
      let rest ← bytesOfHex? r
      pure (UInt8.ofNat (16 * h + l) :: rest)

end GameTimeline.Text
