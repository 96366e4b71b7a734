namespace GameTimeline.Text

def natOf (s : List Char) : Nat := Nat.ofDigitChars 10 s 0

def nat? (s : List Char) : Option Nat :=
  if s.isEmpty then none
  else if s.all Char.isDigit then some (natOf s)
  else none

def int? : List Char → Option Int
  | '+' :: s => (nat? s).map Int.ofNat
  | '-' :: s => (nat? s).map fun n => -(n : Int)
  | s => (nat? s).map Int.ofNat

def toInt64? (n : Int) : Option Int64 :=
  if Int64.minValue.toInt ≤ n ∧ n ≤ Int64.maxValue.toInt then some (Int64.ofInt n) else none

theorem toInt_of_toInt64? {n : Int} {i : Int64} (h : toInt64? n = some i) : i.toInt = n := by
  simp only [toInt64?] at h
  split at h
  · rename_i hn
    cases h
    exact Int64.toInt_ofInt_of_le hn.1 (Int.lt_add_one_of_le hn.2)
  · cases h

theorem toInt64?_toInt (i : Int64) : toInt64? i.toInt = some i := by
  have h : Int64.minValue.toInt ≤ i.toInt ∧ i.toInt ≤ Int64.maxValue.toInt :=
    ⟨i.le_toInt, Int.le_of_lt_add_one i.toInt_lt⟩
  rw [toInt64?, if_pos h, Int64.ofInt_toInt]

def int64? (s : List Char) : Option Int64 := (int? s).bind toInt64?

def maxWord : Nat := UInt64.size - 1

def word? (s : List Char) : Option Nat :=
  let digits := match s with
    | '+' :: r => r
    | r => r
  (nat? digits).filter (· ≤ maxWord)

def decimal (n : Int) : List Char :=
  match n with
  | .ofNat m => Nat.toDigits 10 m
  | .negSucc m => '-' :: Nat.toDigits 10 (m + 1)

theorem natOf_toDigits (n : Nat) : natOf (Nat.toDigits 10 n) = n :=
  Nat.ofDigitChars_ten_toDigits

def showInt (n : Int) : String := String.ofList (decimal n)

def showNat (n : Nat) : String := String.ofList (Nat.toDigits 10 n)

end GameTimeline.Text
